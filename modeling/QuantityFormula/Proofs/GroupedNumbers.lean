import QuantityFormula.Proofs.Blanks
import QuantityFormula.Proofs.OperandEdges

/-!
Arithmetic with numbers in parentheses. A number in parentheses of its own is read as the same
step of a program as the number alone, so arithmetic in which numbers stand free has one value
with and without such parentheses.
-/

set_option autoImplicit false

namespace QuantityFormula

open Text

/-! ### Tokens -/

/-- Tokens with some of the numbers in parentheses of their own. -/
inductive Token.Wrapped : List Token → List Token → Prop where
  | nil : Wrapped [] []
  | token (token : Token) {tokens tokens' : List Token} (rest : Wrapped tokens tokens') :
      Wrapped (token :: tokens) (token :: tokens')
  | number (value : Float) {tokens tokens' : List Token} (rest : Wrapped tokens tokens') :
      Wrapped (.number value :: tokens) (.leftParen :: .number value :: .rightParen :: tokens')

namespace Token.Wrapped

variable {tokens tokens' : List Token}

theorem append (before : List Token) (wrapped : Wrapped tokens tokens') :
    Wrapped (before ++ tokens) (before ++ tokens') := by
  induction before with
  | nil => exact wrapped
  | cons token before ih => exact .token token ih

theorem refl (tokens : List Token) : Wrapped tokens tokens := by
  have whole := append tokens .nil
  rwa [List.append_nil] at whole

end Token.Wrapped

/-- The tokens that stand for one, with a zero to subtract from where a
minus has no left operand. -/
def Token.completed (opening : Bool) (token : Token) : List Token :=
  if opening = true ∧ token = .operator .subtract then [.number 0, token] else [token]

theorem Arithmetic.completeMinus_cons (opening : Bool) (token : Token) (tokens : List Token) :
    completeMinus opening (token :: tokens) =
      token.completed opening ++ completeMinus (decide (token = .leftParen)) tokens := by
  cases token with
  | operator sign => cases opening <;> cases sign <;> rfl
  | number value => cases opening <;> rfl
  | leftParen | rightParen => cases opening <;> rfl

private theorem Program.order_append_congr {tokens tokens' : List Token}
    (same : ∀ waiting outer, order waiting outer tokens = order waiting outer tokens')
    (before : List Token) (waiting : List Operator) (outer : List (List Operator)) :
    order waiting outer (before ++ tokens) = order waiting outer (before ++ tokens') := by
  induction before generalizing waiting outer with
  | nil => exact same waiting outer
  | cons token before ih =>
      rw [List.cons_append, List.cons_append]
      cases token with
      | number value => rw [order, order, ih]
      | operator sign => rw [order, order, ih]
      | leftParen => rw [order, order, ih]
      | rightParen =>
          cases outer with
          | nil => rw [order, order]
          | cons enclosing outer => rw [order, order, ih]

/-- Parentheses around a number leave no trace in a program. -/
theorem Program.order_wrapped {tokens tokens' : List Token} (wrapped : Token.Wrapped tokens tokens')
    (opening : Bool) (waiting : List Operator) (outer : List (List Operator)) :
    order waiting outer (Arithmetic.completeMinus opening tokens) =
      order waiting outer (Arithmetic.completeMinus opening tokens') := by
  induction wrapped generalizing opening waiting outer with
  | nil => rfl
  | token token rest ih =>
      rw [Arithmetic.completeMinus_cons, Arithmetic.completeMinus_cons]
      exact order_append_congr (ih _) _ waiting outer
  | @number value tokens tokens' rest ih =>
      have left : Arithmetic.completeMinus opening (.number value :: tokens) =
          .number value :: Arithmetic.completeMinus false tokens := by
        cases opening <;> rfl
      have right : Arithmetic.completeMinus opening
            (.leftParen :: .number value :: .rightParen :: tokens') =
          .leftParen :: .number value :: .rightParen :: Arithmetic.completeMinus false tokens' := by
        cases opening <;> rfl
      rw [left, right, order, order, order, order, ih]
      cases order waiting outer (Arithmetic.completeMinus false tokens') <;> rfl

/-! ### Reading -/

namespace Token

private theorem scan_group (numeral : Numeral) (text : Text) :
    scan [] (numeral.text ++ ')' :: text) =
      (fun tokens => number numeral.value :: rightParen :: tokens) <$> scan [] text := by
  have stops : ∀ c ∈ (')' :: text).head?, isNumberChar c = false := by
    rintro _ ⟨⟩
    rfl
  have closing := @scan_cons_sign ')' .rightParen rfl text (fun star => absurd star (by decide)) []
  rw [scan_numeral numeral stops, closing]
  cases scan [] text <;> rfl

end Token

/-! ### Reading twins -/

namespace Alike

private theorem wrapped_of_run {run left right : Text} (between : List Token)
    (alike : Alike Token.Wrapped (Token.scan [] left) (Token.scan [] right)) :
    Alike Token.Wrapped
      (do
        let number ← Token.ofRun run
        let tokens ← Token.scan [] left
        return number ++ (between ++ tokens))
      (do
        let number ← Token.ofRun run
        let tokens ← Token.scan [] right
        return number ++ (between ++ tokens)) := by
  cases Token.ofRun run with
  | error fault => exact .of_error _ fault
  | ok number =>
      generalize Token.scan [] left = outcome at alike ⊢
      generalize Token.scan [] right = outcome' at alike ⊢
      cases alike with
      | ok wrapped => exact .ok ((wrapped.append between).append number)
      | limit limit => exact .limit limit
      | fault unlimited unlimited' => exact .fault unlimited unlimited'

theorem map {α β γ δ : Type} {related : α → β → Prop} {other : γ → δ → Prop}
    {outcome : Except Fault α}
    {outcome' : Except Fault β} (alike : Alike related outcome outcome') {f : α → γ} {f' : β → δ}
    (same : ∀ value value', related value value' → other (f value) (f' value')) :
    Alike other (f <$> outcome) (f' <$> outcome') := by
  cases alike with
  | ok value => exact .ok (same _ _ value)
  | limit limit => exact .limit limit
  | fault unlimited unlimited' => exact .fault unlimited unlimited'

end Alike

namespace numberSeams

variable {state final : numberSeams.State} {left right : Text}

private theorem alike_scan_number {x : Float} (finite : x.isFinite = true)
    (stops : ∀ c ∈ left.head?, isOperandChar c = false)
    (alike : Alike Token.Wrapped (Token.scan [] left) (Token.scan [] right)) :
    Alike Token.Wrapped (Token.scan [] (inlineNumber x ++ left))
      (Token.scan [] (groupedNumber x ++ right)) := by
  have sign {c : Char} {token : Token} (sign : Token.ofChar? c = some token)
      (notStar : c ≠ '*') (text : Text) :
      Token.scan [] (c :: text) = (token :: ·) <$> Token.scan [] text := by
    rw [Token.scan_cons_sign sign (fun star => absurd star notStar), Token.ofRun_nil]
    cases Token.scan [] text <;> rfl
  have opening := @sign '(' .leftParen rfl (by decide)
  have minus := @sign '-' (.operator .subtract) rfl (by decide)
  have parenthesized (numeral : Numeral) (text : Text) : '(' :: (numeral.text ++ [')']) ++ text =
      '(' :: (numeral.text ++ ')' :: text) := by
    simp
  obtain ⟨numeral, ⟨same, grouped⟩ | ⟨same, grouped⟩⟩ := exists_numeral_inlineNumber finite
  · have negative (text : Text) : Token.scan [] (inlineNumber x ++ text) =
        (fun tokens => .leftParen :: .operator .subtract :: .number numeral.value ::
          .rightParen :: tokens) <$>
          Token.scan [] text := by
      have shape : inlineNumber x ++ text = '(' :: '-' :: (numeral.text ++ ')' :: text) := by
        rw [same]
        simp
      rw [shape, opening, minus, Token.scan_group]
      cases Token.scan [] text <;> rfl
    rw [grouped, negative, negative]
    exact alike.map fun _ _ wrapped => .token _ (.token _ (.token _ (.token _ wrapped)))
  · have apart : ∀ c ∈ left.head?, Token.isNumberChar c = false := by
      intro c first
      refine Bool.eq_false_iff.mpr fun numeric => ?_
      have outside := stops c first
      rw [isOperandChar_of_isNumberChar numeric] at outside
      cases outside
    have wrapped : Token.scan [] (groupedNumber x ++ right) =
        (fun tokens => .leftParen :: .number numeral.value :: .rightParen :: tokens) <$>
          Token.scan [] right := by
      rw [grouped, parenthesized, opening, Token.scan_group]
      cases Token.scan [] right <;> rfl
    rw [wrapped, same, Token.scan_numeral numeral apart]
    exact alike.map fun _ _ rest => .number numeral.value rest

/-- Twins begin with an asterisk on both sides or on none, since no number does. -/
private theorem star_cases (twin : Twin numberSeams state left right final) :
    (∃ rest rest', left = '*' :: rest ∧ right = '*' :: rest' ∧
        Twin numberSeams (Edge.behind state '*') rest rest' final) ∨
      left.head? ≠ some '*' ∧ right.head? ≠ some '*' := by
  cases twin with
  | nil => exact .inr ⟨nofun, nofun⟩
  | @char _ _ c left right admitted rest =>
      by_cases star : c = '*'
      · subst star
        exact .inl ⟨left, right, rfl, rfl, rest⟩
      · have other (text : Text) : (c :: text).head? ≠ some '*' :=
          fun same => star (Option.some.inj same)
        exact .inr ⟨other left, other right⟩
  | block block rest =>
      obtain ⟨_, _, x, finite, rfl, rfl⟩ := block
      have other {piece : Text} (number : IsNumberText piece) (text : Text) :
          (piece ++ text).head? ≠ some '*' := by
        obtain ⟨first, others, rfl⟩ := List.exists_cons_of_ne_nil number.nonempty
        intro same
        cases Option.some.inj same
        have plain := number.plain '*' List.mem_cons_self
        revert plain
        decide
      exact .inr ⟨other (.inlineNumber finite) _, other (.groupedNumber finite) _⟩

private theorem alike_scan (twin : Twin numberSeams state left right final) (run : Text)
    (empty : run = [] ∨ Edge.isFree state = false) :
    Alike Token.Wrapped (Token.scan run left) (Token.scan run right) := by
  -- By the length of the text, since two asterisks are read at once.
  induction size : left.length using Nat.strongRecOn generalizing state left right run with
  | ind length ih =>
      cases twin with
      | nil => exact .of_forall fun tokens _ => .refl tokens
      | @char _ _ c left right admitted rest =>
          have shorter : left.length < length := by
            rw [← size, List.length_cons]
            exact Nat.lt_succ_self _
          by_cases numeric : Token.isNumberChar c = true
          · have digits : ∀ d ∈ [c], Token.isNumberChar d = true := by simpa using numeric
            have joined : Edge.isFree (Edge.behind state c) = false := by
              rw [behind_of_isOperandChar state (isOperandChar_of_isNumberChar numeric)]
              rfl
            have alike := ih left.length shorter rest (run ++ [c]) (.inr joined) rfl
            rw [← Token.scan_numberChars digits, ← Token.scan_numberChars digits] at alike
            exact alike
          have behind := ih left.length shorter rest [] (.inl rfl) rfl
          by_cases blank : isBlankChar c = true
          · rw [Token.scan_cons_blank blank, Token.scan_cons_blank blank]
            exact behind.wrapped_of_run []
          by_cases double : c = '*' ∧ left.head? = some '*'
          · obtain ⟨rfl, second⟩ := double
            rcases star_cases rest with ⟨left', right', rfl, rfl, after⟩ | ⟨other, _⟩
            · rw [Token.scan, Token.scan]
              have fewer : left'.length < length := Nat.lt_trans (Nat.lt_succ_self _) shorter
              exact (ih left'.length fewer after [] (.inl rfl) rfl).wrapped_of_run
                [.operator .power]
            · exact absurd second other
          have single : (c = '*' → left.head? ≠ some '*') ∧ (c = '*' → right.head? ≠ some '*') := by
            rcases star_cases rest with ⟨left', right', rfl, rfl, _⟩ | ⟨other, other'⟩
            · constructor <;>
                · intro star
                  exact absurd ⟨star, rfl⟩ double
            · exact ⟨fun _ => other, fun _ => other'⟩
          cases sign : Token.ofChar? c with
          | some token =>
              rw [Token.scan_cons_sign sign single.1, Token.scan_cons_sign sign single.2]
              exact behind.wrapped_of_run [token]
          | none =>
              have refused (text : Text) (single : c = '*' → text.head? ≠ some '*') :
                  Token.scan run (c :: text) = .error (.malformed (.unexpectedCharacter c)) := by
                have notPower : ∀ rest, c = '*' → text = '*' :: rest → False := by
                  rintro rest star rfl
                  exact single star rfl
                rw [Token.scan.eq_3 _ _ _ notPower, if_neg numeric, if_neg blank, sign]
              rw [refused left single.1, refused right single.2]
              exact .of_error _ _
      | @block _ next _ piece piece' left right block rest =>
          obtain ⟨free, atEnd, x, finite, rfl, rfl⟩ := block
          have noRun : run = [] := empty.resolve_right (by rw [free]; exact Bool.true_eq_false.mp)
          subst noRun
          have shorter : left.length < length := by
            have positive := List.length_pos_iff.mpr (IsNumberText.inlineNumber finite).nonempty
            rw [← size, List.length_append]
            omega
          exact alike_scan_number finite (isOperandChar_head? atEnd rest).1
            (ih left.length shorter rest [] (.inl rfl) rfl)

/-- Arithmetic has the same outcome on twins, up to the kind of a fault. -/
theorem alike_evaluate (twins : Twins numberSeams left right) :
    Alike Eq (Arithmetic.evaluate left) (Arithmetic.evaluate right) := by
  obtain ⟨final, twin⟩ := twins
  have read := alike_scan twin [] (.inl rfl)
  unfold Arithmetic.evaluate Token.ofText
  generalize Token.scan [] left = outcome at read ⊢
  generalize Token.scan [] right = outcome' at read ⊢
  cases read with
  | limit limit => exact .limit limit
  | fault unlimited unlimited' => exact .fault unlimited unlimited'
  | @ok tokens tokens' wrapped =>
      have same : Program.ofTokens (Arithmetic.completeMinus true tokens) =
          Program.ofTokens (Arithmetic.completeMinus true tokens') :=
        Program.order_wrapped wrapped true [] []
      change Alike Eq (Program.ofTokens (Arithmetic.completeMinus true tokens) >>= _)
        (Program.ofTokens (Arithmetic.completeMinus true tokens') >>= _)
      rw [same]
      exact .of_forall fun _ _ => rfl

theorem faithful : numberSeams.Faithful inlineNumber groupedNumber where
  toLawful := lawful
  number := by
    intro state x left right final opens finite behind
    exact ⟨final, .block ⟨isFree_of_opens opens, rfl, x, finite, rfl, rfl⟩ behind⟩
  arithmetic := alike_evaluate

end numberSeams

end QuantityFormula
