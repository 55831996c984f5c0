import QuantityFormula.Proofs.Writing

/-!
Tokens of a written formula. A text of a tree without calls is read as the tree's own units,
whatever the blanks: a run of digits ends where its numeral does, and two asterisks side by
side are always one power.
-/

set_option autoImplicit false

namespace QuantityFormula

def Lexeme.token? : Lexeme Numeral → Option Token
  | .leaf numeral => some (.number numeral.value)
  | .operator sign => some (.operator sign)
  | .leftParen => some .leftParen
  | .rightParen => some .rightParen
  | .name _ | .comma => none

def Phrase.tokens {kind : Kind} (phrase : Phrase Numeral kind) : List Token :=
  phrase.lexemes.filterMap Lexeme.token?

namespace Token

/-! ### One character -/

theorem ofRun_numeral (numeral : Numeral) : ofRun numeral.text = .ok [number numeral.value] := by
  have nonempty : numeral.text.isEmpty = false := by
    rw [List.isEmpty_eq_false_iff]
    exact numeral.text_ne_nil
  rw [ofRun, nonempty, numeral.read?_text]
  rfl

private theorem ne_star_of_isNumberChar {c : Char} (numeric : isNumberChar c = true) : c ≠ '*' := by
  rintro rfl
  cases numeric

theorem scan_numberChars {digits : Text} (numeric : ∀ c ∈ digits, isNumberChar c = true)
    (run text : Text) :
    scan run (digits ++ text) = scan (run ++ digits) text := by
  induction digits generalizing run with
  | nil => rw [List.nil_append, List.append_nil]
  | cons c digits ih =>
      have first := numeric c List.mem_cons_self
      rw [List.cons_append, scan.eq_3 _ _ _
        (fun _ star => absurd star (ne_star_of_isNumberChar first)), if_pos first,
        ih (fun c member => numeric c (List.mem_cons_of_mem _ member)), List.append_assoc]
      rfl

theorem scan_blankChar {c : Char} (blank : Text.isBlankChar c = true) {run text : Text}
    {before tokens : List Token}
    (ended : ofRun run = .ok before) (following : scan [] text = .ok tokens) :
    scan run (c :: text) = .ok (before ++ tokens) := by
  have separate := Text.isBlankChar_separates blank
  have notStar : c ≠ '*' := by
    rintro rfl
    cases blank
  rw [scan.eq_3 _ _ _ (fun _ star => absurd star notStar), separate.2.2.2.1,
    if_neg Bool.false_ne_true, if_pos blank, ended, following]
  rfl

theorem ofRun_nil : ofRun [] = .ok [] := rfl

theorem scan_gap {gap run text : Text} {before tokens : List Token}
    (blank : Text.isBlank gap = true)
    (ended : ofRun run = .ok before) (direct : scan run text = .ok (before ++ tokens))
    (apart : scan [] text = .ok tokens) : scan run (gap ++ text) = .ok (before ++ tokens) := by
  induction gap generalizing run before with
  | nil => exact direct
  | cons c gap ih =>
      rw [Text.isBlank, List.all_cons, Bool.and_eq_true] at blank
      have rest : scan [] (gap ++ text) = .ok tokens := ih blank.2 ofRun_nil apart
      exact scan_blankChar blank.1 ended rest

theorem mem_of_ofChar? {c : Char} {token : Token} (sign : ofChar? c = some token) :
    c ∈ ['(', ')', '+', '-', '*', '/', '%', '^'] := by
  unfold ofChar? Operator.ofSymbol? at sign
  split at sign
  · decide
  · decide
  · split at sign <;> first | decide | cases sign

theorem scan_cons_sign {c : Char} {token : Token} (sign : ofChar? c = some token) {text : Text}
    (single : c = '*' → text.head? ≠ some '*') (run : Text) :
    scan run (c :: text) = (do
      let number ← ofRun run
      let tokens ← scan [] text
      return number ++ token :: tokens) := by
  have listed := mem_of_ofChar? sign
  have notNumeric : isNumberChar c = false := Text.forall_eq_false_of_any rfl c listed
  have notBlank : Text.isBlankChar c = false := Text.forall_eq_false_of_any rfl c listed
  have notPower : ∀ rest, c = '*' → text = '*' :: rest → False := by
    rintro rest star rfl
    exact single star rfl
  rw [scan.eq_3 _ _ _ notPower, notNumeric, notBlank, if_neg Bool.false_ne_true,
    if_neg Bool.false_ne_true, sign]

theorem scan_sign {c : Char} {token : Token} (sign : ofChar? c = some token) {run text : Text}
    {before tokens : List Token} (single : c = '*' → text.head? ≠ some '*')
    (ended : ofRun run = .ok before) (following : scan [] text = .ok tokens) :
    scan run (c :: text) = .ok (before ++ token :: tokens) := by
  rw [scan_cons_sign sign single, ended, following]
  rfl

theorem scan_doubleStar {run text : Text} {before tokens : List Token}
    (ended : ofRun run = .ok before) (following : scan [] text = .ok tokens) :
    scan run ('*' :: '*' :: text) = .ok (before ++ .operator .power :: tokens) := by
  rw [scan, ended, following]
  rfl

theorem ofChar?_symbol (sign : Operator) : ofChar? sign.symbol = some (.operator sign) := by
  cases sign <;> rfl

/-- A number that is complete is read apart from what stands behind it. -/
theorem scan_of_ofRun {run text : Text} {number : List Token} (ended : ofRun run = .ok number)
    (stops : ∀ c ∈ text.head?, isNumberChar c = false) :
    scan run text = (number ++ ·) <$> scan [] text := by
  cases text with
  | nil =>
      rw [scan, scan, ended, ofRun_nil]
      exact congrArg Except.ok (List.append_nil number).symm
  | cons c text =>
      by_cases double : ∃ rest, c = '*' ∧ text = '*' :: rest
      · obtain ⟨rest, rfl, rfl⟩ := double
        rw [scan, scan, ended, ofRun_nil]
        cases scan [] rest <;> rfl
      · have notPower : ∀ rest, c = '*' → text = '*' :: rest → False :=
          fun rest star same => double ⟨rest, star, same⟩
        rw [scan.eq_3 _ _ _ notPower, scan.eq_3 _ _ _ notPower, stops c rfl,
          if_neg Bool.false_ne_true, if_neg Bool.false_ne_true, ended, ofRun_nil]
        split
        · cases scan [] text <;> rfl
        split
        · cases scan [] text <;> rfl
        · rfl

theorem scan_numeral (numeral : Numeral) {text : Text}
    (stops : ∀ c ∈ text.head?, isNumberChar c = false) :
    scan [] (numeral.text ++ text) = (number numeral.value :: ·) <$> scan [] text := by
  rw [scan_numberChars numeral.isNumeral.1, List.nil_append,
    scan_of_ofRun (ofRun_numeral numeral) stops]
  rfl

/-! ### One unit after another -/

private theorem head_ne_star {lexemes : List (Lexeme Numeral)} {text : Text}
    (written : Written Numeral.text lexemes text) {last : Place}
    (arranged : Place.operand.walk lexemes = some last) :
    text.head? ≠ some '*' := by
  cases written with
  | nil blank =>
      cases text with
      | nil => exact nofun
      | cons c text =>
          rintro ⟨⟩
          cases blank
  | @cons gap spelling rest lexeme lexemes blank spelled following =>
      cases gap with
      | cons c gap =>
          rintro ⟨⟩
          cases blank
      | nil =>
          cases lexeme with
          | leaf numeral =>
              cases spelled
              have chars := numeral.isNumeral.1
              cases shape : numeral.text with
              | nil => exact absurd shape numeral.text_ne_nil
              | cons c digits =>
                  rintro ⟨⟩
                  rw [shape] at chars
                  cases chars '*' List.mem_cons_self
          | name function =>
              cases spelled
              intro star
              have start := function.start
              rw [Option.some.inj star] at start
              cases start
          | leftParen =>
              cases spelled
              exact nofun
          | operator sign => cases arranged
          | rightParen | comma => cases arranged

private theorem scan_written {lexemes : List (Lexeme Numeral)} {text : Text}
    (written : Written Numeral.text lexemes text) {place last : Place}
    (arranged : place.walk lexemes = some last)
    (arithmetic : ∀ lexeme ∈ lexemes, lexeme.token?.isSome = true) {run : Text}
    {before : List Token} (ended : ofRun run = .ok before) (idle : place ≠ .behind → run = []) :
    scan run text = .ok (before ++ lexemes.filterMap Lexeme.token?) := by
  -- A run of digits is open only behind an operand, where no number may follow.
  induction written generalizing place run before with
  | nil blank =>
      rename_i gap
      rw [← List.append_nil gap]
      exact scan_gap blank ended
        (by rw [scan, ended, List.filterMap_nil, List.append_nil]) ofRun_nil
  | @cons gap spelling rest lexeme lexemes blank spelled following ih =>
      obtain ⟨next, step, arrangedRest⟩ := Place.exists_next_of_walk arranged
      have arithmeticRest : ∀ lexeme ∈ lexemes, lexeme.token?.isSome = true :=
        fun lexeme member => arithmetic lexeme (List.mem_cons_of_mem _ member)
      have spelledScan {run : Text} {before : List Token} (ended : ofRun run = .ok before)
          (idle : place ≠ .behind → run = []) :
          scan run (spelling ++ rest) =
            .ok (before ++ (lexeme :: lexemes).filterMap Lexeme.token?) := by
        cases lexeme with
        | leaf numeral =>
            have notBehind : place ≠ .behind := by
              rintro rfl
              cases step
            rw [idle notBehind] at ended ⊢
            cases ended
            cases spelled
            rw [scan_numberChars numeral.isNumeral.1, List.nil_append]
            refine ih arrangedRest arithmeticRest (ofRun_numeral numeral) ?_
            intro elsewhere
            cases place <;> cases step <;> exact absurd rfl elsewhere
        | operator sign =>
            have operand : next = .operand := by
              cases place <;> cases sign <;> cases step <;> rfl
            subst operand
            have tail : scan [] rest = .ok (lexemes.filterMap Lexeme.token?) :=
              ih arrangedRest arithmeticRest ofRun_nil (fun _ => rfl)
            rcases spelled with rfl | ⟨rfl, rfl⟩
            · exact scan_sign (ofChar?_symbol sign)
                (fun _ => head_ne_star following arrangedRest) ended tail
            · exact scan_doubleStar ended tail
        | leftParen | rightParen =>
            have tail : scan [] rest = .ok (lexemes.filterMap Lexeme.token?) :=
              ih arrangedRest arithmeticRest ofRun_nil (fun _ => rfl)
            cases spelled
            exact scan_sign rfl nofun ended tail
        | name function | comma => cases arithmetic _ List.mem_cons_self
      exact scan_gap blank ended (spelledScan ended idle) (spelledScan ofRun_nil (fun _ => rfl))

/-- A text of a tree without names and commas has the tokens of the tree. -/
theorem ofText_written {kind : Kind} {phrase : Phrase Numeral kind} {text : Text}
    (written : Written Numeral.text phrase.lexemes text)
    (arithmetic : ∀ lexeme ∈ phrase.lexemes, lexeme.token?.isSome = true) :
    ofText text = .ok phrase.tokens := by
  have arranged := phrase.walk_lexemes .opening trivial
  exact scan_written written arranged arithmetic ofRun_nil (fun _ => rfl)

end Token

theorem Phrase.isSome_token? {kind : Kind} {phrase : Phrase Numeral kind}
    (callFree : phrase.callCount = 0) :
    ∀ lexeme ∈ phrase.lexemes, lexeme.token?.isSome = true := by
  induction phrase with
  | leaf numeral => simp [lexemes, Lexeme.token?]
  | group inner ih =>
      rw [callCount] at callFree
      simpa [lexemes, Lexeme.token?, or_imp, forall_and] using ih callFree
  | call name arguments ih =>
      rw [callCount] at callFree
      omega
  | base atom ih | factor power ih | term product ih =>
      rw [callCount] at callFree
      rw [lexemes]
      exact ih callFree
  | minus product ih =>
      rw [callCount] at callFree
      simpa [lexemes, Lexeme.token?] using ih callFree
  | raise left right ihLeft ihRight | scale _ _ left right ihLeft ihRight
  | add _ _ left right ihLeft ihRight =>
      rw [callCount, Nat.add_eq_zero_iff] at callFree
      rw [lexemes, List.forall_mem_append, List.forall_mem_cons]
      exact ⟨ihLeft callFree.1, rfl, ihRight callFree.2⟩

end QuantityFormula
