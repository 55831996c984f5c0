import QuantityFormula.Proofs.Balance
import QuantityFormula.Proofs.Context
import QuantityFormula.Proofs.Writing

/-!
Argument lists of a written call. The commas of an argument stand inside of its own groups, so the
list is split between its arguments and nowhere else.
-/

set_option autoImplicit false

namespace QuantityFormula

namespace Text

/-! ### Items -/

/-- A text whose parentheses balance and whose commas all stand in parentheses. -/
inductive IsItem : Text → Prop where
  | nil : IsItem []
  | char {c : Char} {text : Text} (plain : c ∉ ['(', ')', ','])
    (following : IsItem text) : IsItem (c :: text)
  | group {inner text : Text} (neutral : IsNeutral inner) (following : IsItem text) :
      IsItem ('(' :: (inner ++ ')' :: text))

theorem IsItem.append {left right : Text} (leftItem : IsItem left) (rightItem : IsItem right) :
    IsItem (left ++ right) := by
  induction leftItem with
  | nil => exact rightItem
  | char plain following ih => exact .char plain ih
  | group neutral following ih =>
      rw [List.cons_append, List.append_assoc]
      exact .group neutral ih

private theorem isItem_of_forall {text : Text}
    (plain : ∀ c ∈ text, c ∉ ['(', ')', ',']) : IsItem text := by
  induction text with
  | nil => exact .nil
  | cons c text ih =>
      exact .char (plain c List.mem_cons_self)
        (ih fun other member => plain other (List.mem_cons_of_mem _ member))

theorem isItem_of_class (belongs : Char → Bool) (outside : ['(', ')', ','].any belongs = false)
    {text : Text} (members : ∀ c ∈ text, belongs c = true) : IsItem text := by
  apply isItem_of_forall
  intro c member listed
  exact List.any_eq_false.mp outside c listed (members c member)

theorem IsItem.isNeutral {text : Text} (item : IsItem text) : IsNeutral text := by
  induction item with
  | nil => exact isNeutral_nil
  | @char c text plain following ih =>
      have single : IsNeutral [c] := by
        apply isNeutral_singleton
        · rintro rfl
          exact plain (by decide)
        · rintro rfl
          exact plain (by decide)
      exact single.append ih
  | @group inner text neutral following ih =>
      have whole := neutral.group.append ih
      rwa [List.cons_append, List.append_assoc] at whole

theorem add_parenWeight {depth : Nat} {c : Char} (opened : ¬(depth = 0 ∧ c = ')')) :
    (depth : Int) + parenWeight c =
      ((if c = '(' then depth + 1 else if c = ')' then depth - 1 else depth : Nat) : Int) := by
  unfold parenWeight
  by_cases opening : c = '('
  · rw [if_pos opening, if_pos opening]
    omega
  by_cases closing : c = ')'
  · have positive : depth ≠ 0 := fun outermost => opened ⟨outermost, closing⟩
    rw [if_neg opening, if_neg opening, if_pos closing, if_pos closing]
    omega
  · rw [if_neg opening, if_neg opening, if_neg closing, if_neg closing, Int.add_zero]

private theorem splitCommasFrom_closed {inner : Text} {opened : Nat}
    (closed : isBalancedFrom opened inner = true) (outer : Nat) (rest : Text) :
    splitCommasFrom (outer + 1 + opened) (inner ++ rest) =
      inner.foldr consFirst (splitCommasFrom (outer + 1) rest) := by
  -- The group around the text stays open, so the depth at a comma is never zero.
  induction inner generalizing opened with
  | nil =>
      have outermost : opened = 0 := by simpa [isBalancedFrom] using closed
      rw [outermost, List.nil_append, Nat.cast_zero, Int.add_zero]
      rfl
  | cons c inner ih =>
      by_cases unopened : opened = 0 ∧ c = ')'
      · obtain ⟨rfl, rfl⟩ := unopened
        cases closed
      rw [isBalancedFrom_cons _ _ _ unopened] at closed
      have inside : ¬(c = ',' ∧ (outer + 1 + opened : Int) = 0) := by
        rintro ⟨_, outside⟩
        omega
      rw [List.cons_append, splitCommasFrom, if_neg inside, Int.add_assoc,
        add_parenWeight unopened, ih closed]
      rfl

private theorem splitCommasFrom_item {item : Text} (isItem : IsItem item) (rest : Text) :
    splitCommasFrom 0 (item ++ rest) = item.foldr consFirst (splitCommasFrom 0 rest) := by
  induction isItem with
  | nil => rfl
  | @char c text plain following ih =>
      simp only [List.mem_cons, List.not_mem_nil, or_false, not_or] at plain
      rw [List.cons_append, splitCommasFrom, if_neg fun comma => plain.2.2 comma.1,
        parenWeight, if_neg plain.1, if_neg plain.2.1, Int.add_zero, ih]
      rfl
  | @group inner text neutral following ih =>
      have inside : splitCommasFrom 1 (inner ++ ')' :: (text ++ rest)) =
          inner.foldr consFirst (splitCommasFrom 1 (')' :: (text ++ rest))) :=
        splitCommasFrom_closed (isNeutral_iff.mp neutral) 0 (')' :: (text ++ rest))
      have closing : splitCommasFrom 1 (')' :: (text ++ rest)) =
          consFirst ')' (splitCommasFrom 0 (text ++ rest)) := by
        rw [splitCommasFrom, if_neg (by decide)]
        rfl
      rw [List.cons_append, List.append_assoc, List.cons_append,
        splitCommasFrom, if_neg (by decide)]
      change consFirst '(' (splitCommasFrom 1 (inner ++ ')' :: (text ++ rest))) = _
      rw [inside, closing, ih, List.foldr_cons, List.foldr_append, List.foldr_cons]

theorem splitCommasFrom_item_within {item : Text} (isItem : IsItem item)
    (depth : Nat) (rest : Text) :
    splitCommasFrom depth (item ++ rest) = item.foldr consFirst (splitCommasFrom depth rest) := by
  cases depth with
  | zero => exact splitCommasFrom_item isItem rest
  | succ outer => exact splitCommasFrom_closed (isNeutral_iff.mp isItem.isNeutral) outer rest

theorem foldr_consFirst (text first : Text) (texts : List Text) :
    text.foldr consFirst (first :: texts) = (text ++ first) :: texts := by
  induction text with
  | nil => rfl
  | cons c text ih =>
      rw [List.foldr_cons, ih]
      rfl

theorem splitCommas_intercalate {items : List Text} (nonempty : items ≠ [])
    (each : ∀ item ∈ items, IsItem item) :
    splitCommas ([','].intercalate items) = items := by
  induction items with
  | nil => exact absurd rfl nonempty
  | cons item items ih =>
      have first := each item List.mem_cons_self
      cases items with
      | nil =>
          have alone := splitCommasFrom_item first []
          rw [List.append_nil, splitCommasFrom, foldr_consFirst, List.append_nil] at alone
          simpa [splitCommas, List.intercalate] using alone
      | cons second items =>
          have rest := ih (List.cons_ne_nil _ _) fun other member =>
            each other (List.mem_cons_of_mem _ member)
          rw [List.intercalate_cons_cons, splitCommas, List.append_assoc,
            splitCommasFrom_item first, List.singleton_append, splitCommasFrom, if_pos ⟨rfl, rfl⟩]
          change item.foldr consFirst ([] :: splitCommas ([','].intercalate (second :: items))) = _
          rw [rest, foldr_consFirst, List.append_nil]

theorem isNeutral_intercalate {items : List Text} (each : ∀ item ∈ items, IsNeutral item) :
    IsNeutral ([','].intercalate items) := by
  have comma : IsNeutral [','] := isNeutral_singleton (by decide) (by decide)
  induction items with
  | nil => exact isNeutral_nil
  | cons item items ih =>
      have first := each item List.mem_cons_self
      cases items with
      | nil => simpa [List.intercalate] using first
      | cons second items =>
          have rest := ih fun other member => each other (List.mem_cons_of_mem _ member)
          rw [List.intercalate_cons_cons, List.append_assoc]
          exact first.append (comma.append rest)

end Text

/-! ### Texts of a tree as items -/

theorem exists_of_forall₂_right {α β : Type} {related : α → β → Prop}
    {left : List α} {right : List β}
    (pairwise : List.Forall₂ related left right) {b : β} (member : b ∈ right) :
    ∃ a ∈ left, related a b := by
  induction pairwise with
  | nil => cases member
  | cons first rest ih =>
      rcases List.mem_cons.mp member with rfl | later
      · exact ⟨_, List.mem_cons_self, first⟩
      · obtain ⟨a, inside, holds⟩ := ih later
        exact ⟨a, List.mem_cons_of_mem _ inside, holds⟩

variable {Leaf : Type} {leafText : Leaf → Text}

namespace Written

private theorem split_at {lexeme : Lexeme Leaf} {c : Char}
    (sign : ∀ {spelling}, lexeme.IsSpelled leafText spelling → spelling = [c])
    {left right : List (Lexeme Leaf)}
    {text : Text} (written : Written leafText (left ++ lexeme :: right) text) :
    ∃ before after, text = before ++ c :: after ∧ Written leafText left before ∧
      Written leafText right after := by
  obtain ⟨before, behind, rfl, leftWritten, rightWritten⟩ := written.split
  cases rightWritten with
  | @cons gap spelling rest _ _ blank spelled following =>
      cases sign spelled
      refine ⟨before ++ gap, rest, by simp, ?_, following⟩
      have padded := leftWritten.append (.nil blank)
      rwa [List.append_nil] at padded

private theorem split_comma {left right : List (Lexeme Leaf)} {text : Text}
    (written : Written leafText (left ++ .comma :: right) text) :
    ∃ before after, text = before ++ ',' :: after ∧ Written leafText left before ∧
      Written leafText right after :=
  written.split_at id

private theorem split_leftParen {left right : List (Lexeme Leaf)} {text : Text}
    (written : Written leafText (left ++ .leftParen :: right) text) :
    ∃ before after, text = before ++ '(' :: after ∧ Written leafText left before ∧
      Written leafText right after :=
  written.split_at id

theorem split_rightParen {left right : List (Lexeme Leaf)} {text : Text}
    (written : Written leafText (left ++ .rightParen :: right) text) :
    ∃ before after, text = before ++ ')' :: after ∧ Written leafText left before ∧
      Written leafText right after :=
  written.split_at id

private theorem exists_pieces {arguments : List (Phrase Leaf .sum)}
    (nonempty : arguments ≠ []) {text : Text}
    (written : Written leafText (argumentLexemes arguments) text) :
    ∃ pieces, text = [','].intercalate pieces ∧
      List.Forall₂ (fun argument piece => Written leafText argument.lexemes piece)
        arguments pieces := by
  induction arguments generalizing text with
  | nil => exact absurd rfl nonempty
  | cons argument arguments ih =>
      cases arguments with
      | nil =>
          rw [argumentLexemes_cons, List.flatMap_nil, List.append_nil] at written
          exact ⟨[text], by simp [List.intercalate], .cons written .nil⟩
      | cons second arguments =>
          rw [argumentLexemes_cons, List.flatMap_cons, List.cons_append,
            ← argumentLexemes_cons] at written
          obtain ⟨before, after, rfl, first, rest⟩ := written.split_comma
          obtain ⟨pieces, rfl, each⟩ := ih (List.cons_ne_nil _ _) rest
          refine ⟨before :: pieces, ?_, .cons first each⟩
          cases each with
          | cons _ _ => rw [List.intercalate_cons_cons, List.append_assoc]; rfl

end Written

open Text in
theorem isItem_blank {gap : Text} (blank : isBlank gap = true) : IsItem gap :=
  isItem_of_class isBlankChar rfl (List.all_eq_true.mp blank)

def Lexeme.isPunctuation : Lexeme Leaf → Bool
  | .leftParen | .rightParen | .comma => true
  | .leaf _ | .operator _ | .name _ => false

open Text in
theorem Lexeme.IsSpelled.isItem {lexeme : Lexeme Numeral} {spelling : Text}
    (spelled : lexeme.IsSpelled Numeral.text spelling)
    (plain : lexeme.isPunctuation = false) : IsItem spelling := by
  cases lexeme with
  | leaf numeral =>
      cases spelled
      exact isItem_of_class Token.isNumberChar rfl numeral.isNumeral.1
  | operator sign =>
      rcases spelled with rfl | ⟨_, rfl⟩
      · cases sign <;> exact isItem_of_forall (by simp [Operator.symbol])
      · exact isItem_of_forall (by simp)
  | name function =>
      cases spelled
      have first : IsItem [function.first] :=
        isItem_of_class Head.isNameStart rfl (by simp [function.start])
      exact first.append (isItem_of_class Head.isNameChar rfl function.following)
  | leftParen | rightParen | comma => cases plain

def AreItems (lexemes : List (Lexeme Numeral)) : Prop :=
  ∀ text, Written Numeral.text lexemes text → Text.IsItem text

namespace AreItems

theorem nil : AreItems [] := by
  intro text written
  cases written with
  | nil blank => exact isItem_blank blank

theorem cons {lexeme : Lexeme Numeral} {lexemes : List (Lexeme Numeral)}
    (plain : lexeme.isPunctuation = false) (items : AreItems lexemes) :
    AreItems (lexeme :: lexemes) := by
  intro text written
  cases written with
  | cons blank spelled following =>
      exact (isItem_blank blank).append ((spelled.isItem plain).append (items _ following))

theorem append {left right : List (Lexeme Numeral)} (leftItems : AreItems left)
    (rightItems : AreItems right) :
    AreItems (left ++ right) := by
  intro text written
  obtain ⟨before, after, rfl, leftWritten, rightWritten⟩ := written.split
  exact (leftItems before leftWritten).append (rightItems after rightWritten)

theorem group {inner rest : List (Lexeme Numeral)}
    (neutral : ∀ text, Written Numeral.text inner text → Text.IsNeutral text)
    (items : AreItems rest) :
    AreItems (.leftParen :: (inner ++ .rightParen :: rest)) := by
  intro text written
  have opening : Written Numeral.text ([] ++ .leftParen :: (inner ++ .rightParen :: rest)) text :=
    written
  obtain ⟨gap, opened, rfl, gapWritten, openedWritten⟩ := opening.split_leftParen
  obtain ⟨inside, after, rfl, insideWritten, afterWritten⟩ := openedWritten.split_rightParen
  exact (nil gap gapWritten).append
    (.group (neutral inside insideWritten) (items after afterWritten))

end AreItems

theorem isNeutral_arguments {arguments : List Formula}
    (each : ∀ argument ∈ arguments, AreItems argument.lexemes)
    {text : Text} (written : Written Numeral.text (argumentLexemes arguments) text) :
    Text.IsNeutral text := by
  cases arguments with
  | nil => exact (AreItems.nil text written).isNeutral
  | cons argument arguments =>
      obtain ⟨pieces, rfl, pieceWise⟩ := written.exists_pieces (List.cons_ne_nil _ _)
      apply Text.isNeutral_intercalate
      intro piece member
      obtain ⟨other, otherMember, pieceWritten⟩ := exists_of_forall₂_right pieceWise member
      exact (each other otherMember piece pieceWritten).isNeutral

theorem Phrase.areItems_lexemes {kind : Kind} (phrase : Phrase Numeral kind) :
    AreItems phrase.lexemes := by
  induction phrase with
  | leaf numeral =>
      rw [lexemes]
      exact .cons rfl .nil
  | group inner ih =>
      rw [lexemes]
      exact .group (fun text written => (ih text written).isNeutral) .nil
  | call name arguments ih =>
      rw [lexemes]
      exact .cons rfl (.group (fun text written => isNeutral_arguments ih written) .nil)
  | base atom ih | factor power ih | term product ih =>
      rw [lexemes]
      exact ih
  | minus product ih =>
      rw [lexemes]
      exact .cons rfl ih
  | raise left right ihLeft ihRight | scale _ _ left right ihLeft ihRight
  | add _ _ left right ihLeft ihRight =>
      rw [lexemes]
      exact ihLeft.append (.cons rfl ihRight)

/-! ### Splitting an argument list -/

private theorem Phrase.lexemes_ne_nil {kind : Kind} (phrase : Phrase Leaf kind) :
    phrase.lexemes ≠ [] := by
  intro empty
  have walked := phrase.walk_lexemes .opening trivial
  rw [empty] at walked
  cases walked

theorem Written.isBlank_eq_false {lexemes : List (Lexeme Numeral)}
    (nonempty : lexemes ≠ []) {text : Text}
    (written : Written Numeral.text lexemes text) : Text.isBlank text = false := by
  cases written with
  | nil blank => exact absurd rfl nonempty
  | cons blank spelled following =>
      obtain ⟨someText, solid⟩ := spelled.isSolid Numeral.text_isSolid
      obtain ⟨c, others, rfl⟩ := List.exists_cons_of_ne_nil someText
      simp [Text.isBlank, solid c List.mem_cons_self]

theorem Call.splitArguments_written {arguments : List Formula} {text : Text}
    (written : Written Numeral.text (argumentLexemes arguments) text) :
    ∃ pieces, splitArguments text = .ok pieces ∧
      List.Forall₂ (fun (argument : Formula) piece => argument.IsWritten piece)
        arguments pieces := by
  cases arguments with
  | nil =>
      cases written with
      | nil blank => exact ⟨[], by rw [splitArguments, if_pos blank], .nil⟩
  | cons argument arguments =>
      have someText : Text.isBlank text = false := by
        apply written.isBlank_eq_false
        rw [argumentLexemes_cons]
        exact List.append_ne_nil_of_left_ne_nil argument.lexemes_ne_nil _
      obtain ⟨pieces, rfl, pieceWise⟩ := written.exists_pieces (List.cons_ne_nil _ _)
      have some : pieces ≠ [] := by
        cases pieceWise with
        | cons _ _ => exact List.cons_ne_nil _ _
      have split : Text.splitCommas ([','].intercalate pieces) = pieces := by
        apply Text.splitCommas_intercalate some
        intro piece member
        obtain ⟨other, _, pieceWritten⟩ := exists_of_forall₂_right pieceWise member
        exact other.areItems_lexemes piece pieceWritten
      have trimmed : List.Forall₂ (fun (argument : Formula) piece => argument.IsWritten piece)
          (argument :: arguments) (pieces.map Text.trim) := by
        rw [List.forall₂_map_right_iff]
        exact pieceWise.imp fun _ _ pieceWritten => pieceWritten.trim Numeral.text_isSolid
      have solid : (pieces.map Text.trim).any List.isEmpty = false := by
        rw [List.any_eq_false]
        intro piece member
        obtain ⟨other, _, pieceWritten⟩ := exists_of_forall₂_right trimmed member
        have filled := pieceWritten.isBlank_eq_false other.lexemes_ne_nil
        cases piece with
        | nil => cases filled
        | cons c piece => exact Bool.false_ne_true
      refine ⟨pieces.map Text.trim, ?_, trimmed⟩
      rw [splitArguments, someText, if_neg Bool.false_ne_true, split]
      dsimp only
      rw [solid, if_neg Bool.false_ne_true]

end QuantityFormula
