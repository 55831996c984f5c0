import QuantityFormula.Call
import QuantityFormula.Proofs.Arguments
import QuantityFormula.Proofs.ReplacementBalance

/-!
Items of an argument list. Whether a text is an item is read off from left to right, so an item in a
text can be put in for another one. Between its outer commas a text that balances consists of items,
and items joined by commas are the arguments of a call, without the blanks around them.
-/

set_option autoImplicit false

namespace QuantityFormula

namespace Text

/-! ### Reading an item -/

def isItemFrom : (depth : Nat) → Text → Bool
  | depth, [] => depth == 0
  | depth, '(' :: text => isItemFrom (depth + 1) text
  | 0, ')' :: _ => false
  | depth + 1, ')' :: text => isItemFrom depth text
  | 0, ',' :: _ => false
  | depth, _ :: text => isItemFrom depth text

private theorem isItemFrom_cons {depth : Nat} {c : Char}
    (passes : ¬(depth = 0 ∧ (c = ')' ∨ c = ','))) (text : Text) :
    isItemFrom depth (c :: text) =
      isItemFrom (if c = '(' then depth + 1 else if c = ')' then depth - 1 else depth) text := by
  by_cases opening : c = '('
  · subst opening
    cases depth <;> rfl
  by_cases closing : c = ')'
  · subst closing
    cases depth with
    | zero => exact absurd ⟨rfl, .inl rfl⟩ passes
    | succ depth => rfl
  rw [if_neg opening, if_neg closing]
  by_cases comma : c = ','
  · subst comma
    cases depth with
    | zero => exact absurd ⟨rfl, .inr rfl⟩ passes
    | succ depth => rfl
  · rw [isItemFrom]
    · exact opening
    · exact fun _ => closing
    · exact fun _ _ => closing
    · exact fun _ => comma

private theorem isItemFrom_stopped {c : Char} (stops : c = ')' ∨ c = ',') (text : Text) :
    isItemFrom 0 (c :: text) = false := by
  rcases stops with rfl | rfl <;> rfl

private theorem isItemFrom_closed {piece : Text} {inside : Nat}
    (closed : isBalancedFrom inside piece = true) (depth : Nat)
    (rest : Text) :
    isItemFrom (depth + 1 + inside) (piece ++ rest) = isItemFrom (depth + 1) rest := by
  -- The group around the piece stays open, so a comma in it is never an outer one.
  induction piece generalizing inside with
  | nil =>
      have outermost : inside = 0 := by simpa [isBalancedFrom] using closed
      rw [outermost, List.nil_append, Nat.add_zero]
  | cons c piece ih =>
      by_cases unopened : inside = 0 ∧ c = ')'
      · obtain ⟨rfl, rfl⟩ := unopened
        cases closed
      rw [isBalancedFrom_cons _ _ _ unopened] at closed
      rw [List.cons_append, isItemFrom_cons (by omega), ← ih closed]
      congr 1
      by_cases opening : c = '('
      · rw [if_pos opening, if_pos opening]
        omega
      by_cases closing : c = ')'
      · have positive : inside ≠ 0 := fun outermost => unopened ⟨outermost, closing⟩
        rw [if_neg opening, if_neg opening, if_pos closing, if_pos closing]
        omega
      · rw [if_neg opening, if_neg opening, if_neg closing, if_neg closing]

private theorem isItemFrom_item {item : Text} (isItem : IsItem item) (depth : Nat) (rest : Text) :
    isItemFrom depth (item ++ rest) = isItemFrom depth rest := by
  induction isItem with
  | nil => rfl
  | @char c text plain following ih =>
      simp only [List.mem_cons, List.not_mem_nil, or_false, not_or] at plain
      rw [List.cons_append, isItemFrom_cons (by simp [plain]), if_neg plain.1, if_neg plain.2.1, ih]
  | @group inner text neutral following ih =>
      rw [List.cons_append, List.append_assoc, List.cons_append, isItemFrom]
      have inside := isItemFrom_closed (isNeutral_iff.mp neutral) depth (')' :: (text ++ rest))
      rw [Nat.add_zero] at inside
      rw [inside, isItemFrom, ih]

theorem exists_splitClosing? {text : Text} {outer depth : Nat}
    (balanced : isBalancedFrom (outer + 1 + depth) text = true) :
    ∃ inside after, splitClosing? depth text = some (inside, after) := by
  induction text generalizing depth with
  | nil =>
      simp [isBalancedFrom] at balanced
  | cons c text ih =>
      by_cases ends : depth = 0 ∧ c = ')'
      · obtain ⟨rfl, rfl⟩ := ends
        exact ⟨[], text, rfl⟩
      · rw [isBalancedFrom_cons _ _ _ (by omega)] at balanced
        rw [splitClosing?]
        · have same : (if c = '(' then outer + 1 + depth + 1 else if c = ')' then
              outer + 1 + depth - 1
              else outer + 1 + depth) =
              outer + 1 + (if c = '(' then depth + 1 else if c = ')' then
                depth - 1 else depth) := by
            by_cases opening : c = '('
            · rw [if_pos opening, if_pos opening]
              rfl
            by_cases closing : c = ')'
            · have positive : depth ≠ 0 := fun outermost => ends ⟨outermost, closing⟩
              rw [if_neg opening, if_neg opening, if_pos closing, if_pos closing]
              omega
            · rw [if_neg opening, if_neg opening, if_neg closing, if_neg closing]
          rw [same] at balanced
          obtain ⟨inside, after, found⟩ := ih balanced
          exact ⟨c :: inside, after, by dsimp only; rw [found]; rfl⟩
        · rintro rfl rfl
          exact ends ⟨rfl, rfl⟩

private theorem isBalancedFrom_of_isItemFrom {depth : Nat} {text : Text}
    (reads : isItemFrom depth text = true) :
    isBalancedFrom depth text = true := by
  induction text generalizing depth with
  | nil => exact reads
  | cons c text ih =>
      by_cases stops : depth = 0 ∧ (c = ')' ∨ c = ',')
      · obtain ⟨rfl, stops⟩ := stops
        rw [isItemFrom_stopped stops] at reads
        cases reads
      · rw [isItemFrom_cons stops] at reads
        rw [isBalancedFrom_cons _ _ _ (fun unopened => stops ⟨unopened.1, .inl unopened.2⟩)]
        exact ih reads

private theorem isItem_iff {text : Text} : IsItem text ↔ isItemFrom 0 text = true := by
  constructor
  · intro item
    have alone := isItemFrom_item item 0 []
    rwa [List.append_nil] at alone
  · intro reads
    -- By the length: behind a group that is opened the rest of the text is an item again.
    induction size : text.length using Nat.strongRecOn generalizing text with
    | ind length ih =>
        cases text with
        | nil => exact .nil
        | cons c text =>
            by_cases opening : c = '('
            · subst opening
              rw [isItemFrom] at reads
              have balanced : isBalancedFrom (0 + 1 + 0) text = true :=
                isBalancedFrom_of_isItemFrom reads
              obtain ⟨inner, rest, split⟩ := exists_splitClosing? balanced
              obtain ⟨rfl, neutral⟩ := splitClosing?_eq_some_iff.mp split
              refine .group (isNeutral_iff.mpr neutral) (ih rest.length ?_ ?_ rfl)
              · simp at size
                omega
              · rw [isItemFrom_closed neutral 0] at reads
                exact reads
            · have plain : c ≠ ')' ∧ c ≠ ',' := by
                constructor
                · rintro rfl
                  cases reads
                · rintro rfl
                  cases reads
              rw [isItemFrom_cons (by simp [plain]), if_neg opening, if_neg plain.1] at reads
              refine .char (by simp [opening, plain]) (ih text.length ?_ reads rfl)
              simp at size
              omega

instance (text : Text) : Decidable (IsItem text) :=
  decidable_of_iff (isItemFrom 0 text = true) isItem_iff.symm

private theorem isItemFrom_append_congr {left right : Text}
    (same : ∀ depth, isItemFrom depth left = isItemFrom depth right)
    (before : Text) (depth : Nat) :
    isItemFrom depth (before ++ left) = isItemFrom depth (before ++ right) := by
  induction before generalizing depth with
  | nil => exact same depth
  | cons c before ih =>
      by_cases stops : depth = 0 ∧ (c = ')' ∨ c = ',')
      · obtain ⟨rfl, stops⟩ := stops
        rw [List.cons_append, List.cons_append, isItemFrom_stopped stops, isItemFrom_stopped stops]
      · rw [List.cons_append, List.cons_append, isItemFrom_cons stops, isItemFrom_cons stops]
        exact ih _

theorem IsItem.replace {before piece after : Text} (whole : IsItem (before ++ (piece ++ after)))
    (pieceItem : IsItem piece) {other : Text} (otherItem : IsItem other) :
    IsItem (before ++ (other ++ after)) := by
  rw [isItem_iff] at whole ⊢
  rw [← whole]
  apply isItemFrom_append_congr
  intro depth
  rw [isItemFrom_item otherItem, isItemFrom_item pieceItem]

/-! ### Between the commas -/

/-- A text that balances is split at its outer commas into items; before the first of
them groups may be open. -/
private theorem splitCommasFrom_balanced {depth : Nat} {text : Text}
    (balanced : isBalancedFrom depth text = true) :
    ∃ first others, splitCommasFrom depth text = first :: others ∧ isItemFrom depth first = true ∧
      ∀ other ∈ others, IsItem other := by
  induction text generalizing depth with
  | nil => exact ⟨[], [], rfl, balanced, nofun⟩
  | cons c text ih =>
      by_cases unopened : depth = 0 ∧ c = ')'
      · obtain ⟨rfl, rfl⟩ := unopened
        cases balanced
      rw [isBalancedFrom_cons _ _ _ unopened] at balanced
      obtain ⟨first, others, split, firstReads, othersItems⟩ := ih balanced
      by_cases outer : depth = 0 ∧ c = ','
      · obtain ⟨rfl, rfl⟩ := outer
        refine ⟨[], first :: others, ?_, rfl, ?_⟩
        · rw [splitCommasFrom, if_pos ⟨rfl, rfl⟩]
          exact congrArg _ split
        · intro other member
          rcases List.mem_cons.mp member with rfl | later
          · exact isItem_iff.mpr firstReads
          · exact othersItems other later
      · refine ⟨c :: first, others, ?_, ?_, othersItems⟩
        · rw [splitCommasFrom, if_neg fun comma => outer ⟨by omega, comma.1⟩,
            add_parenWeight unopened, split]
          rfl
        · rw [isItemFrom_cons (by tauto)]
          exact firstReads

theorem isItem_of_mem_splitCommas {text : Text} (balanced : isBalanced text = true) :
    ∀ item ∈ splitCommas text, IsItem item := by
  have fromStart : isBalancedFrom 0 text = true := balanced
  obtain ⟨first, others, split, firstReads, othersItems⟩ := splitCommasFrom_balanced fromStart
  intro item member
  rw [splitCommas, show (0 : Int) = ((0 : Nat) : Int) from rfl, split] at member
  rcases List.mem_cons.mp member with rfl | later
  · exact isItem_iff.mpr firstReads
  · exact othersItems item later

/-! ### Without the blanks at the ends -/

theorem isBlank_append {left right : Text} :
    isBlank (left ++ right) = (isBlank left && isBlank right) :=
  List.all_append

theorem exists_trim (text : Text) :
    ∃ before after, isBlank before = true ∧ isBlank after = true ∧
      text = before ++ (trim text ++ after) := by
  have front := List.takeWhile_append_dropWhile (p := isBlankChar) (l := text)
  have back := List.takeWhile_append_dropWhile (p := isBlankChar) (l :=
    (text.dropWhile isBlankChar).reverse)
  refine ⟨text.takeWhile isBlankChar,
    ((text.dropWhile isBlankChar).reverse.takeWhile isBlankChar).reverse,
    List.all_takeWhile, ?_, ?_⟩
  · rw [isBlank, List.all_reverse]
    exact List.all_takeWhile
  · rw [trim, ← List.reverse_append, back, List.reverse_reverse, front]

theorem isEmpty_trim (text : Text) : (trim text).isEmpty = isBlank text := by
  rw [Bool.eq_iff_iff]
  constructor
  · intro empty
    obtain ⟨before, after, beforeBlank, afterBlank, whole⟩ := exists_trim text
    rw [List.isEmpty_iff.mp empty, List.nil_append] at whole
    rw [whole, isBlank_append, beforeBlank, afterBlank]
    rfl
  · intro blank
    have front : text.dropWhile isBlankChar = [] :=
      List.dropWhile_eq_nil_iff.mpr (List.all_eq_true.mp blank)
    rw [trim, front]
    rfl

theorem IsItem.trim {text : Text} (item : IsItem text) : IsItem (trim text) := by
  obtain ⟨before, after, beforeBlank, afterBlank, whole⟩ := exists_trim text
  have inFront := isItemFrom_item (isItem_blank beforeBlank) 0 (Text.trim text ++ after)
  have behind : IsItem (Text.trim text ++ (after ++ [])) := by
    rw [List.append_nil, isItem_iff, ← inFront, ← whole]
    exact isItem_iff.mp item
  have alone := behind.replace (isItem_blank afterBlank) .nil
  rwa [List.append_nil, List.append_nil] at alone

end Text

open Text

/-- The items of a list are its arguments, without the blanks around them. -/
theorem Call.splitArguments_intercalate {items : List Text} (nonempty : items ≠ [])
    (each : ∀ item ∈ items, IsItem item ∧ isBlank item = false) :
    splitArguments ([','].intercalate items) = .ok (items.map trim) := by
  have some : isBlank ([','].intercalate items) = false := by
    obtain ⟨first, others, rfl⟩ := List.exists_cons_of_ne_nil nonempty
    have solid := (each first List.mem_cons_self).2
    cases others with
    | nil => simpa [List.intercalate] using solid
    | cons second others =>
        rw [List.intercalate_cons_cons, isBlank_append, isBlank_append, solid]
        rfl
  have solid : (items.map trim).any List.isEmpty = false := by
    rw [List.any_eq_false]
    intro piece member
    obtain ⟨item, itemMember, rfl⟩ := List.mem_map.mp member
    rw [isEmpty_trim, (each item itemMember).2]
    exact Bool.false_ne_true
  rw [splitArguments, some, if_neg Bool.false_ne_true,
    splitCommas_intercalate nonempty fun item member => (each item member).1]
  dsimp only
  rw [solid, if_neg Bool.false_ne_true]

/-! ### Numbers -/

private theorem isItem_write (x : Float) : IsItem (Decimal.write x) := by
  unfold Decimal.write
  split
  · decide
  dsimp only
  have size : IsItem (if x.isInf then ['i', 'n', 'f']
      else Decimal.magnitudeText (Magnitude.codeOf x)) := by
    split
    · decide
    · exact isItem_of_class Token.isNumberChar rfl (Numeral.ofMagnitude x).isNumeral.1
  split
  · exact .char (by decide) size
  · exact size

theorem isItem_inlineNumber (x : Float) : IsItem (inlineNumber x) := by
  unfold inlineNumber
  split
  · exact .group (isItem_write x).isNeutral .nil
  split
  · decide
  · exact isItem_write x

end QuantityFormula
