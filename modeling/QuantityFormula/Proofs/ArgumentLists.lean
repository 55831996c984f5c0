import QuantityFormula.Proofs.Items

/-!
Argument lists as they are written. The depth at a place of a text is the count of the parentheses
in front of it, and an argument list is cut at its commas at depth zero. The cut undoes the join by
commas: nothing between the commas is lost, and items with blanks around them come back in order.
-/

set_option autoImplicit false

namespace QuantityFormula

namespace Text

/-! ### The count of the parentheses -/

def parenDepth (text : Text) : Int :=
  (text.map parenWeight).sum

theorem parenDepth_nil : parenDepth [] = 0 :=
  rfl

theorem parenDepth_cons (c : Char) (text : Text) :
    parenDepth (c :: text) = parenWeight c + parenDepth text := by
  rw [parenDepth, List.map_cons, List.sum_cons, parenDepth]

/-- A text whose count of parentheses, begun at a depth, is never negative and ends at zero. -/
structure ClosesFrom (depth : Int) (text : Text) : Prop where
  opened : ∀ earlier, earlier <+: text → 0 ≤ depth + parenDepth earlier
  closed : depth + parenDepth text = 0

def Closes (text : Text) : Prop :=
  ClosesFrom 0 text

theorem ClosesFrom.nonneg {depth : Int} {text : Text}
    (closes : ClosesFrom depth text) : 0 ≤ depth := by
  have start := closes.opened [] List.nil_prefix
  rwa [parenDepth_nil, add_zero] at start

private theorem closesFrom_nil {depth : Int} : ClosesFrom depth [] ↔ depth = 0 := by
  constructor
  · intro closes
    have closed := closes.closed
    rwa [parenDepth_nil, add_zero] at closed
  · rintro rfl
    refine ⟨?_, rfl⟩
    intro earlier starts
    rw [List.prefix_nil.mp starts]
    rfl

private theorem closesFrom_cons {depth : Int} (nonneg : 0 ≤ depth) {c : Char} {text : Text} :
    ClosesFrom depth (c :: text) ↔ ClosesFrom (depth + parenWeight c) text := by
  have later (earlier : Text) : depth + parenWeight c + parenDepth earlier =
      depth + parenDepth (c :: earlier) := by
    rw [parenDepth_cons, add_assoc]
  constructor
  · intro closes
    refine ⟨?_, (later text).trans closes.closed⟩
    intro earlier starts
    rw [later]
    exact closes.opened _ (List.cons_prefix_cons.mpr ⟨rfl, starts⟩)
  · intro closes
    refine ⟨?_, (later text).symm.trans closes.closed⟩
    intro earlier starts
    rcases List.prefix_cons_iff.mp starts with rfl | ⟨behind, rfl, startsBehind⟩
    · rwa [parenDepth_nil, add_zero]
    · rw [← later]
      exact closes.opened behind startsBehind

/-- The count of the parentheses agrees with the check of their partners one by one. -/
theorem isBalancedFrom_iff {depth : Nat} {text : Text} :
    isBalancedFrom depth text = true ↔ ClosesFrom depth text := by
  induction text generalizing depth with
  | nil => simp [isBalancedFrom, closesFrom_nil]
  | cons c text ih =>
      rw [closesFrom_cons (Int.natCast_nonneg depth)]
      by_cases unopened : depth = 0 ∧ c = ')'
      · obtain ⟨rfl, rfl⟩ := unopened
        constructor
        · intro balanced
          cases balanced
        · intro closes
          exact absurd closes.nonneg (by decide)
      · rw [isBalancedFrom_cons _ _ _ unopened, add_parenWeight unopened]
        exact ih

theorem isBalanced_iff {text : Text} : isBalanced text = true ↔ Closes text :=
  isBalancedFrom_iff

instance (text : Text) : Decidable (Closes text) :=
  decidable_of_iff (isBalanced text = true) isBalanced_iff

/-! ### Outer commas -/

def outerCommasFrom (depth : Int) (text : Text) : List Nat :=
  (List.range text.length).filter fun place => text[place]? = some ',' ∧
    depth + parenDepth (text.take place) = 0

def outerCommas (text : Text) : List Nat :=
  outerCommasFrom 0 text

private theorem outerCommasFrom_cons (depth : Int) (c : Char) (text : Text) :
    outerCommasFrom depth (c :: text) =
      (if c = ',' ∧ depth = 0 then [0] else []) ++
        (outerCommasFrom (depth + parenWeight c) text).map (· + 1) := by
  have later : (List.range text.length).filter
      ((fun place => decide ((c :: text)[place]? = some ',' ∧
      depth + parenDepth ((c :: text).take place) = 0)) ∘ Nat.succ) =
        outerCommasFrom (depth + parenWeight c) text := by
    apply List.filter_congr
    intro place _
    simp only [Function.comp, Nat.succ_eq_add_one, List.getElem?_cons_succ,
      List.take_succ_cons, parenDepth_cons, add_assoc]
  rw [outerCommasFrom, List.length_cons, List.range_succ_eq_map, List.filter_cons,
    List.filter_map, later]
  by_cases outer : c = ',' ∧ depth = 0
  · rw [if_pos (by simpa [parenDepth_nil] using outer), if_pos outer]
    rfl
  · rw [if_neg (by simpa [parenDepth_nil] using outer), if_neg outer]
    rfl

/-- The places of the commas when pieces are joined by them. -/
def joints : List Text → List Nat
  | [] | [_] => []
  | first :: second :: others =>
    first.length :: (joints (second :: others)).map (first.length + 1 + ·)

private theorem length_joints {pieces : List Text} (nonempty : pieces ≠ []) :
    pieces.length = (joints pieces).length + 1 := by
  induction pieces with
  | nil => exact absurd rfl nonempty
  | cons first others ih =>
      cases others with
      | nil => rfl
      | cons second others =>
          rw [List.length_cons, ih (List.cons_ne_nil _ _), joints,
            List.length_cons, List.length_map]

private theorem joints_nil_cons {pieces : List Text} (nonempty : pieces ≠ []) :
    joints ([] :: pieces) = 0 :: (joints pieces).map (· + 1) := by
  obtain ⟨first, others, rfl⟩ := List.exists_cons_of_ne_nil nonempty
  simp [joints, Nat.add_comm]

private theorem joints_consFirst (c : Char) {pieces : List Text} (nonempty : pieces ≠ []) :
    joints (consFirst c pieces) = (joints pieces).map (· + 1) := by
  obtain ⟨first, others, rfl⟩ := List.exists_cons_of_ne_nil nonempty
  cases others with
  | nil => rfl
  | cons second others =>
      rw [consFirst, joints, joints, List.map_cons, List.map_map]
      congr 1
      apply List.map_congr_left
      intro place _
      simp only [List.length_cons, Function.comp]
      omega

/-- The pieces of a text are joined at its outer commas and nowhere else. -/
theorem joints_splitCommasFrom (depth : Int) (text : Text) :
    joints (splitCommasFrom depth text) = outerCommasFrom depth text := by
  induction text generalizing depth with
  | nil => rfl
  | cons c text ih =>
      rw [splitCommasFrom, outerCommasFrom_cons]
      by_cases outer : c = ',' ∧ depth = 0
      · rw [if_pos outer, if_pos outer, joints_nil_cons (splitCommasFrom_ne_nil depth text), ih,
          outer.1, show parenWeight ',' = 0 from rfl, add_zero]
        rfl
      · rw [if_neg outer, if_neg outer, joints_consFirst c (splitCommasFrom_ne_nil _ text), ih]
        rfl

private theorem isItem_iff_closes {text : Text} :
    IsItem text ↔ Closes text ∧ outerCommas text = [] := by
  constructor
  · intro item
    have alone : splitCommas text = [text] := by
      have joined := splitCommas_intercalate (List.cons_ne_nil text []) fun other member => by
        rwa [List.mem_singleton.mp member]
      simpa [List.intercalate] using joined
    refine ⟨isBalanced_iff.mp (isNeutral_iff.mp item.isNeutral), ?_⟩
    rw [outerCommas, ← joints_splitCommasFrom]
    exact congrArg joints alone
  · rintro ⟨closes, uncut⟩
    -- Without an outer comma there is one piece, and a piece is an item.
    have counted := length_joints (splitCommasFrom_ne_nil 0 text)
    rw [joints_splitCommasFrom, ← outerCommas, uncut] at counted
    obtain ⟨piece, alone⟩ := List.length_eq_one_iff.mp counted
    have whole := intercalate_splitCommasFrom 0 text
    rw [alone, List.intercalate_singleton] at whole
    have items := isItem_of_mem_splitCommas (isBalanced_iff.mpr closes)
    rw [← whole]
    apply items
    rw [splitCommas, alone]
    exact List.mem_singleton_self piece

/-! ### Cuts -/

/-- Pieces of a text between its outer commas: the text is their join, and the commas of the
join are the outer ones. -/
structure IsCut (pieces : List Text) (text : Text) : Prop where
  joined : [','].intercalate pieces = text
  placed : joints pieces = outerCommas text
  counted : pieces.length = (outerCommas text).length + 1

private theorem isCut_splitCommas (text : Text) : IsCut (splitCommas text) text where
  joined := intercalate_splitCommasFrom 0 text
  placed := joints_splitCommasFrom 0 text
  counted := by
    rw [outerCommas, ← joints_splitCommasFrom]
    exact length_joints (splitCommasFrom_ne_nil 0 text)

/-- The places of the commas determine the pieces. -/
theorem eq_of_joints {left right : List Text} (leftSome : left ≠ []) (rightSome : right ≠ [])
    (joined : [','].intercalate left = [','].intercalate right)
    (placed : joints left = joints right) :
    left = right := by
  induction left generalizing right with
  | nil => exact absurd rfl leftSome
  | cons first others ih =>
      obtain ⟨first', others', rfl⟩ := List.exists_cons_of_ne_nil rightSome
      cases others with
      | nil =>
          cases others' with
          | nil => simpa [List.intercalate] using joined
          | cons second' others' => cases placed
      | cons second others =>
          cases others' with
          | nil => cases placed
          | cons second' others' =>
              rw [joints, joints, List.cons.injEq] at placed
              obtain ⟨sameLength, samePlaces⟩ := placed
              rw [List.intercalate_cons_cons, List.intercalate_cons_cons, List.append_assoc,
                List.append_assoc] at joined
              obtain ⟨rfl, behind⟩ := List.append_inj joined sameLength
              have rest := ih (List.cons_ne_nil second others) (List.cons_ne_nil second' others')
                (List.append_cancel_left behind)
                  (List.map_injective_iff.mpr (add_right_injective _) samePlaces)
              rw [rest]

private theorem IsCut.eq_splitCommas {pieces : List Text} {text : Text} (cut : IsCut pieces text) :
    pieces = splitCommas text := by
  have nonempty : pieces ≠ [] := by
    rintro rfl
    exact absurd cut.counted (by simp)
  have split := isCut_splitCommas text
  exact eq_of_joints nonempty (splitCommasFrom_ne_nil 0 text) (cut.joined.trans split.joined.symm)
    (cut.placed.trans split.placed.symm)

/-! ### Blanks around a text -/

def IsPadded (inner outer : Text) : Prop :=
  ∃ before after, isBlank before = true ∧ isBlank after = true ∧ outer = before ++ (inner ++ after)

def IsTrimmed (text : Text) : Prop :=
  (∀ c ∈ text.head?, isBlankChar c = false) ∧ ∀ c ∈ text.getLast?, isBlankChar c = false

private theorem isPadded_trim (text : Text) : IsPadded (trim text) text :=
  exists_trim text

private theorem isBlankChar_of_head?_dropWhile {text : Text} {c : Char}
    (starts : c ∈ (text.dropWhile isBlankChar).head?) :
    isBlankChar c = false := by
  have first := List.head?_dropWhile_not isBlankChar text
  rwa [Option.mem_def.mp starts] at first

private theorem isTrimmed_trim (text : Text) : IsTrimmed (trim text) := by
  constructor
  · intro c starts
    have front : trim text <+: text.dropWhile isBlankChar := by
      rw [trim, ← List.reverse_suffix, List.reverse_reverse]
      exact List.dropWhile_suffix _
    obtain ⟨rest, whole⟩ := front
    refine @isBlankChar_of_head?_dropWhile text c ?_
    rw [← whole, List.head?_append, Option.mem_def.mp starts]
    rfl
  · intro c ends
    rw [trim, List.getLast?_reverse] at ends
    exact isBlankChar_of_head?_dropWhile ends

theorem IsPadded.isItem {inner outer : Text} (padded : IsPadded inner outer)
    (item : IsItem inner) : IsItem outer := by
  obtain ⟨before, after, beforeBlank, afterBlank, rfl⟩ := padded
  exact (isItem_blank beforeBlank).append (item.append (isItem_blank afterBlank))

theorem IsPadded.isBlank {inner outer : Text} (padded : IsPadded inner outer) :
    isBlank outer = isBlank inner := by
  obtain ⟨before, after, beforeBlank, afterBlank, rfl⟩ := padded
  rw [isBlank_append, isBlank_append, beforeBlank, afterBlank, Bool.true_and, Bool.and_true]

private theorem IsPadded.trim_eq {inner outer : Text} (padded : IsPadded inner outer) :
    trim outer = trim inner := by
  obtain ⟨before, after, beforeBlank, afterBlank, rfl⟩ := padded
  have front := List.all_eq_true.mp beforeBlank
  have back : ∀ c ∈ after.reverse, isBlankChar c = true := by
    intro c member
    exact List.all_eq_true.mp afterBlank c (List.mem_reverse.mp member)
  rw [trim, trim, List.dropWhile_append_of_pos front, List.dropWhile_append]
  split
  case isTrue empty =>
    -- The text in between is blank itself, so nothing is left of either.
    rw [List.isEmpty_iff.mp empty, List.dropWhile_eq_nil_iff.mpr (List.all_eq_true.mp afterBlank)]
  case isFalse =>
    rw [List.reverse_append, List.dropWhile_append_of_pos back]

end Text

open Text

/-! ### Splitting an argument list -/

namespace Call

/-- An argument list that is not blank is refused if a piece of it is blank. -/
theorem splitArguments_of_solid {text : Text} (solid : isBlank text = false) :
    splitArguments text =
      if ∃ piece ∈ splitCommas text, isBlank piece = true then
        .error (.malformed (.emptyArgument text))
      else .ok ((splitCommas text).map trim) := by
  have refused : ((splitCommas text).map trim).any List.isEmpty = true ↔
      ∃ piece ∈ splitCommas text, isBlank piece = true := by
    simp only [List.any_map, List.any_eq_true, Function.comp, isEmpty_trim]
  rw [splitArguments, solid, if_neg Bool.false_ne_true]
  by_cases blankPiece : ∃ piece ∈ splitCommas text, isBlank piece = true
  · rw [if_pos blankPiece]
    exact if_pos (refused.mpr blankPiece)
  · rw [if_neg blankPiece]
    exact if_neg fun empty => blankPiece (refused.mp empty)

/-- Blanks around the items of an argument list are taken off. -/
theorem splitArguments_of_padded {items written : List Text} (nonempty : items ≠ [])
    (each : ∀ item ∈ items, IsItem item ∧ isBlank item = false)
    (padded : List.Forall₂ IsPadded items written) :
    splitArguments ([','].intercalate written) = .ok (items.map trim) := by
  have writtenItems : ∀ piece ∈ written, IsItem piece ∧ isBlank piece = false := by
    intro piece member
    obtain ⟨item, itemMember, around⟩ := exists_of_forall₂_right padded member
    obtain ⟨isItem, solid⟩ := each item itemMember
    exact ⟨around.isItem isItem, around.isBlank.trans solid⟩
  have some : written ≠ [] := by
    rintro rfl
    exact nonempty (List.forall₂_nil_right_iff.mp padded)
  have same : items.map trim = written.map trim := by
    rw [← List.forall₂_eq_eq_eq, List.forall₂_map_left_iff, List.forall₂_map_right_iff]
    exact padded.imp fun _ _ around => around.trim_eq.symm
  rw [splitArguments_intercalate some writtenItems, ← same]

end Call

/-- A balanced argument list is cut at its commas at depth zero and nowhere else, and it is refused
exactly if a piece is blank. Items without outer commas come back from the list they are joined to,
whatever blanks stand around them. -/
theorem Call.splitArguments_inverts_intercalate :
    (∀ text, Closes text →
      (isBlank text = true → splitArguments text = .ok []) ∧
      (isBlank text = false → ∃ pieces,
        (∀ other, IsCut other text ↔ other = pieces) ∧
        (∀ piece ∈ pieces, Closes piece ∧ outerCommas piece = [] ∧
          Closes (trim piece) ∧ IsTrimmed (trim piece) ∧ IsPadded (trim piece) piece) ∧
        splitArguments text =
          if ∃ piece ∈ pieces, isBlank piece = true then .error (.malformed (.emptyArgument text))
          else .ok (pieces.map trim))) ∧
    ∀ items written, items ≠ [] →
      (∀ item ∈ items, isBlank item = false ∧ Closes item ∧ outerCommas item = []) →
      List.Forall₂ IsPadded items written →
      splitArguments ([','].intercalate written) = .ok (items.map trim) := by
  constructor
  · intro text closes
    refine ⟨fun blank => if_pos blank,
      fun solid => ⟨splitCommas text, ?_, ?_, splitArguments_of_solid solid⟩⟩
    · intro other
      refine ⟨IsCut.eq_splitCommas, ?_⟩
      rintro rfl
      exact isCut_splitCommas text
    · intro piece member
      have item := isItem_of_mem_splitCommas (isBalanced_iff.mpr closes) piece member
      obtain ⟨pieceCloses, uncut⟩ := isItem_iff_closes.mp item
      exact ⟨pieceCloses, uncut, (isItem_iff_closes.mp item.trim).1, isTrimmed_trim piece,
        isPadded_trim piece⟩
  · intro items written nonempty each padded
    refine splitArguments_of_padded nonempty (fun item member => ?_) padded
    obtain ⟨solid, closes, uncut⟩ := each item member
    exact ⟨isItem_iff_closes.mpr ⟨closes, uncut⟩, solid⟩

/-- The comma in the group `(2, 3)` is left alone, and the blanks around the items are taken off. -/
theorem Call.splitArguments_of_group :
    Closes "1, (2, 3) ,4".toList ∧ isBlank "1, (2, 3) ,4".toList = false ∧
      outerCommas "1, (2, 3) ,4".toList = [1, 10] ∧
      (∃ pieces, IsCut pieces "1, (2, 3) ,4".toList ∧
        splitArguments "1, (2, 3) ,4".toList =
          if ∃ piece ∈ pieces, isBlank piece = true then
            .error (.malformed (.emptyArgument "1, (2, 3) ,4".toList))
          else .ok (pieces.map trim)) ∧
      splitArguments "1, (2, 3) ,4".toList = .ok ["1".toList, "(2, 3)".toList, "4".toList] := by
  have closes : Closes "1, (2, 3) ,4".toList := by decide +kernel
  have solid : isBlank "1, (2, 3) ,4".toList = false := by decide +kernel
  have items : ∀ item ∈ ["1".toList, "(2, 3)".toList, "4".toList],
      isBlank item = false ∧ Closes item ∧ outerCommas item = [] := by decide +kernel
  have padded : List.Forall₂ IsPadded ["1".toList, "(2, 3)".toList, "4".toList]
      ["1".toList, " (2, 3) ".toList, "4".toList] :=
    .cons ⟨[], [], by decide⟩ (.cons ⟨[' '], [' '], by decide⟩ (.cons ⟨[], [], by decide⟩ .nil))
  obtain ⟨pieces, cut, _, split⟩ := (splitArguments_inverts_intercalate.1 _ closes).2 solid
  refine ⟨closes, solid, by decide +kernel, ⟨pieces, (cut pieces).mpr rfl, split⟩, ?_⟩
  exact splitArguments_inverts_intercalate.2 _ _ (List.cons_ne_nil _ _) items padded

end QuantityFormula
