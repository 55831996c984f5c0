import QuantityFormula.Constant
import QuantityFormula.Proofs.Separators
import QuantityFormula.Proofs.Twins

/-!
Where a constant is replaced. It stands for its number where the run of name characters at some
place is its name, behind no word and in front of none. So a character that belongs to no word parts
a text for the replacement, and in twins a constant is replaced on both sides or on none.
-/

set_option autoImplicit false

namespace QuantityFormula

open Text

/-! ### Places of a name -/

def FunctionName.Stands (name : FunctionName) (afterWord : Bool) (text : Text) : Prop :=
  afterWord = false ∧ text.takeWhile Head.isNameChar = name.text ∧
    startsWithWord (text.dropWhile Head.isNameChar) = false

namespace FunctionName

variable (name : FunctionName)

theorem forall_mem_text : ∀ c ∈ name.text, Head.isNameChar c = true := by
  intro c member
  rcases List.mem_cons.mp member with rfl | later
  · exact Head.isNameChar_of_isNameStart name.start
  · exact name.following c later

private theorem takeWhile_of_startsWithWord {text : Text} (ends : startsWithWord text = false) :
    text.takeWhile Head.isNameChar = [] ∧ text.dropWhile Head.isNameChar = text := by
  cases text with
  | nil => exact ⟨rfl, rfl⟩
  | cons c text =>
      have unnamed : Head.isNameChar c = false := Head.isNameChar_eq_false ends
      rw [List.takeWhile_cons, List.dropWhile_cons, unnamed]
      exact ⟨rfl, rfl⟩

theorem stands_append {text : Text} (ends : startsWithWord text = false) :
    name.Stands false (name.text ++ text) := by
  obtain ⟨nothing, all⟩ := takeWhile_of_startsWithWord ends
  refine ⟨rfl, ?_, ?_⟩
  · rw [List.takeWhile_append_of_pos name.forall_mem_text, nothing, List.append_nil]
  · rw [List.dropWhile_append_of_pos name.forall_mem_text, all]
    exact ends

theorem exists_of_stands {afterWord : Bool} {text : Text} (stands : name.Stands afterWord text) :
    afterWord = false ∧ ∃ rest, text = name.text ++ rest ∧ startsWithWord rest = false := by
  obtain ⟨fresh, word, ends⟩ := stands
  refine ⟨fresh, text.dropWhile Head.isNameChar, ?_, ends⟩
  rw [← word, List.takeWhile_append_dropWhile]

theorem not_stands_of_not_isNameStart {c : Char} (other : Head.isNameStart c = false)
    (afterWord : Bool) (text : Text) :
    ¬name.Stands afterWord (c :: text) := by
  intro stands
  obtain ⟨_, rest, whole, _⟩ := name.exists_of_stands stands
  obtain ⟨rfl, _⟩ := List.cons.inj whole
  rw [name.start] at other
  cases other

private theorem wholeWordRule_of_stands {afterWord : Bool} {text : Text}
    (stands : name.Stands afterWord text) :
    Constant.wholeWordRule name.text afterWord text = some ((), name.text.length - 1) := by
  obtain ⟨rfl, rest, rfl, ends⟩ := name.exists_of_stands stands
  have starts : name.text.isPrefixOf (name.text ++ rest) = true :=
    List.isPrefixOf_iff_prefix.mpr (List.prefix_append _ _)
  rw [Constant.wholeWordRule, starts, List.drop_left, ends]
  rfl

private theorem wholeWordRule_of_not_stands {afterWord : Bool} {text : Text}
    (elsewhere : ¬name.Stands afterWord text) :
    Constant.wholeWordRule name.text afterWord text = none := by
  rw [Constant.wholeWordRule, if_neg]
  intro fires
  rw [Bool.and_eq_true, Bool.and_eq_true, Bool.not_eq_true', Bool.not_eq_true',
    List.isPrefixOf_iff_prefix] at fires
  obtain ⟨⟨rfl, rest, rfl⟩, ends⟩ := fires
  rw [List.drop_left] at ends
  exact elsewhere (name.stands_append ends)

/-- A character that belongs to no word ends what a name may stand in. -/
theorem stands_append_cons {c : Char} (apart : isWordChar c = false) (afterWord : Bool)
    (left right : Text) :
    name.Stands afterWord (left ++ c :: right) ↔ name.Stands afterWord left := by
  have unnamed := Head.isNameChar_eq_false apart
  have ends : startsWithWord (left.dropWhile Head.isNameChar ++ c :: right) =
      startsWithWord (left.dropWhile Head.isNameChar) := by
    cases left.dropWhile Head.isNameChar with
    | nil => exact apart
    | cons d rest => rfl
  rw [Stands, Stands, takeWhile_append_cons unnamed, dropWhile_append_cons unnamed, ends]

private theorem isPartedBy {c : Char} (apart : isWordChar c = false) :
    PlaceRule.IsPartedBy (Constant.wholeWordRule name.text) c where
  apart := apart
  same afterWord left right := by
    by_cases stands : name.Stands afterWord left
    · rw [name.wholeWordRule_of_stands stands,
        name.wholeWordRule_of_stands
          ((name.stands_append_cons apart afterWord left right).mpr stands)]
    · rw [name.wholeWordRule_of_not_stands stands,
        name.wholeWordRule_of_not_stands
          (mt (name.stands_append_cons apart afterWord left right).mp stands)]
  inside := by
    intro afterWord text place more found
    by_cases stands : name.Stands afterWord text
    · rw [name.wholeWordRule_of_stands stands] at found
      cases found
      obtain ⟨_, rest, rfl, _⟩ := name.exists_of_stands stands
      rw [List.length_append]
      exact Nat.lt_add_right _ (Nat.lt_succ_self _)
    · rw [name.wholeWordRule_of_not_stands stands] at found
      cases found

end FunctionName

/-! ### Replacing a name -/

theorem Text.Cuts.scan_taken {α : Type} (rule : PlaceRule α) (afterWord : Bool) (word text : Text) :
    scan rule afterWord word.length (word ++ text) =
      scan rule (Head.continuesWord afterWord word) 0 text := by
  induction word generalizing afterWord with
  | nil => rfl
  | cons c word ih => exact ih (isWordChar c)

def FunctionName.replaceBy (name : FunctionName) (replacement : Text) (afterWord : Bool)
    (text : Text) : Text :=
  (Cuts.scan (Constant.wholeWordRule name.text) afterWord 0 text).fill fun _ => replacement

namespace FunctionName

variable (name : FunctionName) (replacement : Text)

theorem replaceBy_cons {afterWord : Bool} {c : Char} {text : Text}
    (elsewhere : ¬name.Stands afterWord (c :: text)) :
    name.replaceBy replacement afterWord (c :: text) = c :: name.replaceBy replacement
      (isWordChar c) text := by
  rw [replaceBy, Cuts.scan, name.wholeWordRule_of_not_stands elsewhere]
  exact Cuts.fill_keep _ c _

private theorem continuesWord_rest :
    Head.continuesWord (isWordChar name.first) name.rest = true := by
  have word : ∀ c ∈ name.text, isWordChar c = true :=
    fun c member => Head.isWordChar_of_isNameChar (name.forall_mem_text c member)
  have members : ∀ c ∈ name.rest, isWordChar c = true :=
    fun c member => word c (List.mem_cons_of_mem _ member)
  rw [word name.first List.mem_cons_self]
  generalize name.rest = rest at members
  induction rest with
  | nil => rfl
  | cons c rest ih =>
      rw [Head.continuesWord, List.foldl_cons, members c List.mem_cons_self]
      exact ih fun other member => members other (List.mem_cons_of_mem _ member)

theorem continuesWord_text (afterWord : Bool) : Head.continuesWord afterWord name.text = true :=
  name.continuesWord_rest

theorem replaceBy_name {text : Text} (ends : startsWithWord text = false) :
    name.replaceBy replacement false (name.text ++ text) =
      replacement ++ name.replaceBy replacement true text := by
  have found := name.wholeWordRule_of_stands (name.stands_append ends)
  have behind : Cuts.scan (Constant.wholeWordRule name.text)
      (isWordChar name.first) name.rest.length
      (name.rest ++ text) = Cuts.scan (Constant.wholeWordRule name.text) true 0 text := by
    rw [Cuts.scan_taken, name.continuesWord_rest]
  rw [replaceBy]
  change Cuts.fill _ (Cuts.scan _ false 0 (name.first :: (name.rest ++ text))) = _
  change Constant.wholeWordRule name.text false (name.first :: (name.rest ++ text)) =
    some ((), name.rest.length) at found
  rw [Cuts.scan, found]
  dsimp only
  rw [behind, Cuts.fill_found]
  rfl

/-- What stands in front of a character that belongs to no word is replaced apart
from what stands behind it. -/
theorem replaceBy_append_cons {c : Char} (apart : isWordChar c = false) (afterWord : Bool)
    (left right : Text) :
    name.replaceBy replacement afterWord (left ++ c :: right) =
      name.replaceBy replacement afterWord left ++ c :: name.replaceBy replacement false right := by
  rw [replaceBy, Cuts.scan_append_cons (name.isPartedBy apart) afterWord (Nat.zero_le _),
    Cuts.fill_append, Cuts.fill_keep]
  rfl

theorem replaceBy_append_of_notStart {piece : Text}
    (notStart : ∀ c ∈ piece, Head.isNameStart c = false) (afterWord : Bool) (text : Text) :
    name.replaceBy replacement afterWord (piece ++ text) =
      piece ++ name.replaceBy replacement (Head.continuesWord afterWord piece) text := by
  induction piece generalizing afterWord with
  | nil => rfl
  | cons c piece ih =>
      have elsewhere := name.not_stands_of_not_isNameStart (notStart c List.mem_cons_self) afterWord
        (piece ++ text)
      rw [List.cons_append, name.replaceBy_cons replacement elsewhere,
        ih fun other member => notStart other (List.mem_cons_of_mem _ member)]
      rfl

def IsAbsent : (afterWord : Bool) → Text → Prop
  | _, [] => True
  | afterWord, c :: text => ¬name.Stands afterWord (c :: text) ∧ IsAbsent (isWordChar c) text

variable {name} in
theorem replaceBy_of_isAbsent {afterWord : Bool} {text : Text}
    (absent : name.IsAbsent afterWord text) :
    name.replaceBy replacement afterWord text = text := by
  induction text generalizing afterWord with
  | nil => rfl
  | cons c text ih => rw [name.replaceBy_cons replacement absent.1, ih absent.2]

theorem isAbsent_append_of_notStart {piece : Text}
    (notStart : ∀ c ∈ piece, Head.isNameStart c = false)
    {afterWord : Bool} {text : Text}
    (behind : name.IsAbsent (Head.continuesWord afterWord piece) text) :
    name.IsAbsent afterWord (piece ++ text) := by
  induction piece generalizing afterWord with
  | nil => exact behind
  | cons c piece ih =>
      exact ⟨name.not_stands_of_not_isNameStart (notStart c List.mem_cons_self) afterWord
        (piece ++ text),
        ih (fun other member => notStart other (List.mem_cons_of_mem _ member)) behind⟩

theorem isAbsent_of_notStart {text : Text} (notStart : ∀ c ∈ text, Head.isNameStart c = false)
    (afterWord : Bool) :
    name.IsAbsent afterWord text := by
  rw [← List.append_nil text]
  exact name.isAbsent_append_of_notStart notStart trivial

private theorem isAbsent_inside {word : Text} (members : ∀ c ∈ word, isWordChar c = true) :
    name.IsAbsent true word := by
  induction word with
  | nil => trivial
  | cons c word ih =>
      refine ⟨fun stands => Bool.false_ne_true stands.1.symm, ?_⟩
      rw [members c List.mem_cons_self]
      exact ih fun other member => members other (List.mem_cons_of_mem _ member)

theorem isAbsent_of_ne {word : Text} (members : ∀ c ∈ word, isWordChar c = true)
    (different : word ≠ name.text) :
    name.IsAbsent false word := by
  have elsewhere : ¬name.Stands false word := by
    rintro ⟨_, whole, ends⟩
    -- What is left of the word behind the name would begin with a word character.
    have shape := List.takeWhile_append_dropWhile (p := Head.isNameChar) (l := word)
    cases left : word.dropWhile Head.isNameChar with
    | nil =>
        rw [left, List.append_nil, whole] at shape
        exact different shape.symm
    | cons c rest =>
        rw [left, startsWithWord, members c (by rw [← shape, left]; simp)] at ends
        cases ends
  cases word with
  | nil => trivial
  | cons c word =>
      refine ⟨elsewhere, ?_⟩
      rw [members c List.mem_cons_self]
      exact name.isAbsent_inside fun other member => members other (List.mem_cons_of_mem _ member)

private theorem startsWithWord_replaceBy {text : Text} (ends : startsWithWord text = false)
    (afterWord : Bool) :
    startsWithWord (name.replaceBy replacement afterWord text) = false := by
  cases text with
  | nil => rfl
  | cons c text =>
      have notStart : Head.isNameStart c = false :=
        Head.isNameStart_eq_false (Head.isNameChar_eq_false ends)
      rw [name.replaceBy_cons replacement
        (name.not_stands_of_not_isNameStart notStart afterWord text)]
      exact ends

end FunctionName

/-! ### Replacing a name in twins -/

private theorem Seams.Lawful.afterWord_foldl {seams : Seams} (lawful : seams.Lawful) (word : Text)
    (state : seams.State) :
    seams.afterWord (word.foldl seams.behind state) =
      Head.continuesWord (seams.afterWord state) word := by
  induction word generalizing state with
  | nil => rfl
  | cons c word ih =>
      rw [List.foldl_cons, ih, lawful.afterWord_behind]
      rfl

namespace Twin

variable {seams : Seams} {state final : seams.State} {left right : Text}

/-- A name stands at the start of twins on neither side or on both, and then twins follow it. -/
theorem stands_cases (lawful : seams.Lawful) (name : FunctionName) {c : Char}
    (admitted : seams.Admits state c) (rest : Twin seams (seams.behind state c) left right final) :
    ¬name.Stands (seams.afterWord state) (c :: left) ∧
        ¬name.Stands (seams.afterWord state) (c :: right) ∨
      seams.afterWord state = false ∧ ∃ after after', c :: left = name.text ++ after ∧
        c :: right = name.text ++ after' ∧
        startsWithWord after = false ∧ startsWithWord after' = false ∧
        Twin seams (name.text.foldl seams.behind state) after after' final := by
  by_cases named : Head.isNameChar c = true
  · obtain ⟨sameName, namedBehind, behind⟩ :=
      rest.spanName lawful (lawful.named_of_name state c named admitted)
    have ends : startsWithWord (left.dropWhile Head.isNameChar) =
        startsWithWord (right.dropWhile Head.isNameChar) := by
      generalize left.dropWhile Head.isNameChar = left at behind ⊢
      generalize right.dropWhile Head.isNameChar = right at behind ⊢
      cases behind with
      | nil => rfl
      | char => rfl
      | block block rest =>
          obtain ⟨⟨d, first, apart, _⟩, ⟨d', first', apart', _⟩⟩ :=
            lawful.standsOff block namedBehind
          obtain ⟨others, rfl⟩ := List.head?_eq_some_iff.mp first
          obtain ⟨others', rfl⟩ := List.head?_eq_some_iff.mp first'
          exact apart.trans apart'.symm
    unfold FunctionName.Stands
    rw [List.takeWhile_cons, List.takeWhile_cons, List.dropWhile_cons, List.dropWhile_cons,
      if_pos named, if_pos named, if_pos named, if_pos named, ← sameName, ← ends]
    by_cases stands : seams.afterWord state = false ∧
        c :: left.takeWhile Head.isNameChar = name.text ∧
        startsWithWord (left.dropWhile Head.isNameChar) = false
    · obtain ⟨fresh, whole, last⟩ := stands
      refine .inr ⟨fresh, left.dropWhile Head.isNameChar, right.dropWhile Head.isNameChar, ?_, ?_,
        last, ends ▸ last, ?_⟩
      · rw [← whole, List.cons_append, List.takeWhile_append_dropWhile]
      · rw [← whole, sameName, List.cons_append, List.takeWhile_append_dropWhile]
      · rw [← whole]
        exact behind
    · exact .inl ⟨stands, stands⟩
  · have notStart := Head.isNameStart_eq_false (Bool.eq_false_iff.mpr named)
    exact .inl ⟨name.not_stands_of_not_isNameStart notStart _ _,
      name.not_stands_of_not_isNameStart notStart _ _⟩

theorem replaceBy (lawful : seams.Lawful) (name : FunctionName) {replacement replacement' : Text}
    {Block : seams.State → Text → Text → seams.State → Prop}
    (placed : ∀ {state left right final}, seams.Opens state → startsWithWord left = false →
      startsWithWord right = false →
      Twin { seams with Block := Block } (name.text.foldl seams.behind state) left right final →
        ∃ final, Twin { seams with Block := Block } state (replacement ++ left)
          (replacement' ++ right) final)
    (blocks : ∀ {state piece piece' next left right final}, seams.Block state piece piece' next →
      Twin seams next left right final → ∃ filled filled', Block state filled filled' next ∧
        name.replaceBy replacement (seams.afterWord state) (piece ++ left) =
          filled ++ name.replaceBy replacement (seams.afterWord next) left ∧
        name.replaceBy replacement' (seams.afterWord state) (piece' ++ right) =
          filled' ++ name.replaceBy replacement' (seams.afterWord next) right)
    (twin : Twin seams state left right final) :
    ∃ final, Twin { seams with Block := Block } state
      (name.replaceBy replacement (seams.afterWord state) left)
      (name.replaceBy replacement' (seams.afterWord state) right) final := by
  -- By the length of the text: a name that stands in it is passed over as a whole.
  induction size : left.length using Nat.strongRecOn generalizing state left right with
  | ind length ih =>
      cases twin with
      | nil => exact ⟨_, .nil _⟩
      | @char _ _ c left right admitted rest =>
          rcases rest.stands_cases lawful name admitted with
            ⟨elsewhere, elsewhere'⟩ | ⟨fresh, after, after', whole, whole', ends, ends', behind⟩
          · obtain ⟨final, filled⟩ := ih left.length (by simp at size; omega) rest rfl
            rw [lawful.afterWord_behind] at filled
            rw [name.replaceBy_cons _ elsewhere, name.replaceBy_cons _ elsewhere']
            exact ⟨final, .char admitted filled⟩
          · have shorter : after.length < length := by
              rw [← size, whole, List.length_append]
              exact Nat.lt_add_of_pos_left (Nat.succ_pos _)
            obtain ⟨final, filled⟩ := ih after.length shorter behind rfl
            have opens : seams.Opens state := by
              obtain ⟨rfl, _⟩ := List.cons.inj whole
              exact ⟨_, admitted, name.start, fresh⟩
            rw [lawful.afterWord_foldl, fresh, name.continuesWord_text] at filled
            rw [fresh, whole, whole', name.replaceBy_name _ ends, name.replaceBy_name _ ends']
            exact placed opens (name.startsWithWord_replaceBy _ ends true)
              (name.startsWithWord_replaceBy _ ends' true)
              filled
      | @block _ next _ piece piece' left right block rest =>
          obtain ⟨filled, filled', same, leftFilled, rightFilled⟩ := blocks block rest
          have shorter : left.length < length := by
            obtain ⟨⟨⟨c, first, _⟩, _⟩, _⟩ := lawful.isFirm block
            obtain ⟨others, rfl⟩ := List.head?_eq_some_iff.mp first
            simp at size
            omega
          obtain ⟨final, behind⟩ := ih left.length shorter rest rfl
          rw [leftFilled, rightFilled]
          exact ⟨final, .block same behind⟩

end Twin

/-! ### Replacing the constants -/

namespace Constant

def substituteEachBy (write : Float → Text) (constants : List Constant) (text : Text) : Text :=
  constants.foldl
    (fun text constant => (text.cutsBy (wholeWordRule constant.name.toList)).fill fun _ =>
      write constant.value) text

theorem substituteEachBy_write : substituteEachBy Decimal.write = substituteEach :=
  rfl

theorem substituteEachBy_cons (write : Float → Text) (constant : Constant)
    (constants : List Constant)
    {name : FunctionName} (named : name.text = constant.name.toList) (text : Text) :
    substituteEachBy write (constant :: constants) text =
      substituteEachBy write constants (name.replaceBy (write constant.value) false text) := by
  rw [FunctionName.replaceBy, named]
  rfl

theorem substituteEachBy_congr {write write' : Float → Text} {constants : List Constant}
    (same : ∀ constant ∈ constants, write constant.value = write' constant.value) (text : Text) :
    substituteEachBy write constants text = substituteEachBy write' constants text := by
  unfold substituteEachBy
  induction constants generalizing text with
  | nil => rfl
  | cons constant constants ih =>
      rw [List.foldl_cons, List.foldl_cons, same constant List.mem_cons_self]
      exact ih (fun other member => same other (List.mem_cons_of_mem _ member)) _

theorem exists_functionName :
    ∀ constant ∈ all, ∃ name : FunctionName, name.text = constant.name.toList := by
  have spelled : ∀ constant ∈ all, constant.name.toList.head?.any Head.isNameStart = true ∧
      constant.name.toList.all Head.isNameChar = true := by
    decide +kernel
  exact fun constant listed => FunctionName.exists_text (spelled constant listed)

private theorem substituteEachBy_append_cons (write : Float → Text) {c : Char}
    (apart : isWordChar c = false)
    {constants : List Constant}
    (named : ∀ constant ∈ constants, ∃ name : FunctionName, name.text = constant.name.toList)
    (left right : Text) :
    substituteEachBy write constants (left ++ c :: right) =
      substituteEachBy write constants left ++ c :: substituteEachBy write constants right := by
  induction constants generalizing left right with
  | nil => rfl
  | cons constant constants ih =>
      obtain ⟨name, spelled⟩ := named constant List.mem_cons_self
      rw [substituteEachBy_cons write constant constants spelled,
        substituteEachBy_cons write constant constants spelled,
        substituteEachBy_cons write constant constants spelled, name.replaceBy_append_cons _ apart]
      exact ih (fun other member => named other (List.mem_cons_of_mem _ member)) _ _

end Constant

theorem substituteConstants_append_cons {c : Char} (apart : isWordChar c = false)
    (left right : Text) :
    substituteConstants (left ++ c :: right) =
      substituteConstants left ++ c :: substituteConstants right :=
  Constant.substituteEachBy_append_cons Decimal.write apart Constant.exists_functionName left right

theorem Constant.substituteEach_of_isAbsent {constants : List Constant}
    (listed : ∀ constant ∈ constants, constant ∈ all) {text : Text}
    (absent : ∀ name : FunctionName, (∃ constant ∈ constants, name.text = constant.name.toList) →
      name.IsAbsent false text) : substituteEach constants text = text := by
  induction constants with
  | nil => rfl
  | cons constant constants ih =>
      obtain ⟨name, spelled⟩ := exists_functionName constant (listed constant List.mem_cons_self)
      rw [← substituteEachBy_write, substituteEachBy_cons Decimal.write constant constants spelled,
        FunctionName.replaceBy_of_isAbsent _ (absent name ⟨constant, List.mem_cons_self, spelled⟩)]
      refine ih (fun other later => listed other (List.mem_cons_of_mem _ later)) ?_
      rintro other ⟨known, later, spelled⟩
      exact absent other ⟨known, List.mem_cons_of_mem _ later, spelled⟩

theorem Constant.substituteEach_of_notStart {constants : List Constant}
    (listed : ∀ constant ∈ constants, constant ∈ all)
    {text : Text} (notStart : ∀ c ∈ text, Head.isNameStart c = false) :
    substituteEach constants text = text :=
  substituteEach_of_isAbsent listed fun name _ => name.isAbsent_of_notStart notStart false

theorem substituteConstants_of_notStart {text : Text}
    (notStart : ∀ c ∈ text, Head.isNameStart c = false) :
    substituteConstants text = text :=
  Constant.substituteEach_of_notStart (fun _ member => member) notStart

theorem substituteConstants_name : ∀ constant ∈ Constant.all,
    substituteConstants constant.name.toList = Decimal.write constant.value := by
  decide +kernel

theorem substituteConstants_of_ne {name : FunctionName}
    (different : ∀ constant ∈ Constant.all, name.text ≠ constant.name.toList) :
    substituteConstants name.text = name.text := by
  refine Constant.substituteEach_of_isAbsent (fun _ member => member) ?_
  rintro known ⟨constant, listed, spelled⟩
  have members : ∀ c ∈ name.text, isWordChar c = true :=
    fun c member => Head.isWordChar_of_isNameChar (name.forall_mem_text c member)
  exact known.isAbsent_of_ne members (spelled ▸ different constant listed)

end QuantityFormula
