import QuantityFormula.Engine
import QuantityFormula.Proofs.Blanks
import QuantityFormula.Proofs.Inlining
import QuantityFormula.Proofs.Invocation
import QuantityFormula.Proofs.QuotedTexts
import QuantityFormula.Proofs.Validation
import QuantityFormula.Proofs.WholeWords

/-!
Constants behind bindings. The number that is bound to the name of a constant goes in for the name
before the constants are replaced, so with every constant bound there is none left in the formula.
There are two ways past that. A dotted word is looked up as a whole, but a dot ends a word of the
constants. And a bound text may hold anything. Without such a word and such a text the replacement
of the constants changes nothing.
-/

set_option autoImplicit false

namespace QuantityFormula

open Text

/-! ### Names that are absent -/

namespace FunctionName

variable {name : FunctionName} {afterWord : Bool}

private theorem stands_text (name : FunctionName) : name.Stands false name.text := by
  have stands := @stands_append name [] rfl
  rwa [List.append_nil] at stands

private theorem IsAbsent.of_false {text : Text} (absent : name.IsAbsent false text) :
    name.IsAbsent afterWord text := by
  cases afterWord with
  | false => exact absent
  | true =>
      cases text with
      | nil => trivial
      | cons c text => exact ⟨fun stands => Bool.false_ne_true stands.1.symm, absent.2⟩

theorem IsAbsent.fresh {text : Text} (notStart : ∀ c ∈ text.head?, Head.isNameStart c = false)
    (absent : name.IsAbsent true text) : name.IsAbsent false text := by
  cases text with
  | nil => trivial
  | cons c text => exact ⟨name.not_stands_of_not_isNameStart (notStart c rfl) false text, absent.2⟩

/-- A name of letters alone is not put together from the end of a text and what follows, if what
follows does not begin as a name does. -/
private theorem Stands.of_append (letters : ∀ c ∈ name.text, Head.isNameStart c = true)
    {left right : Text} (notStart : ∀ c ∈ right.head?, Head.isNameStart c = false)
    (stands : name.Stands afterWord (left ++ right)) :
    name.Stands afterWord left := by
  obtain ⟨rfl, rest, whole, ends⟩ := name.exists_of_stands stands
  rcases List.append_eq_append_iff.mp whole with ⟨further, named, rfl⟩ | ⟨inside, rfl, rfl⟩
  · cases further with
    | nil =>
        rw [List.append_nil] at named
        rw [← named]
        exact name.stands_text
    | cons c further =>
        have letter := letters c (by rw [named]; simp)
        rw [notStart c rfl] at letter
        cases letter
  · refine name.stands_append ?_
    cases inside with
    | nil => rfl
    | cons c inside => exact ends

theorem IsAbsent.append (letters : ∀ c ∈ name.text, Head.isNameStart c = true) {left right : Text}
    (notStart : ∀ c ∈ right.head?, Head.isNameStart c = false)
    (front : name.IsAbsent afterWord left)
    (behind : name.IsAbsent (Head.continuesWord afterWord left) right) :
    name.IsAbsent afterWord (left ++ right) := by
  induction left generalizing afterWord with
  | nil => exact behind
  | cons c left ih =>
      exact ⟨fun stands => front.1 (stands.of_append letters notStart), ih front.2 behind⟩

private theorem isAbsent_append_cons {c : Char} (apart : isWordChar c = false) {left right : Text} :
    name.IsAbsent afterWord (left ++ c :: right) ↔
      name.IsAbsent afterWord left ∧ name.IsAbsent false right := by
  induction left generalizing afterWord with
  | nil =>
      have notStart := Head.isNameStart_eq_false (Head.isNameChar_eq_false apart)
      have elsewhere := name.not_stands_of_not_isNameStart notStart afterWord right
      change (_ ∧ name.IsAbsent (isWordChar c) right) ↔ True ∧ _
      rw [apart]
      exact and_congr_left' (iff_true_intro elsewhere)
  | cons d left ih =>
      change (¬name.Stands afterWord (d :: left ++ c :: right) ∧
          name.IsAbsent _ (left ++ c :: right)) ↔
        (¬name.Stands afterWord (d :: left) ∧ name.IsAbsent _ left) ∧ _
      rw [name.stands_append_cons apart, ih, and_assoc]

private theorem mem_cutWords_append_cons (name : FunctionName) {c : Char}
    (apart : isWordChar c = false) {left right : Text} :
    name.text ∈ cutWords (left ++ c :: right) ↔
      name.text ∈ cutWords left ∨ name.text ∈ cutWords right := by
  have different : name.text ≠ [c] := by
    intro same
    have member := name.forall_mem_text c (by rw [same]; exact List.mem_singleton_self c)
    rw [Head.isNameChar_eq_false apart] at member
    cases member
  rw [cutWords_append_cons apart, List.mem_append, List.mem_cons, or_iff_right different]

/-- A name is absent from a text if it is none of its words. -/
theorem isAbsent_iff (name : FunctionName) (text : Text) :
    name.IsAbsent false text ↔ name.text ∉ cutWords text := by
  induction text using wordInduction with
  | nothing => exact iff_of_true trivial List.not_mem_nil
  | word word isWord =>
      rw [cutWords_word isWord, List.mem_singleton]
      constructor
      · rintro absent rfl
        exact absent.1 name.stands_text
      · exact fun different => name.isAbsent_of_ne isWord.2 (Ne.symm different)
  | parted left c right apart ihLeft ihRight =>
      rw [isAbsent_append_cons apart, ihLeft, ihRight, name.mem_cutWords_append_cons apart, not_or]

end FunctionName

/-! ### Texts without a constant -/

def Text.IsConstantFree (text : Text) : Prop :=
  ∀ constant ∈ Constant.all, constant.name.toList ∉ cutWords text

instance (text : Text) : Decidable text.IsConstantFree :=
  inferInstanceAs (Decidable (∀ constant ∈ Constant.all, constant.name.toList ∉ cutWords text))

def FunctionName.IsConstant (name : FunctionName) : Prop :=
  ∃ constant ∈ Constant.all, name.text = constant.name.toList

private theorem isConstantFree_iff {text : Text} :
    text.IsConstantFree ↔ ∀ name : FunctionName, name.IsConstant → name.IsAbsent false text := by
  constructor
  · rintro free name ⟨constant, listed, spelled⟩
    rw [name.isAbsent_iff, spelled]
    exact free constant listed
  · intro absent constant listed
    obtain ⟨name, spelled⟩ := Constant.exists_functionName constant listed
    rw [← spelled, ← name.isAbsent_iff]
    exact absent name ⟨constant, listed, spelled⟩

/-- No constant is left by the replacement of the constants, not even in the
numbers that it puts in. -/
theorem isConstantFree_substituteConstants (text : Text) :
    (substituteConstants text).IsConstantFree := by
  intro constant listed
  obtain ⟨name, spelled⟩ := Constant.exists_functionName constant listed
  rw [substituteConstants, Constant.substituteEach_eq_mapWords fun _ member => member, ← spelled]
  induction text using wordInduction with
  | nothing => exact List.not_mem_nil
  | word word isWord =>
      rw [mapWords_word _ isWord]
      unfold Constant.wordText
      split
      · rename_i known found
        have notStart := Constant.isNameStart_write (List.mem_of_find?_eq_some found)
        exact (name.isAbsent_iff _).mp (name.isAbsent_of_notStart notStart false)
      · rename_i unknown
        have different := List.find?_eq_none.mp unknown constant listed
        rw [cutWords_word isWord, List.mem_singleton, spelled, ← beq_iff_eq]
        exact different
  | parted left c right apart ihLeft ihRight =>
      rw [mapWords_append_cons _ apart, name.mem_cutWords_append_cons apart, not_or]
      exact ⟨ihLeft, ihRight⟩

/-- The replacement of the constants changes a text if and only if the name of
one is a word of the text. -/
theorem substituteConstants_eq_self_iff {text : Text} :
    substituteConstants text = text ↔ text.IsConstantFree := by
  constructor
  · intro unchanged
    rw [← unchanged]
    exact isConstantFree_substituteConstants text
  · exact fun free => Constant.substituteEach_of_isAbsent (fun _ member => member)
      (isConstantFree_iff.mp free)

/-! ### Bare words -/

theorem isWordChar_of_isNameChar {c : Char} (named : isNameChar c = true) (notDot : c ≠ '.') :
    isWordChar c = true := by
  rw [isNameChar, beq_eq_false_iff_ne.mpr notDot, Bool.or_false, Bool.or_eq_true,
    beq_iff_eq] at named
  rcases named with letter | rfl
  · have ascii : c.toNat < 128 := by
      unfold Char.toNat
      grind [Char.isAlphanum, Char.isAlpha, Char.isUpper, Char.isLower, Char.isDigit,
        UInt32.le_iff_toNat_le]
    rw [isWordChar, if_pos ascii, letter, Bool.true_or]
  · rfl

namespace VariableName

private theorem isWord_text {name : VariableName} (undotted : '.' ∉ name.text) : IsWord name.text :=
  ⟨List.cons_ne_nil _ _, fun c member =>
    isWordChar_of_isNameChar (name.forall_mem_text c member) (ne_of_mem_of_not_mem member undotted)⟩

/-- What follows a name that can stand bare follows a word. -/
theorem continuesWord_text {name : VariableName} (bare : name.CanStandBare) :
    Head.continuesWord false name.text = true := by
  have first : isWordChar name.first = true := by
    refine isWordChar_of_isNameChar (isNameChar_of_isNameStart name.start) ?_
    intro dot
    have start := name.start
    rw [dot] at start
    cases start
  rw [text, Head.continuesWord, List.foldl_cons]
  rcases List.eq_nil_or_concat name.rest with nothing | ⟨front, last, ending⟩
  · rw [nothing]
    exact first
  · rw [CanStandBare, ending, List.concat_eq_append, List.getLast?_concat] at bare
    have lastNamed := name.following last (by rw [ending]; simp)
    rw [ending, List.concat_eq_append, List.foldl_append]
    exact isWordChar_of_isNameChar lastNamed fun same => bare (congrArg some same)

end VariableName

private theorem exists_label_of_place {text : Text} {place : Text × Text}
    (member : place ∈ (text.cutsBy bareWordRule).places) :
    ∃ label : VariableName, label.text = place.2 := by
  refine Cuts.forall_places_scan bareWordRule (fun word => ∃ label : VariableName,
    label.text = word) ?_ false 0 text
    place member
  intro afterWord text word more found
  obtain ⟨_, label, _, _, spelled, _⟩ := exists_of_bareWordRule found
  exact ⟨label, spelled⟩

private theorem bareWordRule_eq_none_iff {afterWord : Bool} {c : Char} {text : Text} :
    bareWordRule afterWord (c :: text) = none ↔ afterWord = true ∨ isNameStart c = false := by
  rw [bareWordRule]
  cases afterWord <;> cases isNameStart c <;> simp

/-- Induction along the bare words of a text: it goes on behind a word, or behind a
character that begins none. -/
theorem bareWordInduction {motive : Bool → Text → Cuts Text → Prop}
    (nil : ∀ afterWord, motive afterWord [] ⟨[], []⟩)
    (keep : ∀ afterWord c text cuts, afterWord = true ∨ isNameStart c = false →
      motive (isWordChar c) text cuts →
      motive afterWord (c :: text) (cuts.keep c))
    (word : ∀ (name : VariableName) rest, name.CanStandBare →
      (∀ c ∈ rest.head?, isNameStart c = false) →
      motive true rest (Cuts.scan bareWordRule true 0 rest) →
        motive false (name.text ++ rest) ((Cuts.scan bareWordRule true 0 rest).found name.text))
    (afterWord : Bool) (text : Text) :
    motive afterWord text (Cuts.scan bareWordRule afterWord 0 text) := by
  -- By the length of the text: a word that is found is passed over as a whole.
  induction size : text.length using Nat.strongRecOn generalizing afterWord text with
  | ind length ih =>
      cases text with
      | nil => exact nil afterWord
      | cons c text =>
          rw [Cuts.scan]
          cases found : bareWordRule afterWord (c :: text) with
          | none => exact keep _ _ _ _ (bareWordRule_eq_none_iff.mp found) (ih _
            (by simp at size; omega) _ text rfl)
          | some place =>
              obtain ⟨label, more⟩ := place
              obtain ⟨rfl, name, rest, bare, rfl, rfl, whole, ends⟩ := exists_of_bareWordRule found
              obtain ⟨rfl, rfl⟩ := List.cons.inj whole
              have passed : Cuts.scan bareWordRule (isWordChar name.first) name.rest.length
                  (name.rest ++ rest) =
                  Cuts.scan bareWordRule true 0 rest := by
                rw [Cuts.scan_taken]
                exact congrArg (Cuts.scan bareWordRule · 0 rest) (name.continuesWord_text bare)
              change motive false (name.text ++ rest)
                ((Cuts.scan bareWordRule (isWordChar name.first) name.rest.length
                  (name.rest ++ rest)).found name.text)
              rw [passed]
              exact word name rest bare ends (ih _ (by simp at size; omega) true rest rfl)

/-! ### Texts put in for bare words -/

private theorem Head.isNameStart_of_variable {c : Char}
    (other : QuantityFormula.isNameStart c = false) : isNameStart c = false :=
  Bool.eq_false_iff.mpr fun starts => Bool.eq_false_iff.mp other (isNameStart_of_head starts)

private theorem head?_fill_scan (replacement : Text → Text) (text : Text) :
    ((Cuts.scan bareWordRule true 0 text).fill replacement).head? = text.head? := by
  cases text with
  | nil => rfl
  | cons c text =>
      have nothing : bareWordRule true (c :: text) = none := bareWordRule_eq_none_iff.mpr (.inl rfl)
      rw [Cuts.scan, nothing]
      dsimp only
      rw [Cuts.fill_keep]
      rfl

/-- What is put in for a word begins no name, or it is the word itself and the
name is absent from it. -/
def FunctionName.IsSpared (name : FunctionName) (replacement : Text → Text) (word : Text) : Prop :=
  (∀ c ∈ replacement word, Head.isNameStart c = false) ∨
    replacement word = word ∧ name.IsAbsent false word

private theorem FunctionName.isAbsent_fill {name : FunctionName}
    (letters : ∀ c ∈ name.text, Head.isNameStart c = true)
    {replacement : Text → Text} (afterWord : Bool) (text : Text) :
    (∀ place ∈ (Cuts.scan bareWordRule afterWord 0 text).places,
      name.IsSpared replacement place.2) →
      name.IsAbsent afterWord ((Cuts.scan bareWordRule afterWord 0 text).fill replacement) := by
  induction afterWord, text using bareWordInduction with
  | nil => exact fun _ => trivial
  | keep afterWord c text cuts elsewhere ih =>
      intro spared
      rw [Cuts.fill_keep]
      refine ⟨fun stands => ?_, ih ((Cuts.forall_places_keep _ c cuts).mp spared)⟩
      rcases elsewhere with rfl | notStart
      · cases stands.1
      · exact name.not_stands_of_not_isNameStart (Head.isNameStart_of_variable notStart) _ _ stands
  | word label rest bare ends ih =>
      intro spared
      have behind := ih fun place later => spared place (List.mem_cons_of_mem _ later)
      have notStart : ∀ c ∈ (Cuts.fill replacement (Cuts.scan bareWordRule true 0 rest)).head?,
          Head.isNameStart c = false := by
        rw [head?_fill_scan]
        exact fun c first => Head.isNameStart_of_variable (ends c first)
      rw [Cuts.fill_found]
      rcases spared ([], label.text) List.mem_cons_self with begins | ⟨itself, absent⟩
      · exact name.isAbsent_append_of_notStart begins (behind.fresh notStart).of_false
      · rw [itself]
        refine absent.append letters notStart ?_
        rw [label.continuesWord_text bare]
        exact behind

private theorem eq_of_inlineWord {bindings : Bindings} {word part : Text}
    (inlined : inlineWord bindings word = .ok part) :
    part = bindings.inlined word ∧ ∀ x, bindings.number? word = some x → x.isFinite = true := by
  unfold inlineWord at inlined
  unfold Bindings.inlined
  cases bound : bindings.number? word with
  | none =>
      rw [bound] at inlined
      cases inlined
      exact ⟨rfl, nofun⟩
  | some x =>
      rw [bound] at inlined
      obtain ⟨finite, rfl⟩ := exists_of_inlineFinite inlined
      exact ⟨rfl, fun y same => Option.some.inj same ▸ finite⟩

/-- The bare words of a text are replaced by their numbers, and all of these are finite. -/
theorem eq_fill_of_substituteWords {bindings : Bindings} {text result : Text}
    (substituted : substituteWords bindings text = .ok result) :
    result = (text.cutsBy bareWordRule).fill bindings.inlined ∧
      ∀ place ∈ (text.cutsBy bareWordRule).places,
        ∀ x, bindings.number? place.2 = some x → x.isFinite = true := by
  obtain ⟨parts, replaced, same⟩ := exists_of_bind_eq_ok substituted
  cases same
  constructor
  · have equality : IsExchange Eq :=
      ⟨fun _ => rfl, Eq.trans, fun left right => congrArg₂ _ left right⟩
    refine congrArg (· ++ (text.cutsBy bareWordRule).rest)
      (equality.flatten bindings.inlined replaced ?_).symm
    intro place _ part single
    obtain ⟨word, inlined, same⟩ := exists_of_bind_eq_ok single
    cases same
    rw [(eq_of_inlineWord inlined).1]
  · intro place member
    obtain ⟨part, single⟩ := exists_of_mapM_eq_ok replaced place member
    obtain ⟨word, inlined, _⟩ := exists_of_bind_eq_ok single
    exact (eq_of_inlineWord inlined).2

/-! ### Formulas without a constant -/

def Text.bareWords (text : Text) : List Text :=
  (text.cutsBy bareWordRule).places.map Prod.snd

def bareWordsOf (formula : Text) : List Text :=
  (references formula).places.flatMap (fun place => place.1.bareWords) ++
    (references formula).rest.bareWords

def Bindings.ShadowConstants (bindings : Bindings) : Prop :=
  ∀ constant ∈ Constant.all, ∃ x, bindings.number? constant.name.toList = some x ∧ x.isFinite = true

theorem FunctionName.IsConstant.letters {name : FunctionName} (known : name.IsConstant) :
    ∀ c ∈ name.text, Head.isNameStart c = true := by
  have letters : ∀ constant ∈ Constant.all, constant.name.toList.all Head.isNameStart = true := by
    decide +kernel
  obtain ⟨constant, listed, spelled⟩ := known
  rw [spelled]
  exact List.all_eq_true.mp (letters constant listed)

private theorem isConstantFree_append_cons {c : Char} (apart : isWordChar c = false)
    {left right : Text} :
    (left ++ c :: right).IsConstantFree ↔ left.IsConstantFree ∧ right.IsConstantFree := by
  simp only [isConstantFree_iff, FunctionName.isAbsent_append_cons apart]
  exact ⟨fun both => ⟨fun name known => (both name known).1, fun name known => (both name known).2⟩,
    fun ⟨front, behind⟩ name known => ⟨front name known, behind name known⟩⟩

/-- A number completes no name of a constant, neither with what stands in front of it nor
with what stands behind it. -/
private theorem isConstantFree_append_number {left number right : Text}
    (isNumber : IsNumberText number)
    (front : left.IsConstantFree) (behind : right.IsConstantFree) :
    (left ++ (number ++ right)).IsConstantFree := by
  rw [isConstantFree_iff] at front behind ⊢
  intro name known
  refine (front name known).append known.letters ?_
    (name.isAbsent_append_of_notStart isNumber.notStart (behind name known).of_false)
  intro c first
  rw [List.head?_append_of_ne_nil _ isNumber.nonempty] at first
  exact isNumber.notStart c (List.mem_of_mem_head? first)

section

variable {bindings : Bindings} (shadowed : bindings.ShadowConstants)
include shadowed

private theorem isAbsent_of_unbound {name : FunctionName} (known : name.IsConstant)
    {label : VariableName}
    (undotted : '.' ∉ label.text) (unbound : bindings.number? label.text = none) :
    name.IsAbsent false label.text := by
  refine name.isAbsent_of_ne (label.isWord_text undotted).2 fun same => ?_
  obtain ⟨constant, listed, spelled⟩ := known
  obtain ⟨x, bound, _⟩ := shadowed constant listed
  rw [← spelled, ← same, unbound] at bound
  cases bound

private theorem isConstantFree_substituteWords {text result : Text}
    (dotted : ∀ word ∈ text.bareWords, '.' ∈ word → bindings.number? word = none →
      word.IsConstantFree)
    (substituted : substituteWords bindings text = .ok result) : result.IsConstantFree := by
  obtain ⟨rfl, finite⟩ := eq_fill_of_substituteWords substituted
  rw [isConstantFree_iff]
  intro name known
  refine FunctionName.isAbsent_fill known.letters false text ?_
  intro place member
  cases numeric : bindings.number? place.2 with
  | some x =>
      left
      rw [Bindings.inlined, numeric]
      exact (IsNumberText.inlineNumber (finite place member x numeric)).notStart
  | none =>
      right
      refine ⟨by rw [Bindings.inlined, numeric]; rfl, ?_⟩
      by_cases dot : '.' ∈ place.2
      · exact isConstantFree_iff.mp
          (dotted place.2 (List.mem_map_of_mem member) dot numeric) name known
      · obtain ⟨label, spelled⟩ := exists_label_of_place member
        rw [← spelled] at dot numeric ⊢
        exact isAbsent_of_unbound shadowed known dot numeric

private theorem isConstantFree_substituteReference {before name part behind : Text}
    (dotted : ∀ word ∈ before.bareWords, '.' ∈ word → bindings.number? word = none →
      word.IsConstantFree)
    (texts : ∀ content, bindings.get? name = some (.text content) → content.IsConstantFree)
    (substituted : substituteReference bindings before name = .ok part)
    (free : behind.IsConstantFree) :
    (part ++ behind).IsConstantFree := by
  unfold substituteReference at substituted
  split at substituted
  · cases substituted
  · rename_i value bound
    obtain ⟨words, wordsSubstituted, substituted⟩ := exists_of_bind_eq_ok substituted
    obtain ⟨inlined, inlining, substituted⟩ := exists_of_bind_eq_ok substituted
    cases substituted
    have front := isConstantFree_substituteWords shadowed dotted wordsSubstituted
    rw [List.append_assoc]
    cases value with
    | number x =>
        obtain ⟨finite, rfl⟩ := exists_of_inlineFinite inlining
        exact isConstantFree_append_number (.inlineNumber finite) front free
    | text content =>
        cases inlining
        have apart : isWordChar '"' = false := rfl
        have shape : '"' :: content ++ ['"'] ++ behind = '"' :: (content ++ '"' :: behind) := by
          simp
        rw [shape, isConstantFree_append_cons apart, isConstantFree_append_cons apart]
        exact ⟨front, texts content bound, free⟩

private theorem isConstantFree_references {places : List (Text × Text)}
    {parts : List Text} {rest : Text}
    (dotted : ∀ place ∈ places,
      ∀ word ∈ place.1.bareWords, '.' ∈ word → bindings.number? word = none →
      word.IsConstantFree)
    (texts : ∀ place ∈ places, ∀ content, bindings.get? place.2 = some (.text content) →
      content.IsConstantFree)
    (replaced : (places.mapM fun place => substituteReference bindings place.1 place.2) = .ok parts)
    (free : rest.IsConstantFree) : IsConstantFree (parts.flatten ++ rest) := by
  induction places generalizing parts with
  | nil =>
      cases replaced
      exact free
  | cons place places ih =>
      rw [List.mapM_cons] at replaced
      obtain ⟨part, first, replaced⟩ := exists_of_bind_eq_ok replaced
      obtain ⟨others, later, replaced⟩ := exists_of_bind_eq_ok replaced
      cases replaced
      have behind := ih (fun other member => dotted other (List.mem_cons_of_mem _ member))
        (fun other member => texts other (List.mem_cons_of_mem _ member)) later
      rw [List.flatten_cons, List.append_assoc]
      exact isConstantFree_substituteReference shadowed (dotted place List.mem_cons_self)
        (texts place List.mem_cons_self) first behind

/-- With a number for every constant no constant is left in a formula, unless it stands in a dotted
word without a number or in a bound text. -/
theorem isConstantFree_substituteVariables {formula text : Text}
    (dotted : ∀ word ∈ bareWordsOf formula, '.' ∈ word → bindings.number? word = none →
      word.IsConstantFree)
    (texts : ∀ name ∈ referencedNames formula, ∀ content,
      bindings.get? name = some (.text content) → content.IsConstantFree)
    (substituted : substituteVariables formula bindings = .ok text) : text.IsConstantFree := by
  obtain ⟨parts, replaced, substituted⟩ := exists_of_bind_eq_ok substituted
  obtain ⟨rest, restSubstituted, same⟩ := exists_of_bind_eq_ok substituted
  cases same
  have behind := isConstantFree_substituteWords shadowed
    (fun word member => dotted word (List.mem_append_right _ member))
    restSubstituted
  refine isConstantFree_references shadowed (fun place member word inside => ?_)
    (fun place member => ?_) replaced behind
  · exact dotted word (List.mem_append_left _ (List.mem_flatMap.mpr ⟨place, member, inside⟩))
  · refine texts place.2 ?_
    rw [referencedNames, List.mem_eraseDups]
    exact List.mem_map_of_mem member

end

/-! ### Main result -/

private theorem substituteVariables_blank {formula : Text} (blank : isBlank formula = true)
    (bindings : Bindings) :
    substituteVariables formula bindings = .ok formula := by
  have separators := isSeparator_of_isBlank blank
  have unbraced : '{' ∉ formula :=
    fun member => (isSeparator_iff.mp (separators _ member)).2.2.1 rfl
  rw [substituteVariables_of_unbraced unbraced, substituteWords_of_notStart]
  exact fun c member => isNameStart_eq_false (isSeparator_iff.mp (separators c member)).2.1

private theorem Resolver.runFresh_evaluate_blank (maxPasses : Nat) {text : Text}
    (blank : isBlank text = true) :
    runFresh maxPasses (evaluate text) = .error (.malformed .noValue) := by
  have nothing := Head.all_append_of_notStart (Head.notStart_of_isBlank blank) false []
  rw [List.append_nil] at nothing
  have valued := Arithmetic.evaluate_blanks blank isBlank_nil []
  rw [List.append_nil, List.append_nil] at valued
  rw [runFresh, run_evaluate_of_none (Call.next?_eq_none_iff.mpr nothing), valued]
  rfl

/-- A number shadows the constant of the same name. With a number for every constant, the
replacement of the constants makes no difference to a formula in which no dotted bare word without a
number and no text of a referenced name has the name of a constant as a word. -/
theorem Engine.evaluate_skipping_constants {bindings : Bindings}
    (shadowed : bindings.ShadowConstants) {formula : Text}
    (dotted : ∀ word ∈ bareWordsOf formula, '.' ∈ word → bindings.number? word = none →
      word.IsConstantFree)
    (texts : ∀ name ∈ referencedNames formula, ∀ content,
      bindings.get? name = some (.text content) → content.IsConstantFree)
    (engine : Engine) (value : Float) :
    engine.evaluate formula bindings = .ok value ↔
      ∃ text, substituteVariables formula bindings = .ok text ∧
        Resolver.runFresh engine.maxPasses (Resolver.evaluate text) = .ok value := by
  unfold evaluate
  split
  · rename_i blank
    rw [substituteVariables_blank blank]
    refine iff_of_false nofun ?_
    rintro ⟨text, same, valued⟩
    cases same
    rw [Resolver.runFresh_evaluate_blank _ blank] at valued
    cases valued
  · cases substituted : substituteVariables formula bindings with
    | error fault => exact iff_of_false nofun fun ⟨text, same, _⟩ => nomatch same
    | ok text =>
        have free := isConstantFree_substituteVariables shadowed dotted texts substituted
        have unchanged : substituteConstants text = text := substituteConstants_eq_self_iff.mpr free
        change Resolver.runFresh engine.maxPasses (Resolver.evaluate (substituteConstants text)) =
          .ok value ↔ _
        rw [unchanged]
        constructor
        · exact fun valued => ⟨text, rfl, valued⟩
        · rintro ⟨_, ⟨⟩, valued⟩
          exact valued

def longerWords : Text :=
  "E2*πE".toList

def unitConstants : Bindings :=
  .bind ⟨Constant.all.map fun constant => (constant.name.toList, .number 1)⟩
    ['n'] (.text longerWords)

private theorem shadowConstants_unitConstants : unitConstants.ShadowConstants := by
  have bound : ∀ constant ∈ Constant.all, unitConstants.number? constant.name.toList = some 1 := by
    decide +kernel
  exact fun constant listed => ⟨1, bound constant listed, by decide +kernel⟩

def shadowedNames : Text :=
  "IFERROR({n} + a.PIE, PI * {E} + 2)".toList

theorem Engine.evaluate_skipping_constants_shadowedNames :
    unitConstants.ShadowConstants ∧
      (∀ word ∈ bareWordsOf shadowedNames, '.' ∈ word → unitConstants.number? word = none →
        word.IsConstantFree) ∧
      (∀ name ∈ referencedNames shadowedNames, ∀ content,
        unitConstants.get? name = some (.text content) → content.IsConstantFree) ∧
      ∃ text, substituteVariables shadowedNames unitConstants = .ok text ∧
        Resolver.runFresh standard.maxPasses (Resolver.evaluate text) = .ok 3 := by
  have dotted : ∀ word ∈ bareWordsOf shadowedNames, '.' ∈ word → unitConstants.number? word = none →
      word.IsConstantFree := by
    decide +kernel
  have texts : ∀ name ∈ referencedNames shadowedNames, ∀ content,
      unitConstants.get? name = some (.text content) → content.IsConstantFree := by
    have values : ∀ name ∈ referencedNames shadowedNames,
        unitConstants.get? name = some (.text longerWords) ∨
          unitConstants.get? name = some (.number 1) := by
      decide +kernel
    have free : longerWords.IsConstantFree := by decide +kernel
    intro name referenced content bound
    rcases values name referenced with text | number
    · rw [text] at bound
      cases bound
      exact free
    · rw [number] at bound
      cases bound
  have valued : standard.evaluate shadowedNames unitConstants = .ok 3 := by decide +kernel
  exact ⟨shadowConstants_unitConstants, dotted, texts,
    (Engine.evaluate_skipping_constants shadowConstants_unitConstants dotted texts standard 3).mp
      valued⟩

def dottedConstant : Text :=
  "IFERROR(STANDARD_SPACING.5, 7)".toList

theorem Engine.not_forall_evaluate_skipping_constants :
    ¬∀ (bindings : Bindings), bindings.ShadowConstants →
      ∀ (formula : Text) (engine : Engine) (value : Float),
        engine.evaluate formula bindings = .ok value ↔
          ∃ text, substituteVariables formula bindings = .ok text ∧
            Resolver.runFresh engine.maxPasses (Resolver.evaluate text) = .ok value := by
  intro same
  have valued : standard.evaluate dottedConstant unitConstants = .ok 600.5 := by decide +kernel
  obtain ⟨text, substituted, skipping⟩ :=
    (same unitConstants shadowConstants_unitConstants dottedConstant standard 600.5).mp valued
  have unchanged : substituteVariables dottedConstant unitConstants = .ok dottedConstant := by
    decide +kernel
  have fallback : Resolver.runFresh standard.maxPasses (Resolver.evaluate dottedConstant) =
      .ok 7 := by
    decide +kernel
  rw [unchanged] at substituted
  cases substituted
  rw [fallback] at skipping
  revert skipping
  decide +kernel

end QuantityFormula
