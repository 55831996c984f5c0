import QuantityFormula.Proofs.ConstantPlaces

/-!
Constants as whole words. A word of a text is a longest run of word characters, of letters, marks
and digits of every script. Replacing the constants one after another is the same as one replacement
of all words at once: a word that is the name of a constant by the number of that constant, and
every other word by itself. No number holds a name, so neither the order of the constants nor a
second replacement makes a difference.
-/

set_option autoImplicit false

namespace QuantityFormula

open Text

/-! ### Words of a text -/

namespace Text

/-- A text cut into its words, each a longest run of word characters, and the single
characters between them. -/
def cutWords (text : Text) : List Text :=
  text.splitBy fun left right => isWordChar left && isWordChar right

def mapWords (replace : Text → Text) (text : Text) : Text :=
  (cutWords text).flatMap fun piece => if startsWithWord piece = true then replace piece else piece

def IsWord (word : Text) : Prop :=
  word ≠ [] ∧ ∀ c ∈ word, isWordChar c = true

theorem IsWord.startsWithWord {word : Text} (isWord : IsWord word) :
    startsWithWord word = true := by
  obtain ⟨nonempty, members⟩ := isWord
  cases word with
  | nil => exact absurd rfl nonempty
  | cons c rest => exact members c List.mem_cons_self

theorem cutWords_word {word : Text} (isWord : IsWord word) : cutWords word = [word] := by
  obtain ⟨nonempty, members⟩ := isWord
  have together : ∀ c ∈ word, ∀ d ∈ word, (isWordChar c && isWordChar d) = true := by
    intro c first d second
    rw [members c first, members d second]
    rfl
  have chain : word.IsChain fun c d => (isWordChar c && isWordChar d) = true :=
    (List.pairwise_of_forall_mem_list together).isChain
  exact List.splitBy_of_isChain nonempty chain

/-- All about the words of a text follows from this: they are parted by every other character. -/
theorem cutWords_append_cons {c : Char} (apart : isWordChar c = false) (left right : Text) :
    cutWords (left ++ c :: right) = cutWords left ++ [c] :: cutWords right := by
  have parted (front behind : Text)
      (sides : ∀ d ∈ front.getLast?, ∀ e ∈ behind.head?, (isWordChar d && isWordChar e) = false) :
      cutWords (front ++ behind) = cutWords front ++ cutWords behind :=
    List.splitBy_append sides
  rw [parted left (c :: right), ← List.singleton_append, parted [c] right]
  · rfl
  · intro d last e _
    have same : c = d := Option.some.inj last
    rw [← same, apart, Bool.false_and]
  · intro d _ e first
    have same : c = e := Option.some.inj first
    rw [← same, apart, Bool.and_false]

variable (replace : Text → Text)

theorem mapWords_word {word : Text} (isWord : IsWord word) :
    mapWords replace word = replace word := by
  rw [mapWords, cutWords_word isWord, List.flatMap_singleton, if_pos isWord.startsWithWord]

theorem mapWords_append_cons {c : Char} (apart : isWordChar c = false) (left right : Text) :
    mapWords replace (left ++ c :: right) =
      mapWords replace left ++ c :: mapWords replace right := by
  have kept : ¬startsWithWord [c] = true := Bool.eq_false_iff.mp apart
  rw [mapWords, cutWords_append_cons apart, List.flatMap_append, List.flatMap_cons, if_neg kept]
  rfl

theorem wordInduction {motive : Text → Prop} (nothing : motive [])
    (word : ∀ word, IsWord word → motive word)
    (parted : ∀ left c right, isWordChar c = false → motive left → motive right →
      motive (left ++ c :: right))
    (text : Text) : motive text := by
  induction size : text.length using Nat.strongRecOn generalizing text with
  | ind length ih =>
      by_cases members : ∀ c ∈ text, isWordChar c = true
      · cases text with
        | nil => exact nothing
        | cons c rest => exact word _ ⟨List.cons_ne_nil c rest, members⟩
      · push Not at members
        obtain ⟨c, member, apart⟩ := members
        obtain ⟨left, right, rfl⟩ := List.append_of_mem member
        rw [List.length_append, List.length_cons] at size
        refine parted left c right (Bool.eq_false_iff.mpr apart) ?_ ?_
        · exact ih left.length (by omega) left rfl
        · exact ih right.length (by omega) right rfl

private theorem mapWords_congr {replace other : Text → Text}
    (same : ∀ word, IsWord word → replace word = other word)
    (text : Text) : mapWords replace text = mapWords other text := by
  induction text using wordInduction with
  | nothing => rfl
  | word word isWord =>
      rw [mapWords_word replace isWord, mapWords_word other isWord, same word isWord]
  | parted left c right apart ihLeft ihRight =>
      rw [mapWords_append_cons replace apart, mapWords_append_cons other apart, ihLeft, ihRight]

private theorem mapWords_id (text : Text) : mapWords id text = text := by
  induction text using wordInduction with
  | nothing => rfl
  | word word isWord => exact mapWords_word id isWord
  | parted left c right apart ihLeft ihRight => rw [mapWords_append_cons id apart, ihLeft, ihRight]

/-- What is put in for a word is replaced by itself: it is joined to nothing around it. -/
theorem mapWords_mapWords (first second : Text → Text) (text : Text) :
    mapWords second (mapWords first text) =
      mapWords (fun word => mapWords second (first word)) text := by
  induction text using wordInduction with
  | nothing => rfl
  | word word isWord => rw [mapWords_word _ isWord, mapWords_word _ isWord]
  | parted left c right apart ihLeft ihRight =>
      rw [mapWords_append_cons _ apart, mapWords_append_cons _ apart,
        mapWords_append_cons _ apart, ihLeft, ihRight]

end Text

/-! ### Words that are names of constants -/

private theorem FunctionName.replaceBy_eq_mapWords (name : FunctionName) (replacement text : Text) :
    name.replaceBy replacement false text =
      mapWords (fun word => if word = name.text then replacement else word) text := by
  induction text using wordInduction with
  | nothing => rfl
  | word word isWord =>
      rw [mapWords_word _ isWord]
      by_cases named : word = name.text
      · have ends : startsWithWord [] = false := rfl
        have found := name.replaceBy_name replacement ends
        rw [List.append_nil] at found
        rw [if_pos named, named, found]
        exact List.append_nil replacement
      · rw [if_neg named, FunctionName.replaceBy_of_isAbsent replacement
          (name.isAbsent_of_ne isWord.2 named)]
  | parted left c right apart ihLeft ihRight =>
      rw [name.replaceBy_append_cons replacement apart, mapWords_append_cons _ apart, ihLeft,
        ihRight]

namespace Constant

def ofWord? (constants : List Constant) (word : Text) : Option Constant :=
  constants.find? fun constant => constant.name.toList == word

def wordText (constants : List Constant) (word : Text) : Text :=
  match ofWord? constants word with
  | some constant => Decimal.write constant.value
  | none => word

private theorem wordText_cons (constant : Constant) (constants : List Constant) (word : Text) :
    wordText (constant :: constants) word =
      if word = constant.name.toList then Decimal.write constant.value
        else wordText constants word := by
  unfold wordText ofWord?
  rw [List.find?_cons]
  by_cases named : word = constant.name.toList
  · rw [if_pos named, named, beq_self_eq_true]
  · rw [if_neg named, beq_eq_false_iff_ne.mpr (Ne.symm named)]

theorem isNameStart_write {constant : Constant} (listed : constant ∈ all) :
    ∀ c ∈ Decimal.write constant.value, Head.isNameStart c = false := by
  have written : ∀ constant ∈ all,
      ((Decimal.write constant.value).all fun c => !Head.isNameStart c) = true := by
    decide +kernel
  intro c member
  have spared := List.all_eq_true.mp (written constant listed) c member
  rwa [Bool.not_eq_true'] at spared

/-- Constants replaced one after another are replaced word by word. -/
theorem substituteEach_eq_mapWords {constants : List Constant}
    (listed : ∀ constant ∈ constants, constant ∈ all)
    (text : Text) : substituteEach constants text = mapWords (wordText constants) text := by
  induction constants generalizing text with
  | nil => exact (mapWords_id text).symm
  | cons constant constants ih =>
      have member := listed constant List.mem_cons_self
      have listedBehind : ∀ other ∈ constants, other ∈ all :=
        fun other later => listed other (List.mem_cons_of_mem _ later)
      obtain ⟨name, spelled⟩ := exists_functionName constant member
      rw [← substituteEachBy_write, substituteEachBy_cons Decimal.write constant constants spelled,
        substituteEachBy_write, ih listedBehind, name.replaceBy_eq_mapWords, mapWords_mapWords]
      apply mapWords_congr
      intro word isWord
      rw [wordText_cons, spelled]
      split
      · -- The number of the constant is a text in which no later one is found.
        rw [← ih listedBehind]
        exact substituteEach_of_notStart listedBehind (isNameStart_write member)
      · exact mapWords_word _ isWord

/-- Constants with different names are found in any order. -/
theorem ofWord?_of_perm {constants others : List Constant} (perm : constants.Perm others)
    (distinct : (constants.map Constant.name).Nodup) (word : Text) :
    ofWord? constants word = ofWord? others word := by
  unfold ofWord?
  induction perm with
  | nil => rfl
  | cons constant perm ih =>
      rw [List.map_cons, List.nodup_cons] at distinct
      rw [List.find?_cons, List.find?_cons, ih distinct.2]
  | swap first second rest =>
      rw [List.map_cons, List.map_cons, List.nodup_cons] at distinct
      rw [List.find?_cons, List.find?_cons, List.find?_cons, List.find?_cons]
      by_cases firstNamed : first.name.toList == word
      · have secondNamed : (second.name.toList == word) = false := by
          rw [beq_eq_false_iff_ne]
          intro named
          have same : second.name = first.name :=
            String.toList_inj.mp (named.trans (beq_iff_eq.mp firstNamed).symm)
          exact distinct.1 (same ▸ List.mem_cons_self)
        rw [firstNamed, secondNamed]
      · rw [Bool.eq_false_iff.mpr firstNamed]
  | trans perm perm' ih ih' =>
      have distinctBetween := (perm.map Constant.name).nodup_iff.mp distinct
      exact (ih distinct).trans (ih' distinctBetween)

end Constant

/-! ### Main result -/

/-- Replacing the constants is one replacement of all words at once, the same in any order of the
constants and the same when it is done again. -/
theorem substituteConstants_eq_mapWords (text : Text) :
    substituteConstants text = mapWords (Constant.wordText Constant.all) text ∧
      (∀ constants : List Constant, constants.Perm Constant.all →
        Constant.substituteEach constants text = substituteConstants text) ∧
      substituteConstants (substituteConstants text) = substituteConstants text := by
  have atOnce (text : Text) :
      substituteConstants text = mapWords (Constant.wordText Constant.all) text :=
    Constant.substituteEach_eq_mapWords (fun _ member => member) text
  refine ⟨atOnce text, ?_, ?_⟩
  · intro constants perm
    have distinct : (Constant.all.map Constant.name).Nodup := by decide +kernel
    have distinctHere := (perm.map Constant.name).nodup_iff.mpr distinct
    rw [Constant.substituteEach_eq_mapWords (fun constant member => perm.mem_iff.mp member), atOnce]
    apply mapWords_congr
    intro word _
    rw [Constant.wordText, Constant.ofWord?_of_perm perm distinctHere]
    rfl
  · rw [atOnce text, atOnce, mapWords_mapWords]
    apply mapWords_congr
    intro word isWord
    cases found : Constant.ofWord? Constant.all word with
    | none =>
        have itself : Constant.wordText Constant.all word = word := by rw [Constant.wordText, found]
        rw [itself, mapWords_word _ isWord, itself]
    | some constant =>
        have listed : constant ∈ Constant.all := List.mem_of_find?_eq_some found
        have number : Constant.wordText Constant.all word = Decimal.write constant.value := by
          rw [Constant.wordText, found]
        rw [number, ← atOnce, substituteConstants_of_notStart (Constant.isNameStart_write listed)]

def mixedWords : Text :=
  "PI.E+E2*πE PI".toList

theorem substituteConstants_eq_mapWords_reversed :
    Constant.all.reverse.Perm Constant.all ∧
      Constant.substituteEach Constant.all.reverse mixedWords =
        "3.141592653589793.2.718281828459045+E2*πE 3.141592653589793".toList := by
  have perm : Constant.all.reverse.Perm Constant.all := List.reverse_perm _
  refine ⟨perm, ?_⟩
  rw [(substituteConstants_eq_mapWords mixedWords).2.1 _ perm]
  decide +kernel

end QuantityFormula
