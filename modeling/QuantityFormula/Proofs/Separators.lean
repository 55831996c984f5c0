import QuantityFormula.Proofs.Outcome
import QuantityFormula.Proofs.Templates
import QuantityFormula.Proofs.Writing

/-!
Where a formula can be cut for the replacement of its names. A rule that looks for places in a text
is parted by a character if it finds in front of it what it finds with nothing behind. Operators,
parentheses, commas and blanks part the rules for references and for bare words, so what stands on
either side of them is replaced apart.
-/

set_option autoImplicit false

namespace QuantityFormula

open Text

variable {α : Type}

namespace Text

theorem takeWhile_append_cons {belongs : Char → Bool} {c : Char} (other : belongs c = false)
    (left right : Text) :
    (left ++ c :: right).takeWhile belongs = left.takeWhile belongs := by
  induction left with
  | nil => rw [List.nil_append, List.takeWhile_cons, other]; rfl
  | cons d left ih => rw [List.cons_append, List.takeWhile_cons, List.takeWhile_cons, ih]

theorem dropWhile_append_cons {belongs : Char → Bool} {c : Char} (other : belongs c = false)
    (left right : Text) :
    (left ++ c :: right).dropWhile belongs = left.dropWhile belongs ++ c :: right := by
  induction left with
  | nil => rw [List.nil_append, List.dropWhile_cons, other]; rfl
  | cons d left ih =>
      rw [List.cons_append, List.dropWhile_cons, List.dropWhile_cons]
      split
      · exact ih
      · rfl

/-- A rule is parted by a character if what it finds in front of it never depends on it
or on what stands behind. -/
structure PlaceRule.IsPartedBy (rule : PlaceRule α) (c : Char) : Prop where
  apart : isWordChar c = false
  same : ∀ afterWord left right, rule afterWord (left ++ c :: right) = rule afterWord left
  inside : ∀ {afterWord text place more},
    rule afterWord text = some (place, more) → more < text.length

namespace Cuts

private theorem behind_nil (cuts : Cuts α) : cuts.behind [] = cuts := by
  rcases cuts with ⟨_ | ⟨⟨before, label⟩, places⟩, rest⟩ <;> rfl

private theorem keep_append (c : Char) (left right : Cuts α) :
    (left.keep c).append right = (left.append right).keep c := by
  rcases left with ⟨_ | ⟨⟨before, label⟩, places⟩, rest⟩
  · rcases right with ⟨_ | ⟨⟨before, label⟩, places⟩, rest⟩ <;> rfl
  · rfl

private theorem found_append (label : α) (left right : Cuts α) :
    (left.found label).append right = (left.append right).found label :=
  rfl

variable {rule : PlaceRule α}

theorem scan_append_cons {c : Char} (parted : rule.IsPartedBy c) (afterWord : Bool)
    {taken : Nat} {left : Text} (fits : taken ≤ left.length) (right : Text) :
    scan rule afterWord taken (left ++ c :: right) =
      (scan rule afterWord taken left).append ((scan rule false 0 right).keep c) := by
  -- By the text in front: what is found in it ends in it, so the scan always
  -- comes to the character itself.
  induction left generalizing afterWord taken with
  | nil =>
      have nothing : rule afterWord (c :: right) = none := by
        rw [← List.nil_append (c :: right), parted.same, Option.eq_none_iff_forall_ne_some]
        intro place found
        exact absurd (parted.inside found) (Nat.not_lt_zero _)
      have start : taken = 0 := Nat.le_zero.mp fits
      subst start
      rw [List.nil_append, scan, scan, nothing, parted.apart]
      exact (behind_nil _).symm
  | cons d left ih =>
      cases taken with
      | succ taken => exact ih (isWordChar d) (Nat.le_of_succ_le_succ fits)
      | zero =>
          have same := parted.same afterWord (d :: left) right
          rw [List.cons_append] at same ⊢
          rw [scan, scan, same]
          cases found : rule afterWord (d :: left) with
          | none =>
              dsimp only
              rw [ih (isWordChar d) (Nat.zero_le _), keep_append]
          | some place =>
              dsimp only
              rw [ih (isWordChar d) (Nat.le_of_lt_succ (parted.inside found)), found_append]

theorem scan_eq_plain {text : Text}
    (nowhere : ∀ c ∈ text, ∀ afterWord following, rule afterWord (c :: following) = none)
    (afterWord : Bool) : scan rule afterWord 0 text = plain text := by
  induction text generalizing afterWord with
  | nil => rfl
  | cons c text ih =>
      rw [scan, nowhere c List.mem_cons_self,
        ih fun other member => nowhere other (List.mem_cons_of_mem _ member)]
      rfl

private theorem scan_length (afterWord : Bool) (text : Text) :
    scan rule afterWord text.length text = plain [] := by
  induction text generalizing afterWord with
  | nil => rfl
  | cons c text ih => exact ih (isWordChar c)

theorem cutsBy_eq_place {label : α} {c : Char} {text : Text}
    (whole : rule false (c :: text) = some (label, text.length)) :
    cutsBy rule (c :: text) = place label := by
  rw [cutsBy, scan, whole]
  dsimp only
  rw [scan_length]
  rfl

def replace (place : Text × α → Except Fault Text)
    (last : Text → Except Fault Text) (cuts : Cuts α) :
    Except Fault Text := do
  let parts ← cuts.places.mapM place
  return parts.flatten ++ (← last cuts.rest)

theorem replace_plain (place : Text × α → Except Fault Text)
    (last : Text → Except Fault Text) (text : Text) :
    (plain text).replace place last = last text := by
  change (do return [] ++ (← last text)) = last text
  cases last text <;> rfl

theorem replace_place (place : Text × α → Except Fault Text) {last : Text → Except Fault Text}
    (nothing : last [] = .ok [])
    (label : α) : (Cuts.place label).replace place last = place ([], label) := by
  change (do
    let parts ← [([], label)].mapM place
    return parts.flatten ++ (← last [])) = place ([], label)
  rw [List.mapM_cons, nothing]
  cases place ([], label) with
  | error fault => rfl
  | ok text => exact congrArg Except.ok (by simp)

/-- Where the texts between places are replaced apart at a character, so is the whole, if
what stands in front of the character can be replaced. If it cannot, a place behind the
character may fail first. -/
theorem replace_append_keep {place : Text × α → Except Fault Text}
    {last : Text → Except Fault Text} {c : Char}
    (lastApart : ∀ {front front'}, last front = .ok front' →
      ∀ text, last (front ++ c :: text) = (front' ++ c :: ·) <$> last text)
    (placeApart : ∀ {front front'}, last front = .ok front' →
      ∀ before label, place (front ++ c :: before, label) = (front' ++ c :: ·) <$>
        place (before, label))
    {left right : Cuts α} {left' : Text} (replaced : left.replace place last = .ok left') :
    (left.append (right.keep c)).replace place last = (left' ++ c :: ·) <$>
      right.replace place last := by
  obtain ⟨parts, placesReplaced, replaced⟩ := exists_of_bind_eq_ok replaced
  obtain ⟨rest', restReplaced, same⟩ := exists_of_bind_eq_ok replaced
  cases same
  -- The text behind the last place in front of the character goes on to the first
  -- place behind it, or to the end.
  rcases right with ⟨_ | ⟨⟨before, label⟩, places⟩, rest⟩
  · change (do
      let parts ← (left.places ++ []).mapM place
      return parts.flatten ++ (← last (left.rest ++ c :: rest))) =
        _ <$> (do return [] ++ (← last rest))
    rw [List.append_nil, placesReplaced, lastApart restReplaced]
    cases last rest with
    | error fault => rfl
    | ok text => exact congrArg Except.ok (List.append_assoc parts.flatten rest' (c :: text)).symm
  · change (do
      let parts ← (left.places ++ (left.rest ++ c :: before, label) :: places).mapM place
      return parts.flatten ++ (← last rest)) = _ <$> (do
        let parts ← ((before, label) :: places).mapM place
        return parts.flatten ++ (← last rest))
    rw [List.mapM_append, placesReplaced, List.mapM_cons, List.mapM_cons, placeApart restReplaced]
    cases place (before, label) with
    | error fault => rfl
    | ok first =>
        cases places.mapM place with
        | error fault => rfl
        | ok others =>
            cases last rest with
            | error fault => rfl
            | ok text => exact congrArg Except.ok (by simp)

end Cuts

end Text

/-! ### Separators -/

/-- A character that belongs to no word, to no name and to no reference. -/
def isSeparator (c : Char) : Bool :=
  !isWordChar c && !isNameChar c && c != '{' && c != '}'

theorem isSeparator_iff {c : Char} :
    isSeparator c = true ↔ isWordChar c = false ∧ isNameChar c = false ∧ c ≠ '{' ∧ c ≠ '}' := by
  simp [isSeparator, and_assoc]

theorem isSeparator_of_isBlankChar {c : Char}
    (blank : isBlankChar c = true) : isSeparator c = true :=
  of_isBlankChar (fun c => isSeparator c = true) (by decide +kernel) blank

/-! ### Names -/

theorem isNameChar_of_isNameStart {c : Char} (starts : isNameStart c = true) :
    isNameChar c = true := by
  unfold isNameStart at starts
  unfold isNameChar Char.isAlphanum
  rw [Bool.or_eq_true] at starts
  rcases starts with letter | underscore
  · rw [letter]
    rfl
  · rw [underscore, Bool.or_true, Bool.true_or]

theorem isNameStart_eq_false {c : Char} (unnamed : isNameChar c = false) :
    isNameStart c = false := by
  refine Bool.eq_false_iff.mpr fun starts => ?_
  rw [isNameChar_of_isNameStart starts] at unnamed
  cases unnamed

structure VariableName where
  first : Char
  rest : Text
  start : isNameStart first = true
  following : ∀ c ∈ rest, isNameChar c = true

namespace VariableName

def text (name : VariableName) : Text :=
  name.first :: name.rest

def CanStandBare (name : VariableName) : Prop :=
  name.rest.getLast? ≠ some '.'

instance (name : VariableName) : Decidable name.CanStandBare :=
  inferInstanceAs (Decidable (_ ≠ _))

theorem forall_mem_text (name : VariableName) : ∀ c ∈ name.text, isNameChar c = true := by
  intro c member
  rcases List.mem_cons.mp member with rfl | later
  · exact isNameChar_of_isNameStart name.start
  · exact name.following c later

end VariableName

private theorem exists_dots (run : Text) :
    ∃ dots, run = (run.reverse.dropWhile (· == '.')).reverse ++ dots ∧ (∀ c ∈ dots, c = '.') ∧
      (run.reverse.dropWhile (· == '.')).reverse.getLast? ≠ some '.' := by
  refine ⟨(run.reverse.takeWhile (· == '.')).reverse, ?_, ?_, ?_⟩
  · rw [← List.reverse_append, List.takeWhile_append_dropWhile, List.reverse_reverse]
  · intro c member
    exact beq_iff_eq.mp (List.all_eq_true.mp List.all_takeWhile c (List.mem_reverse.mp member))
  · rw [List.getLast?_reverse]
    intro dotted
    have other := List.head?_dropWhile_not (· == '.') run.reverse
    rw [dotted] at other
    cases other

/-- A bare word is a longest run of name characters without the dots at its end. -/
theorem exists_of_bareWordRule {afterWord : Bool} {text word : Text} {more : Nat}
    (found : bareWordRule afterWord text = some (word, more)) :
    afterWord = false ∧ ∃ (name : VariableName) (rest : Text),
      name.CanStandBare ∧ name.text = word ∧
      name.rest.length = more ∧ text = name.text ++ rest ∧ ∀ c ∈ rest.head?,
        isNameStart c = false := by
  unfold bareWordRule at found
  split at found
  · rename_i c following
    split at found
    · rename_i starts
      cases found
      rw [Bool.and_eq_true, Bool.not_eq_true'] at starts
      obtain ⟨dots, parts, areDots, bare⟩ := exists_dots (following.takeWhile isNameChar)
      generalize ((following.takeWhile isNameChar).reverse.dropWhile (· == '.')).reverse =
        further at parts bare ⊢
      have members : ∀ c ∈ further, isNameChar c = true := by
        intro c member
        refine List.all_eq_true.mp (@List.all_takeWhile _ isNameChar following) c ?_
        rw [parts]
        exact List.mem_append_left _ member
      have whole : following = further ++ (dots ++ following.dropWhile isNameChar) := by
        rw [← List.append_assoc, ← parts, List.takeWhile_append_dropWhile]
      refine ⟨starts.1, ⟨c, further, starts.2, members⟩, _, bare, rfl, rfl,
        congrArg (c :: ·) whole, ?_⟩
      -- Behind the name stands one of its dots or what ended the run.
      intro d first
      cases dots with
      | nil =>
          have other := List.head?_dropWhile_not isNameChar following
          rw [List.nil_append, Option.mem_def] at first
          rw [first] at other
          exact isNameStart_eq_false other
      | cons dot dots =>
          obtain rfl : dot = d := Option.some.inj first
          rw [areDots dot List.mem_cons_self]
          rfl
    · cases found
  · cases found

def braced (name : Text) : Text :=
  '{' :: (name ++ ['}'])

theorem exists_of_referenceRule {afterWord : Bool} {text name : Text} {more : Nat}
    (found : referenceRule afterWord text = some (name, more)) :
    ∃ (spelled : VariableName) (rest : Text), spelled.text = name ∧ spelled.text.length + 1 = more ∧
      text = braced spelled.text ++ rest := by
  unfold referenceRule at found
  split at found
  · rename_i first inside
    dsimp only at found
    split at found
    · rename_i behind start closed
      cases found
      have following := @List.all_takeWhile _ isNameChar inside
      have parts := @List.takeWhile_append_dropWhile _ isNameChar inside
      rw [closed] at parts
      generalize inside.takeWhile isNameChar = rest at following parts
      refine ⟨⟨first, rest, start, List.all_eq_true.mp following⟩, behind, rfl, rfl, ?_⟩
      simp [braced, VariableName.text, ← parts]
    · cases found
  · cases found

/-! ### Rules and separators -/

variable {c : Char}

private theorem bareWordRule_isPartedBy (separator : isSeparator c = true) :
    PlaceRule.IsPartedBy bareWordRule c where
  apart := (isSeparator_iff.mp separator).1
  same afterWord left right := by
    have unnamed := (isSeparator_iff.mp separator).2.1
    cases left with
    | nil =>
        rw [List.nil_append, bareWordRule, isNameStart_eq_false unnamed, Bool.and_false,
          if_neg Bool.false_ne_true]
        rfl
    | cons d left =>
        rw [List.cons_append, bareWordRule, bareWordRule, takeWhile_append_cons unnamed]
  inside := by
    intro afterWord text word more found
    obtain ⟨_, name, rest, _, _, rfl, rfl, _⟩ := exists_of_bareWordRule found
    simp [VariableName.text]

theorem referenceRule_of_ne (other : c ≠ '{') (afterWord : Bool) (text : Text) :
    referenceRule afterWord (c :: text) = none := by
  unfold referenceRule
  split
  · rename_i same
    exact absurd (List.cons.inj same).1 other
  · rfl

theorem referenceRule_opening (afterWord : Bool) (first : Char) (inside : Text) :
    referenceRule afterWord ('{' :: first :: inside) =
      if isNameStart first = true ∧ (inside.dropWhile isNameChar).head? = some '}' then
        some (first :: inside.takeWhile isNameChar, (inside.takeWhile isNameChar).length + 2)
      else
        none := by
  rw [referenceRule]
  split
  · rename_i starts closed
    rw [starts, closed, if_pos ⟨rfl, rfl⟩]
    rfl
  · rename_i other
    rw [if_neg]
    rintro ⟨starts, closed⟩
    obtain ⟨behind, closed⟩ := List.head?_eq_some_iff.mp closed
    exact other behind starts closed

private theorem referenceRule_isPartedBy (separator : isSeparator c = true) :
    PlaceRule.IsPartedBy referenceRule c where
  apart := (isSeparator_iff.mp separator).1
  same afterWord left right := by
    obtain ⟨_, unnamed, notOpening, notClosing⟩ := isSeparator_iff.mp separator
    cases left with
    | nil => exact referenceRule_of_ne notOpening afterWord right
    | cons opening left =>
        by_cases opens : opening = '{'
        · subst opens
          cases left with
          | nil =>
              rw [List.cons_append, List.nil_append, referenceRule_opening,
                isNameStart_eq_false unnamed]
              exact if_neg fun closes => Bool.false_ne_true closes.1
          | cons first inside =>
              have closes : (inside.dropWhile isNameChar ++ c :: right).head? = some '}' ↔
                  (inside.dropWhile isNameChar).head? = some '}' := by
                cases inside.dropWhile isNameChar <;> simp [notClosing]
              rw [List.cons_append, List.cons_append, referenceRule_opening, referenceRule_opening,
                takeWhile_append_cons unnamed, dropWhile_append_cons unnamed]
              simp only [closes]
        · rw [List.cons_append, referenceRule_of_ne opens, referenceRule_of_ne opens]
  inside := by
    intro afterWord text name more found
    obtain ⟨spelled, rest, _, rfl, rfl⟩ := exists_of_referenceRule found
    simp [braced]

/-! ### Names of a formula -/

theorem substituteWords_eq_replace (bindings : Bindings) (text : Text) :
    substituteWords bindings text =
      (text.cutsBy bareWordRule).replace
        (fun place => return place.1 ++ (← inlineWord bindings place.2)) pure :=
  rfl

theorem substituteVariables_eq_replace (bindings : Bindings) (formula : Text) :
    substituteVariables formula bindings =
      (references formula).replace (fun place => substituteReference bindings place.1 place.2)
        (substituteWords bindings) :=
  rfl

/-- What stands in front of a separator is replaced apart from what stands behind it,
the bare words of a text. -/
theorem substituteWords_append_cons (separator : isSeparator c = true)
    {bindings : Bindings} {left left' : Text}
    (replaced : substituteWords bindings left = .ok left') (right : Text) :
    substituteWords bindings (left ++ c :: right) = (left' ++ c :: ·) <$>
      substituteWords bindings right := by
  rw [substituteWords_eq_replace, cutsBy,
    Cuts.scan_append_cons (bareWordRule_isPartedBy separator) false (Nat.zero_le _)]
  refine Cuts.replace_append_keep ?_ ?_ replaced
  · rintro front _ ⟨⟩ text
    rfl
  · rintro front _ ⟨⟩ before word
    dsimp only
    cases inlineWord bindings word with
    | error fault => rfl
    | ok number => exact congrArg Except.ok (by simp)

private theorem substituteReference_append_cons (separator : isSeparator c = true)
    {bindings : Bindings} {front front' : Text}
    (replaced : substituteWords bindings front = .ok front') (before name : Text) :
    substituteReference bindings (front ++ c :: before) name =
      (front' ++ c :: ·) <$> substituteReference bindings before name := by
  unfold substituteReference
  cases bindings.get? name with
  | none => rfl
  | some value =>
      dsimp only
      rw [substituteWords_append_cons separator replaced]
      cases substituteWords bindings before with
      | error fault => rfl
      | ok words =>
          cases value.inline with
          | error fault => rfl
          | ok number => exact congrArg Except.ok (by simp)

/-- What stands in front of a separator is replaced apart from what stands behind it,
references and bare words. -/
theorem substituteVariables_append_cons (separator : isSeparator c = true)
    {bindings : Bindings} {left left' : Text}
    (replaced : substituteVariables left bindings = .ok left') (right : Text) :
    substituteVariables (left ++ c :: right) bindings = (left' ++ c :: ·) <$>
      substituteVariables right bindings := by
  rw [substituteVariables_eq_replace, references, cutsBy,
    Cuts.scan_append_cons (referenceRule_isPartedBy separator) false (Nat.zero_le _)]
  refine Cuts.replace_append_keep ?_ ?_ replaced
  · exact fun front => substituteWords_append_cons separator front
  · exact fun front => substituteReference_append_cons separator front

end QuantityFormula
