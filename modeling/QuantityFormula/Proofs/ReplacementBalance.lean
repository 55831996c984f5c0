import QuantityFormula.Constant
import QuantityFormula.Proofs.Balance
import QuantityFormula.Proofs.Numeral
import QuantityFormula.Proofs.Running
import QuantityFormula.Proofs.Separators

/-!
Replacements keep the balance of a formula: numbers stand for names and for calls, whose argument
lists balance. Only a text given to a name can bring parentheses of its own.
-/

set_option autoImplicit false

namespace QuantityFormula

open Text

/-! ### Numbers -/

private theorem isNeutral_numeral {text : Text} (numeral : IsNumeral text) : IsNeutral text :=
  isNeutral_of_class Token.isNumberChar rfl rfl (List.all_eq_true.mpr numeral.1)

private theorem isNeutral_write (x : Float) : IsNeutral (Decimal.write x) := by
  unfold Decimal.write
  split
  · exact isNeutral_of_forall (by simp)
  dsimp only
  have size : IsNeutral (if x.isInf then ['i', 'n', 'f']
      else Decimal.magnitudeText (Magnitude.codeOf x)) := by
    split
    · exact isNeutral_of_forall (by simp)
    · exact isNeutral_numeral (Numeral.ofMagnitude x).isNumeral
  split
  · exact (isNeutral_singleton (c := '-') (by decide) (by decide)).append size
  · exact size

theorem isNeutral_inlineNumber (x : Float) : IsNeutral (inlineNumber x) := by
  unfold inlineNumber
  split
  · exact (isNeutral_write x).group
  split
  · exact isNeutral_of_forall (by simp)
  · exact isNeutral_write x

/-! ### Calls -/

def Head.SitsIn (head : Head) (text : Text) : Prop :=
  ∃ label, IsNeutral label ∧ text = head.before ++ (label ++ '(' :: head.after)

theorem Head.SitsIn.keep {head : Head} {text : Text} (sits : head.SitsIn text) (c : Char) :
    (head.keep c).SitsIn (c :: text) := by
  obtain ⟨label, neutral, rfl⟩ := sits
  exact ⟨label, neutral, rfl⟩

private theorem Head.sitsIn_of_here? {afterWord : Bool} {text : Text} {head : Head}
    (found : here? afterWord text = some head) : head.SitsIn text := by
  unfold here? at found
  split at found
  · cases found
  rename_i c following
  split at found
  · rename_i starts
    split at found
    · rename_i after opened
      cases found
      have neutral : IsNeutral ([c] ++ following.takeWhile isNameChar ++
          (following.dropWhile isNameChar).takeWhile isBlankChar) := by
        have first : IsNeutral [c] := by
          rw [Bool.and_eq_true] at starts
          exact isNeutral_of_class isNameStart rfl rfl (by simp [starts.2])
        have name : IsNeutral (following.takeWhile isNameChar) :=
          isNeutral_of_class isNameChar rfl rfl List.all_takeWhile
        have gap : IsNeutral ((following.dropWhile isNameChar).takeWhile isBlankChar) :=
          isNeutral_of_class isBlankChar rfl rfl List.all_takeWhile
        exact (first.append name).append gap
      refine ⟨_, neutral, ?_⟩
      have afterName := List.takeWhile_append_dropWhile (p := isBlankChar) (l :=
        following.dropWhile isNameChar)
      rw [opened] at afterName
      rw [List.append_assoc, afterName, List.append_assoc, List.takeWhile_append_dropWhile]
      rfl
    · cases found
  · cases found

private theorem Head.sitsIn_of_first? {wanted : Text → Bool} {afterWord : Bool}
    {text : Text} {head : Head}
    (found : first? wanted afterWord text = some head) : head.SitsIn text := by
  induction text generalizing afterWord head with
  | nil => cases found
  | cons c text ih =>
      rw [first?] at found
      split at found
      · rename_i first here
        cases found
        exact sitsIn_of_here? (Option.filter_eq_some_iff.mp here).1
      · obtain ⟨later, foundLater, rfl⟩ := Option.map_eq_some_iff.mp found
        exact (ih foundLater).keep c

private theorem Head.sitsIn_of_last? {afterWord : Bool} {text : Text} {head : Head}
    (found : last? afterWord text = some head) : head.SitsIn text := by
  induction text generalizing afterWord head with
  | nil => cases found
  | cons c text ih =>
      rw [last?] at found
      split at found
      · rename_i later foundLater
        cases found
        exact (ih foundLater).keep c
      · exact sitsIn_of_here? found

private theorem Call.exists_head_of_next? {text : Text} {call : Call}
    (next : next? text = .ok (some call)) :
    ∃ head : Head, head.SitsIn text ∧ ofHead head = .ok call := by
  unfold next? at next
  split at next
  · rename_i head found
    obtain ⟨located, ofHead, same⟩ := exists_of_map_eq_ok next
    cases same
    refine ⟨head, ?_, ofHead⟩
    cases first : Head.first? isGuardedName false text with
    | some guarded =>
        rw [first] at found
        cases found
        exact Head.sitsIn_of_first? first
    | none =>
        rw [first] at found
        exact Head.sitsIn_of_last? found
  · cases next

/-- A value can be put in for the call that is next. -/
theorem Call.sameBalance_replaceBy {text replacement : Text} {call : Call}
    (next : next? text = .ok (some call)) (neutral : IsNeutral replacement) :
    SameBalance text (call.replaceBy replacement) := by
  obtain ⟨head, ⟨label, neutralLabel, rfl⟩, located⟩ := exists_head_of_next? next
  unfold ofHead at located
  split at located
  · rename_i arguments after closed
    cases located
    obtain ⟨shape, balanced⟩ := splitClosing?_eq_some_iff.mp closed
    have whole : head.before ++ (label ++ '(' :: head.after) =
        head.before ++ (label ++ ('(' :: (arguments ++ [')']))) ++ after := by
      simp [shape]
    rw [whole]
    have call := neutralLabel.append (isNeutral_iff.mpr balanced).group
    exact ((SameBalance.refl head.before).append (call.sameBalance neutral)).append (.refl after)
  · cases located

private theorem Resolver.sameBalance_resolveWithin {fuel : Nat} {text resolved : Text}
    {resolver final : Resolver}
    (ran : (resolveWithin fuel text).run resolver = (.ok resolved, final)) :
    SameBalance text resolved := by
  induction fuel generalizing text resolver with
  | zero =>
      rw [resolveWithin] at ran
      rcases cases_of_run_pass_ok ran with rfl | ⟨call, next, replaced⟩
      · exact .refl _
      · rw [run_refuse] at replaced
        cases replaced
  | succ fuel ih =>
      rw [resolveWithin] at ran
      rcases cases_of_run_pass_ok ran with rfl | ⟨call, next, replaced⟩
      · exact .refl _
      · obtain ⟨value, after, _, ranRest⟩ := Resolution.exists_of_run_bind_ok replaced
        exact (Call.sameBalance_replaceBy next (isNeutral_inlineNumber value)).trans (ih ranRest)

/-- On every resolver a text with calls has a value only if it balances. -/
theorem Resolver.isBalanced_of_run {text : Text} {resolver : Resolver} {value : Float}
    (valued : ((evaluate text).run resolver).1 = .ok value) : isBalanced text = true := by
  have ran : (evaluate text).run resolver = (.ok value, ((evaluate text).run resolver).2) := by
    rw [← valued]
    rfl
  unfold evaluate at ran
  obtain ⟨resolved, after, ranResolve, arithmetic⟩ := Resolution.exists_of_run_bind_ok ran
  rw [Resolution.run_ofExcept] at arithmetic
  have same : SameBalance text resolved := by
    unfold resolve at ranResolve
    obtain ⟨resolver, _, _, ranWithin⟩ := Resolution.exists_of_run_bind_ok ranResolve
    exact sameBalance_resolveWithin ranWithin
  rw [same.isBalanced_eq]
  exact Arithmetic.isBalanced_of_evaluate (congrArg Prod.fst arithmetic)

/-! ### Exchange of pieces -/

/-- A relation between texts that holds of two of them if pieces of the one are
exchanged for related pieces. -/
structure Text.IsExchange (Related : Text → Text → Prop) : Prop where
  refl : ∀ text, Related text text
  trans : ∀ {first second third}, Related first second → Related second third → Related first third
  append : ∀ {left left' right right'}, Related left left' → Related right right' →
    Related (left ++ right) (left' ++ right')

private theorem Text.isExchange_sameBalance : IsExchange SameBalance where
  refl := .refl
  trans := .trans
  append := .append

namespace Text.IsExchange

variable {α : Type} {Related : Text → Text → Prop}

theorem fill (exchange : IsExchange Related) {cuts : Cuts α} {label replacement : α → Text}
    (related : ∀ place, Related (label place) (replacement place)) :
    Related (cuts.fill label) (cuts.fill replacement) := by
  obtain ⟨places, rest⟩ := cuts
  unfold Cuts.fill
  refine exchange.append ?_ (exchange.refl rest)
  induction places with
  | nil => exact exchange.refl _
  | cons place places ih =>
      rw [List.flatMap_cons, List.flatMap_cons]
      exact exchange.append (exchange.append (exchange.refl place.1) (related place.2)) ih

theorem flatten (exchange : IsExchange Related) {places : List (Text × α)}
    {replace : Text × α → Except Fault Text}
    (label : α → Text) {parts : List Text} (replaced : places.mapM replace = .ok parts)
    (related : ∀ place ∈ places,
      ∀ part, replace place = .ok part → Related (place.1 ++ label place.2) part) :
    Related (places.flatMap fun place => place.1 ++ label place.2) parts.flatten := by
  induction places generalizing parts with
  | nil =>
      cases replaced
      exact exchange.refl _
  | cons place places ih =>
      rw [List.mapM_cons] at replaced
      obtain ⟨part, first, replaced⟩ := exists_of_bind_eq_ok replaced
      obtain ⟨others, rest, replaced⟩ := exists_of_bind_eq_ok replaced
      cases replaced
      rw [List.flatMap_cons, List.flatten_cons]
      exact exchange.append (related place List.mem_cons_self part first)
        (ih rest fun other member => related other (List.mem_cons_of_mem _ member))

end Text.IsExchange

theorem exists_of_inlineFinite {x : Float} {text : Text} (inlined : inlineFinite x = .ok text) :
    x.isFinite = true ∧ text = inlineNumber x := by
  unfold inlineFinite at inlined
  split at inlined
  · rename_i finite
    cases inlined
    exact ⟨finite, rfl⟩
  · cases inlined

/-! ### Names -/

theorem Text.Cuts.forall_places_keep {α : Type} (property : α → Prop) (c : Char) (cuts : Cuts α) :
    (∀ place ∈ (cuts.keep c).places, property place.2) ↔
      ∀ place ∈ cuts.places, property place.2 := by
  rcases cuts with ⟨_ | ⟨⟨before, label⟩, places⟩, rest⟩
  · rfl
  · simp only [keep, List.forall_mem_cons]

theorem Text.Cuts.forall_places_scan {α : Type} (rule : PlaceRule α) (property : α → Prop)
    (found : ∀ afterWord text place more, rule afterWord text = some (place, more) → property place)
    (afterWord : Bool) (taken : Nat) (text : Text) :
    ∀ place ∈ (scan rule afterWord taken text).places, property place.2 := by
  induction text generalizing afterWord taken with
  | nil => cases taken <;> exact nofun
  | cons c text ih =>
      cases taken with
      | succ taken => exact ih _ taken
      | zero =>
          rw [scan]
          split
          · rename_i place more here
            intro other member
            rcases List.mem_cons.mp member with rfl | later
            · exact found _ _ _ _ here
            · exact ih _ more other later
          · exact (forall_places_keep property c _).mpr (ih (isWordChar c) 0)

private theorem isNeutral_name {c : Char} {following : Text} (starts : isNameStart c = true)
    (name : following.all isNameChar = true) : IsNeutral (c :: following) := by
  have first : IsNeutral [c] := isNeutral_of_class isNameStart rfl rfl (by simp [starts])
  exact first.append (isNeutral_of_class isNameChar rfl rfl name)

private theorem bareWordRule_spec {afterWord : Bool} {text word : Text} {more : Nat}
    (found : bareWordRule afterWord text = some (word, more)) :
    word = text.take (more + 1) ∧ IsNeutral word := by
  obtain ⟨_, name, rest, _, rfl, rfl, rfl, _⟩ := exists_of_bareWordRule found
  exact ⟨(List.take_left' rfl).symm,
    isNeutral_name name.start (List.all_eq_true.mpr name.following)⟩

private theorem referenceRule_spec {afterWord : Bool} {text name : Text} {more : Nat}
    (found : referenceRule afterWord text = some (name, more)) :
    braced name = text.take (more + 1) ∧ IsNeutral (braced name) := by
  obtain ⟨spelled, rest, rfl, rfl, rfl⟩ := exists_of_referenceRule found
  have opening : IsNeutral ['{'] := isNeutral_singleton (by decide) (by decide)
  have closing : IsNeutral ['}'] := isNeutral_singleton (by decide) (by decide)
  have name := isNeutral_name spelled.start (List.all_eq_true.mpr spelled.following)
  exact ⟨(List.take_left' (by simp [braced])).symm, opening.append (name.append closing)⟩

/-- Numbers put in for the bare words of a text. -/
theorem Text.IsExchange.substituteWords {Related : Text → Text → Prop}
    (exchange : IsExchange Related) {bindings : Bindings} {text result : Text}
    (words : ∀ place ∈ (text.cutsBy bareWordRule).places, ∀ x : Float, x.isFinite = true →
      Related place.2 (inlineNumber x))
    (substituted : QuantityFormula.substituteWords bindings text = .ok result) :
    Related text result := by
  obtain ⟨parts, replaced, same⟩ := exists_of_bind_eq_ok substituted
  cases same
  have whole : (text.cutsBy bareWordRule).fill id = text :=
    Cuts.fill_scan (fun _ _ _ _ found => (bareWordRule_spec found).1) false 0 text
  conv => arg 1; rw [← whole]
  refine exchange.append (exchange.flatten _ replaced ?_) (exchange.refl _)
  intro place member part single
  obtain ⟨word, inlined, same⟩ := exists_of_bind_eq_ok single
  cases same
  refine exchange.append (exchange.refl place.1) ?_
  unfold inlineWord at inlined
  split at inlined
  · obtain ⟨finite, rfl⟩ := exists_of_inlineFinite inlined
    exact words place member _ finite
  · cases inlined
    exact exchange.refl _

private theorem sameBalance_substituteWords {bindings : Bindings} {text result : Text}
    (substituted : substituteWords bindings text = .ok result) : SameBalance text result := by
  have neutral := Cuts.forall_places_scan bareWordRule IsNeutral
    (fun _ _ _ _ found => (bareWordRule_spec found).2) false 0 text
  refine isExchange_sameBalance.substituteWords ?_ substituted
  exact fun place member x _ => (neutral place member).sameBalance (isNeutral_inlineNumber x)

def Bindings.AreBalanced (bindings : Bindings) (formula : Text) : Prop :=
  ∀ name ∈ referencedNames formula, ∀ content, bindings.get? name = some (.text content) →
    isBalanced content = true

private theorem isNeutral_inline {value : Value} {text : Text} (inlined : value.inline = .ok text)
    (balanced : ∀ content, value = .text content → isBalanced content = true) : IsNeutral text := by
  cases value with
  | number x =>
      obtain ⟨_, rfl⟩ := exists_of_inlineFinite inlined
      exact isNeutral_inlineNumber x
  | text content =>
      cases inlined
      have quote : IsNeutral ['"'] := isNeutral_singleton (by decide) (by decide)
      exact (quote.append (isNeutral_iff.mpr (balanced content rfl))).append quote

theorem fill_references (formula : Text) :
    (references formula).fill braced = formula :=
  Cuts.fill_scan (fun _ _ _ _ found => (referenceRule_spec found).1) false 0 formula

/-- Replacing the names of a formula by balanced texts keeps its balance. -/
theorem sameBalance_substituteVariables {bindings : Bindings} {formula result : Text}
    (substituted : substituteVariables formula bindings = .ok result)
    (balanced : bindings.AreBalanced formula) :
    SameBalance formula result := by
  obtain ⟨parts, replaced, substituted⟩ := exists_of_bind_eq_ok substituted
  obtain ⟨rest, restSubstituted, substituted⟩ := exists_of_bind_eq_ok substituted
  cases substituted
  have neutral := Cuts.forall_places_scan referenceRule (fun name => IsNeutral (braced name))
    (fun _ _ _ _ found => (referenceRule_spec found).2) false 0 formula
  conv => arg 1; rw [← fill_references formula]
  refine SameBalance.append (isExchange_sameBalance.flatten braced replaced ?_)
    (sameBalance_substituteWords restSubstituted)
  rintro ⟨before, name⟩ member part single
  change substituteReference bindings before name = .ok part at single
  unfold substituteReference at single
  split at single
  · cases single
  · rename_i value bound
    obtain ⟨words, wordsSubstituted, single⟩ := exists_of_bind_eq_ok single
    obtain ⟨inlined, inlining, single⟩ := exists_of_bind_eq_ok single
    cases single
    have referenced : name ∈ referencedNames formula := by
      rw [referencedNames, List.mem_eraseDups]
      exact List.mem_map_of_mem member
    refine (sameBalance_substituteWords wordsSubstituted).append
      ((neutral (before, name) member).sameBalance ?_)
    apply isNeutral_inline inlining
    rintro content rfl
    exact balanced name referenced content bound

/-! ### Constants -/

private theorem Constant.isNeutral_name :
    ∀ constant ∈ all, constant.name.toList ≠ [] ∧ IsNeutral constant.name.toList := by
  have names : ∀ constant ∈ all, constant.name.toList ≠ [] ∧
      constant.name.toList.all isWordChar = true := by
    decide +kernel
  intro constant member
  exact ⟨(names constant member).1,
    isNeutral_of_class _ (by decide) (by decide) (names constant member).2⟩

theorem Text.IsExchange.substitute {Related : Text → Text → Prop} (exchange : IsExchange Related)
    {constant : Constant} (listed : constant ∈ Constant.all)
    (related : Related constant.name.toList (Decimal.write constant.value)) (text : Text) :
    Related text (constant.substitute text) := by
  obtain ⟨nonempty, _⟩ := Constant.isNeutral_name constant listed
  have labelled : ∀ afterWord text place more,
      Constant.wholeWordRule constant.name.toList afterWord text = some (place, more) →
        constant.name.toList = text.take (more + 1) := by
    intro afterWord text place more found
    unfold Constant.wholeWordRule at found
    split at found
    · rename_i whole
      cases found
      rw [Bool.and_eq_true, Bool.and_eq_true] at whole
      have isPrefix := List.isPrefixOf_iff_prefix.mp whole.1.2
      have positive := List.length_pos_iff.mpr nonempty
      rw [Nat.sub_add_cancel positive]
      exact List.prefix_iff_eq_take.mp isPrefix
    · cases found
  have whole : (text.cutsBy (Constant.wholeWordRule constant.name.toList)).fill
      (fun _ => constant.name.toList) = text :=
    Cuts.fill_scan labelled false 0 text
  conv => arg 1; rw [← whole]
  exact exchange.fill fun _ => related

/-- Numbers put in for the constants of a text. -/
theorem Text.IsExchange.substituteConstants {Related : Text → Text → Prop}
    (exchange : IsExchange Related)
    (related : ∀ constant ∈ Constant.all,
      Related constant.name.toList (Decimal.write constant.value)) (text : Text) :
    Related text (QuantityFormula.substituteConstants text) := by
  have each (constants : List Constant) (listed : ∀ constant ∈ constants,
      constant ∈ Constant.all) (text : Text) :
      Related text (Constant.substituteEach constants text) := by
    induction constants generalizing text with
    | nil => exact exchange.refl text
    | cons constant constants ih =>
        have member := listed constant List.mem_cons_self
        have first := exchange.substitute member (related constant member) text
        exact exchange.trans first
          (ih (fun other later => listed other (List.mem_cons_of_mem _ later)) _)
  exact each Constant.all (fun _ member => member) text

theorem sameBalance_substituteConstants (text : Text) :
    SameBalance text (substituteConstants text) := by
  refine isExchange_sameBalance.substituteConstants (fun constant listed => ?_) text
  exact (Constant.isNeutral_name constant listed).2.sameBalance (isNeutral_write constant.value)

end QuantityFormula
