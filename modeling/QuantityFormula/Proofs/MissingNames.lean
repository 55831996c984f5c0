import QuantityFormula.Proofs.Inlining
import QuantityFormula.Proofs.ParenthesisChecks
import QuantityFormula.Proofs.Validation

/-!
Names without a value. The references of a formula are the names that stand in braces anywhere
in it, listed by the first place of each. Substitution stops at the first of them that has no
value, the check of a formula collects them all, and nothing behind either of them misses a name
or hides that one is missed.
-/

set_option autoImplicit false

namespace QuantityFormula

open Text

/-! ### Lists without repetition -/

private theorem eraseDups_filter {α : Type} [BEq α] [LawfulBEq α]
    (keep : α → Bool) (items : List α) :
    (items.filter keep).eraseDups = items.eraseDups.filter keep := by
  induction size : items.length using Nat.strongRecOn generalizing items with
  | ind length ih =>
      cases items with
      | nil => rfl
      | cons item items =>
          have shorter : (items.filter fun other => !other == item).length < length := by
            have few := List.length_filter_le (fun other => !other == item) items
            rw [List.length_cons] at size
            omega
          have behind := ih _ shorter (items.filter fun other => !other == item) rfl
          rw [List.eraseDups_cons, List.filter_cons, List.filter_cons, ← behind, List.filter_filter]
          cases kept : keep item with
          | true =>
              rw [if_pos rfl, if_pos rfl, List.eraseDups_cons, List.filter_filter]
              simp only [Bool.and_comm]
          | false =>
              rw [if_neg Bool.false_ne_true, if_neg Bool.false_ne_true]
              refine congrArg List.eraseDups (List.filter_congr fun other _ => ?_)
              by_cases same : other = item
              · rw [same, kept, Bool.false_and]
              · rw [beq_eq_false_iff_ne.mpr same, Bool.not_false, Bool.and_true]

/-! ### Parts of a text -/

namespace Text

def firstPlace (part text : Text) : Nat :=
  text.tails.findIdx part.isPrefixOf

private theorem firstPlace_of_starts {part text : Text} (starts : part <+: text) :
    firstPlace part text = 0 := by
  have here := List.isPrefixOf_iff_prefix.mpr starts
  cases text with
  | nil => rw [firstPlace, List.tails, List.findIdx_cons, here, cond_true]
  | cons c text => rw [firstPlace, List.tails_cons, List.findIdx_cons, here, cond_true]

private theorem firstPlace_cons {part text : Text} {c : Char} (elsewhere : ¬part <+: c :: text) :
    firstPlace part (c :: text) = firstPlace part text + 1 := by
  have later : part.isPrefixOf (c :: text) = false :=
    Bool.eq_false_iff.mpr (mt List.isPrefixOf_iff_prefix.mp elsewhere)
  rw [firstPlace, List.tails_cons, List.findIdx_cons, later, cond_false]
  rfl

section

variable {first : Char} {front : Text} (absent : first ∉ front) (part text : Text)
include absent

private theorem infix_append_iff : first :: part <:+: front ++ text ↔ first :: part <:+: text := by
  induction front with
  | nil => rfl
  | cons c front ih =>
      have different : first ≠ c := List.ne_of_not_mem_cons absent
      rw [List.cons_append, List.infix_cons_iff, ih (List.not_mem_of_not_mem_cons absent),
        List.cons_prefix_cons]
      exact or_iff_right fun starts => different starts.1

private theorem firstPlace_append :
    firstPlace (first :: part) (front ++ text) =
      front.length + firstPlace (first :: part) text := by
  induction front with
  | nil => exact (Nat.zero_add _).symm
  | cons c front ih =>
      have elsewhere : ¬first :: part <+: c :: (front ++ text) :=
        fun starts => List.ne_of_not_mem_cons absent (List.cons_prefix_cons.mp starts).1
      rw [List.cons_append, firstPlace_cons elsewhere, ih (List.not_mem_of_not_mem_cons absent),
        List.length_cons]
      omega

end

end Text

/-! ### Names in braces -/

def bracedNames (text : Text) : List Text :=
  (references text).places.map Prod.snd

private theorem eq_of_braced_starts {name other : VariableName} {text : Text}
    (starts : braced name.text <+: braced other.text ++ text) : name.text = other.text := by
  obtain ⟨rest, same⟩ := starts
  have found := referenceRule_braced name false rest
  rw [same, referenceRule_braced other false text] at found
  exact (congrArg Prod.fst (Option.some.inj found)).symm

private theorem opening_not_mem (name : VariableName) : '{' ∉ name.text ++ ['}'] := by
  rw [List.mem_append]
  rintro (inside | closing)
  · exact absurd (name.forall_mem_text _ inside) (by decide)
  · exact absurd closing (by decide)

/-- Induction along the references of a text: it goes on behind a reference, or behind a
character that begins none. -/
theorem referenceInduction {motive : Text → Prop} (nil : motive [])
    (reference : ∀ (name : VariableName) text, motive text → motive (braced name.text ++ text))
    (other : ∀ c text, (∀ name : VariableName, ¬braced name.text <+: c :: text) →
      motive text → motive (c :: text))
    (text : Text) : motive text := by
  induction size : text.length using Nat.strongRecOn generalizing text with
  | ind length ih =>
      by_cases starts : ∃ name : VariableName, braced name.text <+: text
      · obtain ⟨name, rest, rfl⟩ := starts
        rw [List.length_append, braced, List.length_cons] at size
        exact reference name rest (ih rest.length (by omega) rest rfl)
      · cases text with
        | nil => exact nil
        | cons c text =>
            rw [List.length_cons] at size
            exact other c text (not_exists.mp starts) (ih text.length (by omega) text rfl)

private theorem scan_referenceRule (afterWord : Bool) (taken : Nat) (text : Text) :
    Cuts.scan referenceRule afterWord taken text = Cuts.scan referenceRule false taken text := by
  cases text with
  | nil => rfl
  | cons c text => cases taken <;> rfl

private theorem bracedNames_braced (name : VariableName) (text : Text) :
    bracedNames (braced name.text ++ text) = name.text :: bracedNames text := by
  have shape : braced name.text ++ text = '{' :: ((name.text ++ ['}']) ++ text) := rfl
  have found := referenceRule_braced name false text
  rw [shape] at found
  unfold bracedNames references cutsBy
  rw [shape, Cuts.scan, found]
  dsimp only
  rw [Cuts.scan_taken, scan_referenceRule]
  rfl

private theorem bracedNames_cons {c : Char} {text : Text}
    (elsewhere : ∀ name : VariableName, ¬braced name.text <+: c :: text) :
    bracedNames (c :: text) = bracedNames text := by
  have nothing : referenceRule false (c :: text) = none := by
    rw [Option.eq_none_iff_forall_ne_some]
    intro place found
    obtain ⟨name, rest, _, _, whole⟩ := exists_of_referenceRule found
    exact elsewhere name ⟨rest, whole.symm⟩
  unfold bracedNames references cutsBy
  rw [Cuts.scan, nothing]
  dsimp only
  rw [scan_referenceRule]
  rcases Cuts.scan referenceRule false 0 text with ⟨_ | ⟨⟨before, name⟩, places⟩, rest⟩ <;> rfl

private theorem exists_of_mem_bracedNames {name text : Text} (member : name ∈ bracedNames text) :
    ∃ spelled : VariableName, spelled.text = name := by
  induction text using referenceInduction with
  | nil => cases member
  | reference spelled text ih =>
      rw [bracedNames_braced] at member
      rcases List.mem_cons.mp member with rfl | later
      · exact ⟨spelled, rfl⟩
      · exact ih later
  | other c text elsewhere ih => exact ih (bracedNames_cons elsewhere ▸ member)

private theorem mem_bracedNames_iff {name : VariableName} {text : Text} :
    name.text ∈ bracedNames text ↔ braced name.text <:+: text := by
  induction text using referenceInduction with
  | nil =>
      refine ⟨nofun, fun inside => ?_⟩
      cases List.infix_nil.mp inside
  | reference other text ih =>
      have inside : braced name.text <:+: (other.text ++ ['}']) ++ text ↔
          braced name.text <:+: text :=
        infix_append_iff (opening_not_mem other) (name.text ++ ['}']) text
      have outside : braced name.text <+: braced other.text ++ text ↔ name.text = other.text := by
        refine ⟨eq_of_braced_starts, fun same => ?_⟩
        rw [same]
        exact List.prefix_append _ _
      rw [bracedNames_braced, List.mem_cons, ih, ← inside, ← outside]
      exact List.infix_cons_iff.symm
  | other c text elsewhere ih =>
      rw [bracedNames_cons elsewhere, ih, List.infix_cons_iff]
      exact (or_iff_right (elsewhere name)).symm

private theorem firstPlace_braced {name other : VariableName} (different : other.text ≠ name.text)
    (text : Text) :
    firstPlace (braced other.text) (braced name.text ++ text) =
      (name.text ++ ['}']).length + firstPlace (braced other.text) text + 1 := by
  have elsewhere : ¬braced other.text <+: '{' :: ((name.text ++ ['}']) ++ text) :=
    mt eq_of_braced_starts different
  have behind := firstPlace_append (opening_not_mem name) (other.text ++ ['}']) text
  exact (firstPlace_cons elsewhere).trans (congrArg (· + 1) behind)

/-- Each name is listed at its first place in braces. -/
theorem pairwise_firstPlace (text : Text) :
    (bracedNames text).eraseDups.Pairwise fun earlier later =>
      firstPlace (braced earlier) text < firstPlace (braced later) text := by
  induction text using referenceInduction with
  | nil => exact .nil
  | reference name text ih =>
      -- What is listed behind a name is what is listed for the rest of the text, without that name.
      have spelledOf {other : Text}
          (member : other ∈ (bracedNames text).eraseDups.filter fun other => !other == name.text) :
          ∃ spelled : VariableName, spelled.text = other ∧ spelled.text ≠ name.text := by
        rw [List.mem_filter, List.mem_eraseDups, Bool.not_eq_true', beq_eq_false_iff_ne] at member
        obtain ⟨spelled, rfl⟩ := exists_of_mem_bracedNames member.1
        exact ⟨spelled, rfl, member.2⟩
      rw [bracedNames_braced, List.eraseDups_cons, eraseDups_filter, List.pairwise_cons]
      constructor
      · intro other member
        obtain ⟨spelled, rfl, different⟩ := spelledOf member
        rw [firstPlace_of_starts (List.prefix_append _ _), firstPlace_braced different]
        exact Nat.succ_pos _
      · refine (ih.filter _).imp_of_mem ?_
        intro earlier later earlierMember laterMember before
        obtain ⟨first, rfl, firstDifferent⟩ := spelledOf earlierMember
        obtain ⟨second, rfl, secondDifferent⟩ := spelledOf laterMember
        rw [firstPlace_braced firstDifferent, firstPlace_braced secondDifferent]
        omega
  | other c text elsewhere ih =>
      rw [bracedNames_cons elsewhere]
      refine ih.imp_of_mem ?_
      intro earlier later earlierMember laterMember before
      obtain ⟨first, rfl⟩ := exists_of_mem_bracedNames (List.mem_eraseDups.mp earlierMember)
      obtain ⟨second, rfl⟩ := exists_of_mem_bracedNames (List.mem_eraseDups.mp laterMember)
      rw [firstPlace_cons (elsewhere first), firstPlace_cons (elsewhere second)]
      exact Nat.succ_lt_succ before

/-- The references of a formula: all names in braces, each once, in the
order of their first places. -/
structure AreReferences (names : List Text) (formula : Text) : Prop where
  mem_iff : ∀ name, name ∈ names ↔
    (∃ spelled : VariableName, spelled.text = name) ∧ braced name <:+: formula
  nodup : names.Nodup
  ordered : names.Pairwise fun earlier later =>
    firstPlace (braced earlier) formula < firstPlace (braced later) formula

private theorem areReferences_referencedNames (formula : Text) :
    AreReferences (referencedNames formula) formula where
  mem_iff name := by
    rw [referencedNames, List.mem_eraseDups]
    constructor
    · intro member
      obtain ⟨spelled, rfl⟩ := exists_of_mem_bracedNames member
      exact ⟨⟨spelled, rfl⟩, mem_bracedNames_iff.mp member⟩
    · rintro ⟨⟨spelled, rfl⟩, inside⟩
      exact mem_bracedNames_iff.mpr inside
  nodup := (pairwise_firstPlace formula).imp fun before same => (same ▸ before).false
  ordered := pairwise_firstPlace formula

/-! ### Substitution -/

def missingNames (formula : Text) (bindings : Bindings) : List Text :=
  (referencedNames formula).filter fun name => !bindings.contains name

def Bindings.AreFinite (bindings : Bindings) : Prop :=
  ∀ name x, bindings.get? name = some (.number x) → x.isFinite = true

private theorem head?_missingNames (formula : Text) (bindings : Bindings) :
    (missingNames formula bindings).head? = (bracedNames formula).find? fun name =>
      !bindings.contains name := by
  have same : missingNames formula bindings =
      ((bracedNames formula).filter fun name => !bindings.contains name).eraseDups :=
    (eraseDups_filter _ _).symm
  rw [same, ← List.head?_filter]
  cases (bracedNames formula).filter fun name => !bindings.contains name with
  | nil => rfl
  | cons name names =>
      rw [List.eraseDups_cons]
      rfl

private theorem exists_mapM_of_forall {α β : Type} {items : List α} {step : α → Except Fault β}
    (each : ∀ item ∈ items, ∃ result, step item = .ok result) :
    ∃ results, items.mapM step = .ok results := by
  induction items with
  | nil => exact ⟨[], rfl⟩
  | cons item items ih =>
      obtain ⟨result, first⟩ := each item List.mem_cons_self
      obtain ⟨results, others⟩ := ih fun other later => each other (List.mem_cons_of_mem _ later)
      exact ⟨result :: results, by rw [List.mapM_cons, first, others]; rfl⟩

namespace Bindings.AreFinite

variable {bindings : Bindings} (finite : bindings.AreFinite)
include finite

private theorem exists_inlineWord (word : Text) : ∃ part, inlineWord bindings word = .ok part := by
  unfold inlineWord
  cases bound : bindings.number? word with
  | none => exact ⟨word, rfl⟩
  | some x =>
      exact ⟨inlineNumber x, inlineFinite_of_isFinite (finite word x (get?_of_number? bound))⟩

private theorem exists_substituteWords (text : Text) :
    ∃ result, substituteWords bindings text = .ok result := by
  have each : ∀ place ∈ (text.cutsBy bareWordRule).places, ∃ part,
      (return place.1 ++ (← inlineWord bindings place.2) : Except Fault Text) = .ok part := by
    intro place _
    obtain ⟨part, inlined⟩ := finite.exists_inlineWord place.2
    exact ⟨place.1 ++ part, by rw [inlined]; rfl⟩
  obtain ⟨parts, replaced⟩ := exists_mapM_of_forall each
  exact ⟨parts.flatten ++ (text.cutsBy bareWordRule).rest, by
    unfold substituteWords; dsimp only; rw [replaced]; rfl⟩

private theorem exists_substituteReference {name : Text} (bound : bindings.contains name = true)
    (before : Text) :
    ∃ part, substituteReference bindings before name = .ok part := by
  obtain ⟨value, found⟩ := Option.isSome_iff_exists.mp bound
  obtain ⟨words, replaced⟩ := finite.exists_substituteWords before
  have inlined : ∃ text, value.inline = .ok text := by
    cases value with
    | number x => exact ⟨inlineNumber x, inlineFinite_of_isFinite (finite name x found)⟩
    | text content => exact ⟨_, rfl⟩
  obtain ⟨text, inlined⟩ := inlined
  exact ⟨words ++ text, by rw [substituteReference, found]; dsimp only; rw [replaced, inlined]; rfl⟩

private theorem mapM_substituteReference {places : List (Text × Text)} {name : Text}
    (missing : (places.map Prod.snd).find? (fun name => !bindings.contains name) = some name) :
    places.mapM (fun place => substituteReference bindings place.1 place.2) =
      .error (.undefinedVariables [name]) := by
  induction places with
  | nil => cases missing
  | cons place places ih =>
      rw [List.map_cons, List.find?_cons] at missing
      rw [List.mapM_cons]
      cases bound : bindings.contains place.2 with
      | true =>
          rw [bound] at missing
          obtain ⟨part, replaced⟩ := finite.exists_substituteReference bound place.1
          rw [replaced, ih missing]
          rfl
      | false =>
          rw [bound] at missing
          cases missing
          have unbound : bindings.get? place.2 = none :=
            Option.isNone_iff_eq_none.mp (Option.isSome_eq_false_iff.mp bound)
          rw [substituteReference, unbound]
          rfl

/-- Substitution stops at the first reference without a value, and at nothing else. -/
theorem substituteVariables_eq_error_iff (formula : Text) (fault : Fault) :
    substituteVariables formula bindings = .error fault ↔
      ∃ name, (missingNames formula bindings).head? = some name ∧
        fault = .undefinedVariables [name] := by
  rw [head?_missingNames]
  cases missing : (bracedNames formula).find? fun name => !bindings.contains name with
  | some name =>
      have stopped := finite.mapM_substituteReference missing
      have failed : substituteVariables formula bindings = .error (.undefinedVariables [name]) := by
        unfold substituteVariables
        dsimp only
        rw [stopped]
        rfl
      rw [failed]
      constructor
      · rintro ⟨⟩
        exact ⟨name, rfl, rfl⟩
      · rintro ⟨_, ⟨⟩, rfl⟩
        rfl
  | none =>
      have each : ∀ place ∈ (references formula).places, ∃ part,
          substituteReference bindings place.1 place.2 = .ok part := by
        intro place member
        have listed := List.find?_eq_none.mp missing place.2 (List.mem_map_of_mem member)
        rw [Bool.not_eq_true', Bool.not_eq_false] at listed
        exact finite.exists_substituteReference listed place.1
      obtain ⟨parts, replaced⟩ := exists_mapM_of_forall each
      obtain ⟨rest, restReplaced⟩ := finite.exists_substituteWords (references formula).rest
      have substituted : substituteVariables formula bindings = .ok (parts.flatten ++ rest) := by
        unfold substituteVariables
        dsimp only
        rw [replaced, restReplaced]
        rfl
      rw [substituted]
      constructor
      · exact nofun
      · rintro ⟨_, ⟨⟩, _⟩

end Bindings.AreFinite

/-! ### Evaluation -/

theorem Resolver.run_ne_undefinedVariables (text : Text) (resolver : Resolver) (names : List Text) :
    ((evaluate text).run resolver).1 ≠ .error (.undefinedVariables names) := by
  intro failed
  obtain ⟨_, _, raises⟩ := Evaluation.hasOrigin ⟨resolver, text⟩ rfl failed
  cases raises with
  | search failed => cases Call.fault_of_next? failed
  | arithmetic _ failed =>
      rcases Arithmetic.fault_of_evaluate failed with same | isLocal
      · cases same
      · cases isLocal

namespace Engine

/-- What is reported of the names without a value: the check of a formula reports all of them, in
their order, and its evaluation the first one. -/
structure ReportsMissing (engine : Engine) (formula : Text) (bindings : Bindings) : Prop where
  validate_iff : ∀ names, engine.validate formula bindings = .error (.undefinedVariables names) ↔
    names = missingNames formula bindings ∧ names ≠ []
  evaluate_iff : ∀ names, engine.evaluate formula bindings = .error (.undefinedVariables names) ↔
    ∃ first, (missingNames formula bindings).head? = some first ∧ names = [first]
  together : (∃ names, engine.validate formula bindings = .error (.undefinedVariables names)) ↔
    ∃ names, engine.evaluate formula bindings = .error (.undefinedVariables names)
  validate_message : ∀ names,
    engine.validate formula bindings = .error (.undefinedVariables names) →
    Fault.message (.undefinedVariables names) =
      "Undefined variable: " ++ ", ".intercalate ((missingNames formula bindings).map String.ofList)
  evaluate_message : ∀ names,
    engine.evaluate formula bindings = .error (.undefinedVariables names) →
    ∀ first ∈ (missingNames formula bindings).head?,
      Fault.message (.undefinedVariables names) = "Undefined variable: " ++ String.ofList first

variable (engine : Engine) {formula : Text} {bindings : Bindings} (finite : bindings.AreFinite)
  (written : isBlank formula = false)
include finite written

private theorem evaluate_eq_undefinedVariables_iff (names : List Text) :
    engine.evaluate formula bindings = .error (.undefinedVariables names) ↔
      ∃ first, (missingNames formula bindings).head? = some first ∧ names = [first] := by
  have stops : substituteVariables formula bindings = .error (.undefinedVariables names) ↔
      ∃ first, (missingNames formula bindings).head? = some first ∧ names = [first] := by
    rw [finite.substituteVariables_eq_error_iff]
    simp only [Fault.undefinedVariables.injEq]
  rw [← stops]
  unfold evaluate
  rw [written]
  constructor
  · intro failed
    rcases cases_of_bind_eq_error failed with substitution | ⟨text, _, resolution⟩
    · exact substitution
    · exact absurd resolution (Resolver.run_ne_undefinedVariables _ (.fresh engine.maxPasses) names)
  · intro failed
    rw [failed]
    rfl

private theorem validate_eq_undefinedVariables_iff (balanced : isBalanced formula = true)
    (names : List Text) :
    engine.validate formula bindings = .error (.undefinedVariables names) ↔
      names = missingNames formula bindings ∧ names ≠ [] := by
  cases missing : missingNames formula bindings with
  | nil =>
      have checked : engine.validate formula bindings = engine.evaluate formula bindings >>=
          fun _ => .ok () := by
        unfold missingNames at missing
        unfold validate
        rw [written, balanced, missing]
        rfl
      rw [checked]
      constructor
      · intro failed
        rcases cases_of_bind_eq_error failed with evaluated | ⟨_, _, impossible⟩
        · obtain ⟨first, found, _⟩ :=
            (engine.evaluate_eq_undefinedVariables_iff finite written names).mp evaluated
          rw [missing] at found
          cases found
        · cases impossible
      · rintro ⟨none, some⟩
        exact absurd none some
  | cons first others =>
      have refused : engine.validate formula bindings =
          .error (.undefinedVariables (first :: others)) := by
        unfold missingNames at missing
        unfold validate
        rw [written, balanced, missing]
        rfl
      rw [refused]
      constructor
      · rintro ⟨⟩
        exact ⟨rfl, List.cons_ne_nil first others⟩
      · rintro ⟨rfl, _⟩
        rfl

private theorem reportsMissing (balanced : isBalanced formula = true) :
    engine.ReportsMissing formula bindings := by
  have checked := engine.validate_eq_undefinedVariables_iff finite written balanced
  have evaluated := engine.evaluate_eq_undefinedVariables_iff finite written
  refine ⟨checked, evaluated, ?_, ?_, ?_⟩
  · simp only [checked, evaluated]
    cases missingNames formula bindings with
    | nil => simp
    | cons first others => simp
  · intro names failed
    rw [((checked names).mp failed).1]
    rfl
  · intro names failed first found
    obtain ⟨other, same, rfl⟩ := (evaluated names).mp failed
    obtain rfl : other = first := Option.some.inj (same.symm.trans found)
    rfl

end Engine

/-- Evaluation and check miss the same names: the references of a formula without a value, of which
the one reports the first and the other one all. -/
theorem missingNames_agree (engine : Engine) (formula : Text) {bindings : Bindings}
    (finite : bindings.AreFinite) :
    AreReferences (referencedNames formula) formula ∧
      (∀ fault, substituteVariables formula bindings = .error fault ↔
        ∃ name, (missingNames formula bindings).head? = some name ∧
          fault = .undefinedVariables [name]) ∧
      (isBlank formula = false → isBalanced formula = true →
        engine.ReportsMissing formula bindings) := by
  refine ⟨areReferences_referencedNames formula, ?_, ?_⟩
  · exact finite.substituteVariables_eq_error_iff formula
  · exact fun written balanced => engine.reportsMissing finite written balanced

def guardedNames : Text × Bindings :=
  ("IFERROR({b}+{a}, {c}*{b}+\x7bd)".toList, Bindings.empty.bind ['a'] (.number 2))

theorem missingNames_agree_guardedNames :
    guardedNames.2.AreFinite ∧
      Engine.standard.validate guardedNames.1 guardedNames.2 =
        .error (.undefinedVariables [['b'], ['c']]) ∧
      Engine.standard.evaluate guardedNames.1 guardedNames.2 =
        .error (.undefinedVariables [['b']]) := by
  have finite : guardedNames.2.AreFinite := by
    intro name x bound
    change (match name == ['a'] with
      | true => some (.number 2)
      | false => none) = some (Value.number x) at bound
    split at bound
    · cases bound
      decide +kernel
    · cases bound
  obtain ⟨_, _, reports⟩ := missingNames_agree Engine.standard guardedNames.1 finite
  have reported := reports (by decide +kernel) (by decide +kernel)
  refine ⟨finite, (reported.validate_iff _).mpr ?_, (reported.evaluate_iff _).mpr ⟨['b'], ?_, rfl⟩⟩
  · decide +kernel
  · decide +kernel

end QuantityFormula
