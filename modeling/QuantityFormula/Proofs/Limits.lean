import QuantityFormula.Engine
import QuantityFormula.Proofs.FaultOrigins
import QuantityFormula.Proofs.Shallow

/-!
The limits on an evaluation. A pass that is refused, and a guarded call that is open too deep, make
every evaluation fail that needs them, however many guards stand around them, and nothing else
passes a limit. So the limit on the passes is seen in nothing else than that fault: a higher one
leaves every other outcome as it is.
-/

set_option autoImplicit false

namespace QuantityFormula

namespace Resolver

namespace Evaluation

private theorem Refuses.outcome_eq {evaluation : Evaluation} {limit : Nat}
    (refuses : evaluation.Refuses limit) :
    evaluation.outcome = .error (.tooComplex limit) := by
  cases refuses with
  | pass next full =>
      rw [outcome, run_evaluate_of_next next, Resolution.run_bind_error (run_countPass_beyond full)]
  | guard calls full =>
      have room : maxDepth ≤ evaluation.resolver.counted.depth := full
      exact calls.outcome_of_error (run_guarded_beyond room _)

/-- An evaluation passes the limits of every evaluation that it needs. -/
theorem Leads.outcome_of_tooComplex {earlier later : Evaluation}
    (leads : Leads earlier later) {limit : Nat}
    (failed : later.outcome = .error (.tooComplex limit)) :
    earlier.outcome = .error (.tooComplex limit) := by
  have ran : (evaluate later.text).run later.resolver =
      (.error (.tooComplex limit), ((evaluate later.text).run later.resolver).2) := by
    rw [← failed]
    rfl
  cases leads with
  | replaced next within valued =>
      rw [outcome, run_evaluate_within next within, Resolution.run_bind_ok valued]
      exact failed
  | argument calls valued => exact calls.outcome_of_argument valued ran
  | value calls room => exact calls.outcome_of_value room ran
  | fallback calls room failedBefore unlimited =>
      exact calls.outcome_of_fallback room failedBefore unlimited ran

/-- A limit that is passed anywhere is the outcome of the whole. -/
theorem Visits.outcome_of_tooComplex {first last : Evaluation}
    (visits : Visits first last) {limit : Nat}
    (failed : last.outcome = .error (.tooComplex limit)) :
    first.outcome = .error (.tooComplex limit) := by
  induction visits with
  | refl => exact failed
  | tail _ leads ih => exact ih (leads.outcome_of_tooComplex failed)

theorem Raises.refuses {evaluation : Evaluation} {limit : Nat}
    (raises : evaluation.Raises (.tooComplex limit)) :
    evaluation.Refuses limit := by
  cases raises with
  | limit refuses => exact refuses
  | search failed => exact absurd failed (Call.unlimited_next? _ limit)
  | arithmetic _ failed => exact absurd failed (Arithmetic.unlimited_evaluate _ limit)

/-- A limit is passed exactly if an evaluation that is visited passes it by itself. -/
theorem outcome_eq_tooComplex_iff {first : Evaluation} {limit : Nat} :
    first.outcome = .error (.tooComplex limit) ↔
      ∃ last, first.Visits last ∧ last.Refuses limit := by
  constructor
  · intro failed
    obtain ⟨last, visits, raises⟩ := hasOrigin first rfl failed
    exact ⟨last, visits, raises.refuses⟩
  · rintro ⟨last, visits, refuses⟩
    exact visits.outcome_of_tooComplex refuses.outcome_eq

end Evaluation

/-- With more passes a text has the outcome it has with fewer, if that is not
that they were too few. -/
theorem runFresh_of_le {fewer more : Nat} (le : fewer ≤ more) {text : Text}
    (enough : runFresh fewer (evaluate text) ≠ .error (.tooComplex fewer)) :
    runFresh more (evaluate text) = runFresh fewer (evaluate text) := by
  have ran (limit : Nat) : runFresh limit (evaluate text) =
      ((fresh limit).spend (spent 0 text) (outcome 0 text)).1 :=
    congrArg Prod.fst (run_evaluate text (fresh limit))
  rw [ran] at enough
  rw [ran, ran]
  by_cases permits : (fresh fewer).Permits (spent 0 text)
  · have permitsMore : (fresh more).Permits (spent 0 text) := by
      unfold Permits fresh at permits ⊢
      dsimp only at permits ⊢
      omega
    rw [spend_within permits, spend_within permitsMore]
  · rw [spend_beyond permits] at enough
    exact absurd rfl enough

/-- Every pass is counted, a refused one too, so the count tells whether one was refused. -/
theorem Evaluation.outcome_of_lt_passes {evaluation : Evaluation}
    (room : evaluation.resolver.passes ≤ evaluation.resolver.maxPasses)
    (refused : evaluation.resolver.maxPasses <
      ((evaluate evaluation.text).run evaluation.resolver).2.passes) :
    evaluation.outcome = .error (.tooComplex evaluation.resolver.maxPasses) := by
  rw [run_evaluate] at refused
  rw [Evaluation.outcome, run_evaluate]
  by_cases permits : evaluation.resolver.Permits (spent evaluation.resolver.depth evaluation.text)
  · rw [spend_within permits] at refused
    unfold Permits at permits
    dsimp only [advance] at refused
    omega
  · rw [spend_beyond permits]

end Resolver

namespace Engine

private theorem evaluate_of_le {fewer more : Nat} (le : fewer ≤ more) {formula : Text}
    {bindings : Bindings}
    (enough : evaluate ⟨fewer⟩ formula bindings ≠ .error (.tooComplex fewer)) :
    evaluate ⟨more⟩ formula bindings = evaluate ⟨fewer⟩ formula bindings := by
  unfold evaluate at enough ⊢
  split
  · rfl
  · rename_i written
    rw [if_neg written] at enough
    cases substituted : substituteVariables formula bindings with
    | error fault => rfl
    | ok text =>
        rw [substituted] at enough
        exact Resolver.runFresh_of_le le enough

private theorem cases_validate (formula : Text) (bindings : Bindings) :
    (∃ fault, ∀ engine : Engine, engine.validate formula bindings = .error fault) ∨
      ∀ engine : Engine, engine.validate formula bindings = engine.evaluate formula bindings >>=
        fun _ => .ok () := by
  cases blank : Text.isBlank formula with
  | true => exact .inl ⟨_, fun engine => by unfold validate; rw [blank]; rfl⟩
  | false =>
      cases balanced : Text.isBalanced formula with
      | false => exact .inl ⟨_, fun engine => by unfold validate; rw [blank, balanced]; rfl⟩
      | true =>
          cases missing : (referencedNames formula).filter fun name => !bindings.contains name with
          | cons name others =>
              exact .inl ⟨_, fun engine => by unfold validate; rw [blank, balanced, missing]; rfl⟩
          | nil => exact .inr fun engine => by unfold validate; rw [blank, balanced, missing]; rfl

private theorem validate_of_le {fewer more : Nat} (le : fewer ≤ more) {formula : Text}
    {bindings : Bindings}
    (enough : validate ⟨fewer⟩ formula bindings ≠ .error (.tooComplex fewer)) :
    validate ⟨more⟩ formula bindings = validate ⟨fewer⟩ formula bindings := by
  rcases cases_validate formula bindings with ⟨fault, fails⟩ | evaluates
  · rw [fails, fails]
  · have evaluated : evaluate ⟨fewer⟩ formula bindings ≠ .error (.tooComplex fewer) := by
      intro failed
      rw [evaluates, failed] at enough
      exact enough rfl
    rw [evaluates, evaluates, evaluate_of_le le evaluated]

/-- A higher limit on the passes changes no outcome but the fault that it was too low. A limit that
is passed is the outcome of the whole: if the count of the passes goes beyond it, and exactly if an
evaluation inside refuses to go on. -/
theorem outcomes_of_maxPasses_le {fewer more : Nat} (le : fewer ≤ more) (formula : Text)
    (bindings : Bindings) :
    (evaluate ⟨fewer⟩ formula bindings ≠ .error (.tooComplex fewer) →
      evaluate ⟨more⟩ formula bindings = evaluate ⟨fewer⟩ formula bindings) ∧
    (validate ⟨fewer⟩ formula bindings ≠ .error (.tooComplex fewer) →
      validate ⟨more⟩ formula bindings = validate ⟨fewer⟩ formula bindings) ∧
    (∀ evaluation : Resolver.Evaluation,
      evaluation.resolver.passes ≤ evaluation.resolver.maxPasses →
      evaluation.resolver.maxPasses <
        ((Resolver.evaluate evaluation.text).run evaluation.resolver).2.passes →
      evaluation.outcome = .error (.tooComplex evaluation.resolver.maxPasses)) ∧
    ∀ (first : Resolver.Evaluation) (limit : Nat),
      first.outcome = .error (.tooComplex limit) ↔
        ∃ last, first.Visits last ∧ last.Refuses limit := by
  refine ⟨evaluate_of_le le, validate_of_le le, ?_, ?_⟩
  · exact fun evaluation room refused => evaluation.outcome_of_lt_passes room refused
  · exact fun first limit => Resolver.Evaluation.outcome_eq_tooComplex_iff

def callBehindFailure : Text :=
  "IFERROR(1/0, ABS(-2))".toList

def callUnderGuard : Resolver.Evaluation :=
  ⟨.fresh 1, "IFERROR(ABS(1), 2)".toList⟩

def guardUnderGuard : Resolver.Evaluation :=
  ⟨⟨5, 0, 63⟩, "IFERROR(IFERROR(1, 2), 3)".toList⟩

theorem outcomes_of_maxPasses_le_underGuard :
    (evaluate ⟨2⟩ callBehindFailure Bindings.empty = .ok 2 ∧
      evaluate ⟨5⟩ callBehindFailure Bindings.empty = .ok 2) ∧
    (validate ⟨2⟩ callBehindFailure Bindings.empty = .ok () ∧
      validate ⟨5⟩ callBehindFailure Bindings.empty = .ok ()) ∧
    callUnderGuard.outcome = .error (.tooComplex 1) ∧
    guardUnderGuard.outcome = .error (.tooComplex 64) := by
  have steady := outcomes_of_maxPasses_le (show 2 ≤ 5 by decide) callBehindFailure Bindings.empty
  have evaluated : evaluate ⟨2⟩ callBehindFailure Bindings.empty = .ok 2 := by decide +kernel
  have valid : validate ⟨2⟩ callBehindFailure Bindings.empty = .ok () := by decide +kernel
  have refused :
        1 < ((Resolver.evaluate callUnderGuard.text).run callUnderGuard.resolver).2.passes := by
      decide +kernel
  have outer : guardUnderGuard.Calls ⟨[], "IFERROR".toList, "IFERROR(1, 2), 3".toList, []⟩ .ifError
      ["IFERROR(1, 2)".toList, "3".toList] := ⟨rfl, by decide, by decide +kernel, rfl⟩
  have visits : guardUnderGuard.Visits ⟨⟨5, 1, 64⟩, "IFERROR(1, 2)".toList⟩ :=
    .single (.value outer (by decide))
  have inner : Resolver.Evaluation.Calls ⟨⟨5, 1, 64⟩, "IFERROR(1, 2)".toList⟩
      ⟨[], "IFERROR".toList, "1, 2".toList, []⟩ .ifError ["1".toList, "2".toList] :=
    ⟨rfl, by decide, by decide +kernel, rfl⟩
  refine ⟨⟨evaluated, ?_⟩, ⟨valid, ?_⟩, ?_, ?_⟩
  · rw [steady.1 (by rw [evaluated]; exact nofun), evaluated]
  · rw [steady.2.1 (by rw [valid]; exact nofun), valid]
  · exact steady.2.2.1 callUnderGuard (by decide) refused
  · exact (steady.2.2.2 _ 64).mpr ⟨_, visits, .guard inner (by decide)⟩

end Engine

end QuantityFormula
