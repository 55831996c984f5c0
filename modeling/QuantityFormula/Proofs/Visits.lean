import QuantityFormula.Proofs.Passes

/-!
Evaluations inside of an evaluation. A text leads to the text with the value of its next call,
and to each argument of this call that is evaluated on the way: those of a calculation from the
left up to the first that fails, the first one of a guard, and its second one if the first fails
within the limits. What is visited in this way is all that an evaluation looks at, whether or not
a guard holds back that it fails.
-/

set_option autoImplicit false

namespace QuantityFormula

namespace Resolver

structure Evaluation where
  resolver : Resolver
  text : Text

namespace Evaluation

def outcome (evaluation : Evaluation) : Except Fault Float :=
  ((evaluate evaluation.text).run evaluation.resolver).1

structure Calls (evaluation : Evaluation) (call : Call) (builtin : Builtin)
    (items : List Text) : Prop where
  next : Call.next? evaluation.text = .ok (some call)
  within : evaluation.resolver.passes < evaluation.resolver.maxPasses
  named : Builtin.ofName? call.name = some builtin
  split : Call.splitArguments call.arguments = .ok items

inductive Leads : Evaluation → Evaluation → Prop
  | replaced {evaluation : Evaluation} {call : Call} {x : Float} {after : Resolver}
      (next : Call.next? evaluation.text = .ok (some call))
      (within : evaluation.resolver.passes < evaluation.resolver.maxPasses)
      (valued : (callValue evaluate call).run evaluation.resolver.counted = (.ok x, after)) :
      Leads evaluation ⟨after, call.replaceBy (inlineNumber x)⟩
  | argument {evaluation : Evaluation} {call : Call} {calculation : Calculation} {item : Text}
      {earlier later : List Text}
      {values : List Float} {after : Resolver}
      (calls : evaluation.Calls call (.calculation calculation) (earlier ++ item :: later))
      (valued : (earlier.mapM evaluate).run evaluation.resolver.counted = (.ok values, after)) :
      Leads evaluation ⟨after, item⟩
  | value {evaluation : Evaluation} {call : Call} {value fallback : Text}
      (calls : evaluation.Calls call .ifError [value, fallback])
        (room : evaluation.resolver.depth < maxDepth) :
      Leads evaluation ⟨evaluation.resolver.counted.opened, value⟩
  | fallback {evaluation : Evaluation} {call : Call} {value fallback : Text}
      {fault : Fault} {after : Resolver}
      (calls : evaluation.Calls call .ifError [value, fallback])
        (room : evaluation.resolver.depth < maxDepth)
      (failed : (evaluate value).run evaluation.resolver.counted.opened = (.error fault, after))
      (unlimited : ∀ limit, fault ≠ .tooComplex limit) :
      Leads evaluation ⟨after, fallback⟩

def Visits : Evaluation → Evaluation → Prop :=
  Relation.ReflTransGen Leads

/-- What every evaluation hands on to those that it needs holds of all that it visits. -/
theorem Visits.invariant {Holds : Evaluation → Prop}
    (step : ∀ {earlier later}, Leads earlier later → Holds earlier → Holds later)
    {first last : Evaluation} (visits : Visits first last) (holds : Holds first) : Holds last := by
  induction visits with
  | refl => exact holds
  | tail _ leads ih => exact step leads ih

/-! ### Faults of what is needed -/

variable {evaluation : Evaluation} {call : Call} {value fallback item : Text}
  {earlier later : List Text} {after : Resolver}

theorem run_evaluate_within {text : Text} {resolver : Resolver}
    (next : Call.next? text = .ok (some call)) (within : resolver.passes < resolver.maxPasses) :
    (evaluate text).run resolver = (do
      let x ← callValue evaluate call
      evaluate (call.replaceBy (inlineNumber x))).run resolver.counted :=
  (run_evaluate_of_next next resolver).trans
    (Resolution.run_bind_ok (run_countPass_within within) _)

theorem Calls.outcome_of_error {builtin : Builtin} {items : List Text}
    (calls : evaluation.Calls call builtin items)
    {fault : Fault}
    (failed : (applyBuiltin evaluate items builtin).run evaluation.resolver.counted =
      (.error fault, after)) :
    evaluation.outcome = .error fault := by
  have ran : (callValue evaluate call).run evaluation.resolver.counted = (.error fault, after) := by
    unfold callValue
    rw [calls.named]
    dsimp only
    rw [calls.split]
    exact Resolution.run_bind_error failed _
  rw [outcome, run_evaluate_within calls.next calls.within, Resolution.run_bind_error ran]

/-- A calculation fails for the first of its arguments that does. -/
theorem Calls.outcome_of_argument {calculation : Calculation} {values : List Float}
    {last : Resolver} {fault : Fault}
    (calls : evaluation.Calls call (.calculation calculation) (earlier ++ item :: later))
    (valued : (earlier.mapM evaluate).run evaluation.resolver.counted = (.ok values, after))
    (failed : (evaluate item).run after = (.error fault, last)) :
    evaluation.outcome = .error fault := by
  have ran : ((earlier ++ item :: later).mapM evaluate).run evaluation.resolver.counted =
      (.error fault, last) := by
    rw [List.mapM_append, List.mapM_cons, Resolution.run_bind_ok valued]
    exact Resolution.run_bind_error (Resolution.run_bind_error failed _) _
  exact calls.outcome_of_error (Resolution.run_bind_error ran _)

private theorem run_guarded_ifError (room : evaluation.resolver.depth < maxDepth)
    {outcome : Except Fault Float}
    (ran : (ifError evaluate [value, fallback]).run evaluation.resolver.counted.opened =
      (outcome, after)) :
    (applyBuiltin evaluate [value, fallback] .ifError).run evaluation.resolver.counted =
      (outcome, { after with depth := after.depth - 1 }) := by
  have guarded := @run_guarded_within _ evaluation.resolver.counted room
    (ifError evaluate [value, fallback])
  rw [ran] at guarded
  exact guarded

/-- A guard does not hold back that its first argument passes a limit. -/
theorem Calls.outcome_of_value {limit : Nat}
    (calls : evaluation.Calls call .ifError [value, fallback])
    (room : evaluation.resolver.depth < maxDepth)
    (failed : (evaluate value).run evaluation.resolver.counted.opened =
      (.error (.tooComplex limit), after)) :
    evaluation.outcome = .error (.tooComplex limit) := by
  have ran : (ifError evaluate [value, fallback]).run evaluation.resolver.counted.opened =
      (.error (.tooComplex limit), after) := by
    rw [ifError, Resolution.run_tryCatch, failed]
    rfl
  exact calls.outcome_of_error (run_guarded_ifError room ran)

/-- A guard whose first argument fails within the limits fails if its second one does. -/
theorem Calls.outcome_of_fallback {fault last : Fault} {final : Resolver}
    (calls : evaluation.Calls call .ifError [value, fallback])
    (room : evaluation.resolver.depth < maxDepth)
    (failed : (evaluate value).run evaluation.resolver.counted.opened = (.error fault, after))
    (unlimited : ∀ limit, fault ≠ .tooComplex limit)
    (failedBehind : (evaluate fallback).run after = (.error last, final)) :
    evaluation.outcome = .error last := by
  have ran : (ifError evaluate [value, fallback]).run evaluation.resolver.counted.opened =
      (.error last, final) := by
    rw [ifError, Resolution.run_tryCatch, failed]
    cases fault with
    | tooComplex limit => exact absurd rfl (unlimited limit)
    | _ => exact failedBehind
  exact calls.outcome_of_error (run_guarded_ifError room ran)

end Evaluation

end Resolver

end QuantityFormula
