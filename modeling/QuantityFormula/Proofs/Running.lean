import Mathlib
import QuantityFormula.Resolver

/-!
Steps of a resolution as functions of the resolver they run on.
-/

set_option autoImplicit false

namespace QuantityFormula

variable {α β : Type}

namespace Resolution

@[simp]
theorem run_pure (value : α) (resolver : Resolver) :
    (pure value : Resolution α).run resolver = (.ok value, resolver) := rfl

@[simp]
theorem run_throw (fault : Fault) (resolver : Resolver) :
    (throw fault : Resolution α).run resolver = (.error fault, resolver) := rfl

@[simp]
theorem run_ofExcept (outcome : Except Fault α) (resolver : Resolver) :
    (MonadExcept.ofExcept outcome : Resolution α).run resolver = (outcome, resolver) := by
  cases outcome <;> rfl

theorem run_bind (first : Resolution α) (following : α → Resolution β) (resolver : Resolver) :
    (first >>= following).run resolver =
      ExceptT.bindCont following (first.run resolver).1 (first.run resolver).2 := rfl

theorem run_bind_ok {first : Resolution α} {resolver after : Resolver} {value : α}
    (ran : first.run resolver = (.ok value, after)) (following : α → Resolution β) :
    (first >>= following).run resolver = (following value).run after := by
  rw [run_bind, ran]
  rfl

theorem run_bind_error {first : Resolution α} {resolver after : Resolver} {fault : Fault}
    (ran : first.run resolver = (.error fault, after)) (following : α → Resolution β) :
    (first >>= following).run resolver = (.error fault, after) := by
  rw [run_bind, ran]
  rfl

theorem run_tryCatch (step : Resolution α) (handler : Fault → Resolution α) (resolver : Resolver) :
    (tryCatch step handler).run resolver = match step.run resolver with
      | (.ok value, after) => (.ok value, after)
      | (.error fault, after) => (handler fault).run after := by
  simp only [tryCatch, tryCatchThe, MonadExceptOf.tryCatch, ExceptT.tryCatch,
    ExceptT.run, ExceptT.mk, bind, StateT.bind]
  cases step resolver with
  | mk outcome after => cases outcome <;> rfl

theorem exists_of_run_bind_ok {first : Resolution α} {following : α → Resolution β}
    {resolver final : Resolver}
    {result : β} (ran : (first >>= following).run resolver = (.ok result, final)) :
    ∃ value after, first.run resolver = (.ok value, after) ∧
      (following value).run after = (.ok result, final) := by
  cases step : first.run resolver with
  | mk outcome after =>
      cases outcome with
      | error fault =>
          rw [run_bind_error step] at ran
          cases ran
      | ok value =>
          rw [run_bind_ok step] at ran
          exact ⟨value, after, rfl, ran⟩

theorem cases_of_run_bind_error {first : Resolution α} {following : α → Resolution β}
    {resolver final : Resolver}
    {fault : Fault} (ran : (first >>= following).run resolver = (.error fault, final)) :
    first.run resolver = (.error fault, final) ∨
      ∃ value after, first.run resolver = (.ok value, after) ∧
        (following value).run after = (.error fault, final) := by
  cases step : first.run resolver with
  | mk outcome after =>
      cases outcome with
      | error other =>
          rw [run_bind_error step] at ran
          cases ran
          exact .inl rfl
      | ok value =>
          rw [run_bind_ok step] at ran
          exact .inr ⟨value, after, rfl, ran⟩

/-- A list is gone through up to the first item that fails. -/
theorem exists_of_run_mapM_error {step : α → Resolution β} {items : List α}
    {resolver final : Resolver} {fault : Fault}
    (ran : (items.mapM step).run resolver = (.error fault, final)) :
    ∃ earlier item later values after, items = earlier ++ item :: later ∧
      (earlier.mapM step).run resolver = (.ok values, after) ∧
      (step item).run after = (.error fault, final) := by
  induction items generalizing resolver with
  | nil => cases ran
  | cons item items ih =>
      rw [List.mapM_cons] at ran
      rcases cases_of_run_bind_error ran with failed | ⟨value, after, valued, ranRest⟩
      · exact ⟨[], item, items, [], resolver, rfl, rfl, failed⟩
      rcases cases_of_run_bind_error ranRest with failedRest | ⟨values, _, _, ended⟩
      · obtain ⟨earlier, failing, later, values, between, rfl, valuedEarlier, failed⟩ :=
          ih failedRest
        refine ⟨item :: earlier, failing, later, value :: values, between, rfl, ?_, failed⟩
        rw [List.mapM_cons, run_bind_ok valued, run_bind_ok valuedEarlier, run_pure]
      · cases ended

end Resolution

namespace Resolver

theorem run_refuse (resolver : Resolver) :
    (refuse : Resolution α).run resolver = (.error (.tooComplex resolver.maxPasses), resolver) :=
  rfl

def counted (resolver : Resolver) : Resolver :=
  { resolver with passes := resolver.passes + 1 }

def opened (resolver : Resolver) : Resolver :=
  { resolver with depth := resolver.depth + 1 }

theorem run_guarded_within {resolver : Resolver} (within : resolver.depth < maxDepth)
    (body : Resolution α) :
    (guarded body).run resolver =
      ((body.run resolver.opened).1,
        { (body.run resolver.opened).2 with depth := (body.run resolver.opened).2.depth - 1 }) :=
  if_neg (by omega)

theorem run_guarded_beyond {resolver : Resolver} (beyond : maxDepth ≤ resolver.depth)
    (body : Resolution α) :
    (guarded body).run resolver = (.error (.tooComplex maxDepth), resolver) :=
  if_pos beyond

theorem run_countPass_within {resolver : Resolver} (within : resolver.passes < resolver.maxPasses) :
    countPass.run resolver = (.ok (), resolver.counted) := by
  change ((if resolver.maxPasses < resolver.passes + 1 then throw (.tooComplex resolver.maxPasses)
    else pure ()) : Resolution Unit).run resolver.counted = _
  rw [if_neg (by omega)]
  rfl

theorem run_countPass_beyond {resolver : Resolver} (beyond : resolver.maxPasses ≤ resolver.passes) :
    countPass.run resolver = (.error (.tooComplex resolver.maxPasses), resolver.counted) := by
  change ((if resolver.maxPasses < resolver.passes + 1 then throw (.tooComplex resolver.maxPasses)
    else pure ()) : Resolution Unit).run resolver.counted = _
  rw [if_pos (by omega)]
  rfl

theorem run_pass_none {text : Text} (blocked : Call.next? text = .ok none)
    (replace : Call → Resolution Text)
    (resolver : Resolver) : (pass text replace).run resolver = (.ok text, resolver) := by
  unfold pass
  rw [blocked]
  rfl

theorem run_pass_some {text : Text} {call : Call} (next : Call.next? text = .ok (some call))
    (replace : Call → Resolution Text) (resolver : Resolver) :
    (pass text replace).run resolver = (countPass >>= fun _ => replace call).run resolver := by
  unfold pass
  rw [next]
  rfl

private theorem run_pass_error {text : Text} {fault : Fault}
    (failed : Call.next? text = .error fault)
    (replace : Call → Resolution Text) (resolver : Resolver) :
    (pass text replace).run resolver = (.error fault, resolver) := by
  unfold pass
  rw [failed]
  rfl

theorem run_resolveWithin_of_none {text : Text} (blocked : Call.next? text = .ok none) (fuel : Nat)
    (resolver : Resolver) : (resolveWithin fuel text).run resolver = (.ok text, resolver) := by
  cases fuel <;> exact run_pass_none blocked _ resolver

theorem run_resolveWithin_of_error {text : Text} {fault : Fault}
    (failed : Call.next? text = .error fault) (fuel : Nat)
    (resolver : Resolver) : (resolveWithin fuel text).run resolver = (.error fault, resolver) := by
  cases fuel <;> exact run_pass_error failed _ resolver

theorem run_evaluate_of_none {text : Text} (blocked : Call.next? text = .ok none)
    (resolver : Resolver) :
    (evaluate text).run resolver = (Arithmetic.evaluate text, resolver) :=
  (Resolution.run_bind_ok (run_resolveWithin_of_none blocked _ resolver) _).trans
    (Resolution.run_ofExcept _ _)

theorem run_evaluate_of_error {text : Text} {fault : Fault}
    (failed : Call.next? text = .error fault)
    (resolver : Resolver) : (evaluate text).run resolver = (.error fault, resolver) :=
  Resolution.run_bind_error (run_resolveWithin_of_error failed _ resolver) _

theorem cases_of_run_pass_ok {text result : Text} {replace : Call → Resolution Text}
    {resolver final : Resolver} (ran : (pass text replace).run resolver = (.ok result, final)) :
    result = text ∨ ∃ call, Call.next? text = .ok (some call) ∧
      (replace call).run resolver.counted = (.ok result, final) := by
  cases next : Call.next? text with
  | error fault =>
      rw [run_pass_error next] at ran
      cases ran
  | ok found =>
      cases found with
      | none =>
          rw [run_pass_none next] at ran
          cases ran
          exact .inl rfl
      | some call =>
          rw [run_pass_some next] at ran
          obtain ⟨_, after, counted, replaced⟩ := Resolution.exists_of_run_bind_ok ran
          rcases Nat.lt_or_ge resolver.passes resolver.maxPasses with within | beyond
          · rw [run_countPass_within within] at counted
            cases counted
            exact .inr ⟨call, rfl, replaced⟩
          · rw [run_countPass_beyond beyond] at counted
            cases counted

end Resolver

end QuantityFormula
