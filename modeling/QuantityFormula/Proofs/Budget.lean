import QuantityFormula.Proofs.Outcome
import QuantityFormula.Proofs.Running
import QuantityFormula.Proofs.Words

/-!
What a resolution costs. On every resolver a text takes the same number of passes to the same
outcome, and it comes to this outcome unless the passes that are left do not suffice: then the first
pass beyond the limit is refused, and no guard holds this back. The passes are at most the words of
the text that could be names.
-/

set_option autoImplicit false

namespace QuantityFormula

variable {α β : Type}

namespace Resolver

def advance (passes : Nat) (resolver : Resolver) : Resolver :=
  { resolver with passes := resolver.passes + passes }

def exhaust (resolver : Resolver) : Resolver :=
  { resolver with passes := max resolver.maxPasses resolver.passes + 1 }

def Permits (resolver : Resolver) (passes : Nat) : Prop :=
  passes = 0 ∨ resolver.passes + passes ≤ resolver.maxPasses

instance (resolver : Resolver) (passes : Nat) : Decidable (resolver.Permits passes) :=
  inferInstanceAs (Decidable (_ ∨ _))

def spend (passes : Nat) (outcome : Except Fault α) (resolver : Resolver) :
    Except Fault α × Resolver :=
  if resolver.Permits passes then
    (outcome, resolver.advance passes)
  else
    (.error (.tooComplex resolver.maxPasses), resolver.exhaust)

variable {passes : Nat} {resolver : Resolver}

private theorem spend_zero (outcome : Except Fault α) (resolver : Resolver) :
    resolver.spend 0 outcome = (outcome, resolver) :=
  if_pos (.inl rfl)

theorem spend_within (within : resolver.Permits passes) (outcome : Except Fault α) :
    resolver.spend passes outcome = (outcome, resolver.advance passes) :=
  if_pos within

theorem spend_beyond (beyond : ¬resolver.Permits passes) (outcome : Except Fault α) :
    resolver.spend passes outcome = (.error (.tooComplex resolver.maxPasses), resolver.exhaust) :=
  if_neg beyond

theorem permits_advance (within : resolver.Permits passes) (more : Nat) :
    (resolver.advance passes).Permits more ↔ resolver.Permits (passes + more) := by
  unfold Permits at within ⊢
  unfold advance
  dsimp only
  omega

private theorem spend_advance (within : resolver.Permits passes) (more : Nat)
    (outcome : Except Fault α) :
    (resolver.advance passes).spend more outcome = resolver.spend (passes + more) outcome := by
  by_cases enough : resolver.Permits (passes + more)
  · rw [spend_within enough, spend_within ((permits_advance within more).mpr enough)]
    unfold advance
    rw [Nat.add_assoc]
  · rw [spend_beyond enough,
      spend_beyond fun other => enough ((permits_advance within more).mp other)]
    have same : max resolver.maxPasses (resolver.passes + passes) =
        max resolver.maxPasses resolver.passes := by
      unfold Permits at within
      omega
    unfold exhaust advance
    dsimp only
    rw [same]

private theorem spend_beyond_add (beyond : ¬resolver.Permits passes) (more : Nat)
    (outcome : Except Fault α) :
    resolver.spend (passes + more) outcome = (.error (.tooComplex resolver.maxPasses),
      resolver.exhaust) := by
  apply spend_beyond
  unfold Permits at beyond ⊢
  omega

private theorem ample_advance {fuel : Nat} (passes : Nat)
    (ample : resolver.maxPasses - resolver.passes ≤ fuel) :
    (resolver.advance passes).maxPasses - (resolver.advance passes).passes ≤ fuel := by
  unfold advance
  dsimp only
  omega

end Resolver

/-! ### Steps of a known cost -/

/-- A step that takes so many passes to an outcome, on every resolver at a depth
that the fuel suffices for. -/
def Costs (step : Resolution α) (fuel depth passes : Nat) (outcome : Except Fault α) : Prop :=
  ∀ resolver : Resolver, resolver.depth = depth → resolver.maxPasses - resolver.passes ≤ fuel →
    step.run resolver = resolver.spend passes outcome

namespace Costs

variable {step : Resolution α} {fuel depth passes more : Nat}

theorem of_outcome (outcome : Except Fault α) :
    Costs (MonadExcept.ofExcept outcome) fuel depth 0 outcome := by
  intro resolver _ _
  rw [Resolution.run_ofExcept, Resolver.spend_zero]

theorem bind_ok {following : α → Resolution β} {value : α} {outcome : Except Fault β}
    (first : Costs step fuel depth passes (.ok value))
    (second : Costs (following value) fuel depth more outcome) :
    Costs (step >>= following) fuel depth (passes + more) outcome := by
  rintro resolver rfl ample
  have ran := first resolver rfl ample
  by_cases within : resolver.Permits passes
  · rw [Resolver.spend_within within] at ran
    rw [Resolution.run_bind_ok ran, second (resolver.advance passes) rfl
      (Resolver.ample_advance passes ample), Resolver.spend_advance within]
  · rw [Resolver.spend_beyond within] at ran
    rw [Resolution.run_bind_error ran, Resolver.spend_beyond_add within]

theorem bind_error {following : α → Resolution β} {fault : Fault}
    (first : Costs step fuel depth passes (.error fault)) :
    Costs (step >>= following) fuel depth passes (.error fault) := by
  intro resolver atDepth ample
  have ran := first resolver atDepth ample
  by_cases within : resolver.Permits passes
  · rw [Resolver.spend_within within] at ran ⊢
    rw [Resolution.run_bind_error ran]
  · rw [Resolver.spend_beyond within] at ran ⊢
    rw [Resolution.run_bind_error ran]

theorem bind_free {following : α → Resolution β} {outcome : Except Fault α}
    {result : α → Except Fault β} (first : Costs step fuel depth passes outcome)
    (second : ∀ value, Costs (following value) fuel depth 0 (result value)) :
    Costs (step >>= following) fuel depth passes (outcome >>= result) := by
  cases outcome with
  | error fault => exact first.bind_error
  | ok value => exact first.bind_ok (second value)

theorem tryCatch_ok {handler : Fault → Resolution α} {value : α}
    (rethrown : ∀ limit, handler (.tooComplex limit) = throw (.tooComplex limit))
    (first : Costs step fuel depth passes (.ok value)) :
    Costs (MonadExcept.tryCatch step handler) fuel depth passes (.ok value) := by
  intro resolver atDepth ample
  have ran := first resolver atDepth ample
  by_cases within : resolver.Permits passes
  · rw [Resolver.spend_within within] at ran ⊢
    rw [Resolution.run_tryCatch, ran]
  · rw [Resolver.spend_beyond within] at ran ⊢
    rw [Resolution.run_tryCatch, ran]
    dsimp only
    rw [rethrown, Resolution.run_throw]

theorem tryCatch_error {handler : Fault → Resolution α} {fault : Fault} {outcome : Except Fault α}
    (rethrown : ∀ limit, handler (.tooComplex limit) = throw (.tooComplex limit))
    (first : Costs step fuel depth passes (.error fault))
    (second : Costs (handler fault) fuel depth more outcome) :
    Costs (MonadExcept.tryCatch step handler) fuel depth (passes + more) outcome := by
  rintro resolver rfl ample
  have ran := first resolver rfl ample
  by_cases within : resolver.Permits passes
  · rw [Resolver.spend_within within] at ran
    rw [Resolution.run_tryCatch, ran]
    dsimp only
    rw [second (resolver.advance passes) rfl (Resolver.ample_advance passes ample),
      Resolver.spend_advance within]
  · rw [Resolver.spend_beyond within] at ran
    rw [Resolution.run_tryCatch, ran, Resolver.spend_beyond_add within]
    dsimp only
    rw [rethrown, Resolution.run_throw]

theorem guarded {outcome : Except Fault α} (within : depth < Resolver.maxDepth)
    (body : Costs step fuel (depth + 1) passes outcome) :
    Costs (Resolver.guarded step) fuel depth passes outcome := by
  rintro resolver rfl ample
  have ran := body resolver.opened rfl ample
  rw [Resolver.run_guarded_within within, ran]
  by_cases permits : resolver.Permits passes
  · rw [Resolver.spend_within (show resolver.opened.Permits passes from permits),
      Resolver.spend_within permits]
    rfl
  · rw [Resolver.spend_beyond (show ¬resolver.opened.Permits passes from permits),
      Resolver.spend_beyond permits]
    rfl

theorem guarded_beyond (beyond : Resolver.maxDepth ≤ depth) :
    Costs (Resolver.guarded step) fuel depth 0 (.error (.tooComplex Resolver.maxDepth)) := by
  rintro resolver rfl _
  rw [Resolver.run_guarded_beyond beyond, Resolver.spend_zero]

end Costs

/-! ### Steps within a bound -/

/-- Steps that come to an outcome in no more passes than the bound, and in as
many whatever the fuel. -/
def Settles (step : (fuel : Nat) → Resolution α) (depth bound : Nat)
    (outcome : Except Fault α) : Prop :=
  ∃ passes ≤ bound, ∀ fuel, Costs (step fuel) fuel depth passes outcome

namespace Settles

variable {step : Nat → Resolution α} {depth bound more : Nat} {outcome : Except Fault α}

theorem of_outcome (outcome : Except Fault α) :
    Settles (fun _ => MonadExcept.ofExcept outcome) depth bound outcome :=
  ⟨0, Nat.zero_le _, fun _ => .of_outcome outcome⟩

theorem mono (settles : Settles step depth bound outcome) (fewer : bound ≤ more) :
    Settles step depth more outcome := by
  obtain ⟨passes, bounded, costs⟩ := settles
  exact ⟨passes, bounded.trans fewer, costs⟩

theorem bind {following : Nat → α → Resolution β} {result : α → Except Fault β}
    (first : Settles step depth bound outcome)
    (second : ∀ value, outcome = .ok value →
      Settles (fun fuel => following fuel value) depth more (result value)) :
    Settles (fun fuel => step fuel >>= following fuel) depth (bound + more)
      (outcome >>= result) := by
  obtain ⟨passes, bounded, costs⟩ := first
  cases outcome with
  | error fault => exact ⟨passes, by omega, fun fuel => (costs fuel).bind_error⟩
  | ok value =>
      obtain ⟨others, othersBounded, othersCosts⟩ := second value rfl
      exact ⟨passes + others, by omega, fun fuel => (costs fuel).bind_ok (othersCosts fuel)⟩

theorem bind_free {following : Nat → α → Resolution β} {result : α → Except Fault β}
    (first : Settles step depth bound outcome)
    (second : ∀ value, outcome = .ok value →
      Settles (fun fuel => following fuel value) depth 0 (result value)) :
    Settles (fun fuel => step fuel >>= following fuel) depth bound (outcome >>= result) :=
  first.bind second

theorem guarded (within : depth < Resolver.maxDepth)
    (body : Settles step (depth + 1) bound outcome) :
    Settles (fun fuel => Resolver.guarded (step fuel)) depth bound outcome := by
  obtain ⟨passes, bounded, costs⟩ := body
  exact ⟨passes, bounded, fun fuel => (costs fuel).guarded within⟩

variable {evaluate : Nat → Text → Resolution Float} {result : Text → Except Fault Float}
  {cost : Text → Nat}
  {items : List Text}

theorem mapM (each : ∀ item ∈ items,
    Settles (fun fuel => evaluate fuel item) depth (cost item) (result item)) :
    Settles (fun fuel => items.mapM (evaluate fuel)) depth (items.map cost).sum
      (items.mapM result) := by
  induction items with
  | nil => exact of_outcome (.ok [])
  | cons item items ih =>
      simp only [List.mapM_cons, List.map_cons, List.sum_cons]
      refine (each item List.mem_cons_self).bind fun value _ =>
        .bind_free (ih ?_) fun values _ => ?_
      · exact fun other member => each other (List.mem_cons_of_mem _ member)
      · exact of_outcome (.ok (value :: values))

theorem ifError (each : ∀ item ∈ items,
    Settles (fun fuel => evaluate fuel item) depth (cost item) (result item)) :
    Settles (fun fuel => QuantityFormula.ifError (evaluate fuel) items) depth (items.map cost).sum
      (QuantityFormula.ifError result items) := by
  -- Any number of arguments but two is refused at no cost.
  match items with
  | [] | [_] | _ :: _ :: _ :: _ => exact of_outcome (.error _)
  | [value, fallback] =>
      obtain ⟨passes, bounded, costs⟩ := each value List.mem_cons_self
      simp only [QuantityFormula.ifError, List.map_cons, List.map_nil, List.sum_cons, List.sum_nil]
      cases valued : result value with
      | ok x =>
          rw [valued] at costs
          exact ⟨passes, by omega, fun fuel => (costs fuel).tryCatch_ok fun _ => rfl⟩
      | error fault =>
          rw [valued] at costs
          obtain ⟨others, othersBounded, othersCosts⟩ := each fallback (by simp)
          cases fault with
          | tooComplex limit =>
              refine ⟨passes + 0, by omega, fun fuel => ?_⟩
              exact (costs fuel).tryCatch_error (fun _ => rfl)
                (.of_outcome (.error (.tooComplex limit)))
          | _ =>
              refine ⟨passes + others, by omega, fun fuel => ?_⟩
              exact (costs fuel).tryCatch_error (fun _ => rfl) (othersCosts fuel)

end Settles

namespace Resolver

def evaluateWithin (fuel : Nat) (text : Text) : Resolution Float := do
  MonadExcept.ofExcept (Arithmetic.evaluate (← resolveWithin fuel text))

theorem settles_of_none {text : Text} (blocked : Call.next? text = .ok none) (depth bound : Nat) :
    Settles (fun fuel => resolveWithin fuel text) depth bound (.ok text) := by
  refine ⟨0, Nat.zero_le _, fun fuel resolver _ _ => ?_⟩
  rw [spend_zero]
  exact run_resolveWithin_of_none blocked fuel resolver

theorem settles_of_error {text : Text} {fault : Fault} (failed : Call.next? text = .error fault)
    (depth bound : Nat) :
    Settles (fun fuel => resolveWithin fuel text) depth bound (.error fault) := by
  refine ⟨0, Nat.zero_le _, fun fuel resolver _ _ => ?_⟩
  rw [spend_zero]
  exact run_resolveWithin_of_error failed fuel resolver

/-- A pass costs one more than what stands for the call. -/
theorem costs_of_some {text : Text} {call : Call} (next : Call.next? text = .ok (some call))
    {depth passes : Nat} {outcome : Except Fault Text}
    (replaced : ∀ fuel, Costs
      (do
        resolveWithin fuel
          (call.replaceBy (inlineNumber (← callValue (evaluateWithin fuel) call))))
      fuel depth passes outcome)
    (fuel : Nat) : Costs (resolveWithin fuel text) fuel depth (1 + passes) outcome := by
  intro resolver atDepth ample
  by_cases within : resolver.passes < resolver.maxPasses
  · cases fuel with
    | zero => omega
    | succ fuel =>
        have permits : resolver.Permits 1 := .inr within
        have ran := replaced fuel (resolver.advance 1) atDepth
          (by unfold advance; dsimp only; omega)
        rw [spend_advance permits] at ran
        exact (run_pass_some next _ resolver).trans
          ((Resolution.run_bind_ok (run_countPass_within within) _).trans ran)
  · have beyond : ¬resolver.Permits (1 + passes) := by
      unfold Permits
      omega
    have exhausted : resolver.counted = resolver.exhaust := by
      unfold counted exhaust
      rw [Nat.max_eq_right (by omega)]
    have refused := run_countPass_beyond (Nat.le_of_not_lt within)
    rw [spend_beyond beyond, ← exhausted]
    cases fuel <;> exact (run_pass_some next _ resolver).trans (Resolution.run_bind_error refused _)

theorem settles_of_some {text : Text} {call : Call} (next : Call.next? text = .ok (some call))
    {depth bound : Nat} {outcome : Except Fault Text}
    (replaced : Settles (fun fuel => do
      resolveWithin fuel (call.replaceBy (inlineNumber (← callValue (evaluateWithin fuel) call))))
        depth bound outcome) :
    Settles (fun fuel => resolveWithin fuel text) depth (bound + 1) outcome := by
  obtain ⟨passes, bounded, costs⟩ := replaced
  exact ⟨1 + passes, by omega, costs_of_some next costs⟩

end Resolver

end QuantityFormula
