import QuantityFormula.Proofs.Running

/-!
What a step of a resolution computes, and at what cost. A step is judged on every resolver at
once: it has one of the values it may have, or fails where it may fail, or passes a limit that
the resolver could not afford. Its cost bounds the passes it counts and the guarded calls it
opens inside of one another.
-/

set_option autoImplicit false

namespace QuantityFormula

variable {α β : Type}

/-- An outcome with a value as accepted, a fault where one is due, or a
limit where one is passed. -/
def Answers (outcome : Except Fault α) (accepts : α → Prop) (fails beyond : Prop) : Prop :=
  match outcome with
  | .ok value => accepts value
  | .error (.tooComplex _) => beyond
  | .error _ => fails

theorem Answers.of_error {accepts : α → Prop} {accepts' : β → Prop}
    {fails fails' beyond beyond' : Prop}
    {fault : Fault} (answers : Answers (.error fault) accepts fails beyond)
    (fault_imp : fails → fails')
    (limit_imp : beyond → beyond') : Answers (.error fault) accepts' fails' beyond' := by
  cases fault with
  | tooComplex limit => exact limit_imp answers
  | _ => exact fault_imp answers

theorem Answers.fails_of_ne {accepts : α → Prop} {fails beyond : Prop} {fault : Fault}
    (answers : Answers (.error fault) accepts fails beyond)
    (unlimited : ∀ limit, fault ≠ .tooComplex limit) : fails := by
  cases fault with
  | tooComplex limit => exact absurd rfl (unlimited limit)
  | _ => exact answers

theorem Answers.mono {outcome : Except Fault α} {accepts accepts' : α → Prop}
    {fails fails' beyond beyond' : Prop} (answers : Answers outcome accepts fails beyond)
    (value_imp : ∀ value, accepts value → accepts' value)
    (fault_imp : fails → fails') (limit_imp : beyond → beyond') :
    Answers outcome accepts' fails' beyond' := by
  cases outcome with
  | ok value => exact value_imp value answers
  | error fault => exact answers.of_error fault_imp limit_imp

namespace Resolver

structure Advances (calls : Nat) (before after : Resolver) : Prop where
  maxPasses : after.maxPasses = before.maxPasses
  depth : after.depth = before.depth
  passes : after.passes ≤ before.passes + calls

structure Affords (resolver : Resolver) (calls guards : Nat) : Prop where
  passes : resolver.passes + calls ≤ resolver.maxPasses
  depth : resolver.depth + guards ≤ maxDepth

theorem Advances.refl (calls : Nat) (resolver : Resolver) : Advances calls resolver resolver :=
  ⟨rfl, rfl, Nat.le_add_right _ _⟩

theorem Advances.trans {calls more : Nat} {before between after : Resolver}
    (first : Advances calls before between)
    (second : Advances more between after) : Advances (calls + more) before after := by
  obtain ⟨maxPasses, depth, passes⟩ := first
  obtain ⟨maxPasses', depth', passes'⟩ := second
  exact ⟨maxPasses'.trans maxPasses, depth'.trans depth, by omega⟩

theorem Advances.mono {calls more : Nat} {before after : Resolver}
    (advances : Advances calls before after)
    (fewer : calls ≤ more) : Advances more before after := by
  obtain ⟨maxPasses, depth, passes⟩ := advances
  exact ⟨maxPasses, depth, by omega⟩

theorem Affords.mono {resolver : Resolver} {calls more guards deeper : Nat}
    (affords : resolver.Affords more deeper)
    (fewer : calls ≤ more) (shallower : guards ≤ deeper) : resolver.Affords calls guards := by
  obtain ⟨passes, depth⟩ := affords
  exact ⟨by omega, by omega⟩

theorem Affords.after {before between : Resolver} {calls more guards : Nat}
    (affords : before.Affords (calls + more) guards) (advances : Advances calls before between) :
    between.Affords more guards := by
  obtain ⟨passes, depth⟩ := affords
  obtain ⟨maxPasses', depth', passes'⟩ := advances
  exact ⟨by omega, by omega⟩

end Resolver

/-- A step with values that are accepted and faults where they are due, at a cost. It passes a limit
only where the fuel is not ample or the resolver cannot afford the cost. -/
def Computes (step : Resolution α) (calls guards : Nat) (ample : Prop) (accepts : α → Prop)
    (fails : Prop) : Prop :=
  ∀ ⦃before after : Resolver⦄ ⦃outcome : Except Fault α⦄, step.run before = (outcome, after) →
    Resolver.Advances calls before after ∧
      Answers outcome accepts fails ¬(ample ∧ before.Affords calls guards)

namespace Computes

variable {step : Resolution α} {calls more guards deeper : Nat} {ample ample' : Prop}
  {accepts accepts' : α → Prop}
  {fails fails' : Prop}

theorem answers (computes : Computes step calls guards ample accepts fails) (resolver : Resolver) :
    Answers (step.run resolver).1 accepts fails ¬(ample ∧ resolver.Affords calls guards) :=
  (computes rfl).2

theorem mono (computes : Computes step calls guards ample accepts fails) (fewer : calls ≤ more)
    (shallower : guards ≤ deeper) (ample_imp : ample' → ample)
    (value_imp : ∀ value, accepts value → accepts' value)
    (fault_imp : fails → fails') : Computes step more deeper ample' accepts' fails' := by
  intro before after outcome ran
  obtain ⟨advances, answers⟩ := computes ran
  refine ⟨advances.mono fewer, answers.mono value_imp fault_imp ?_⟩
  intro beyond within
  exact beyond ⟨ample_imp within.1, within.2.mono fewer shallower⟩

theorem of_outcome {outcome : Except Fault α} (answers : Answers outcome accepts fails False) :
    Computes (MonadExcept.ofExcept outcome) 0 0 True accepts fails := by
  intro before after outcome' ran
  rw [Resolution.run_ofExcept] at ran
  cases ran
  exact ⟨.refl 0 before, answers.mono (fun _ accepted => accepted) id False.elim⟩

theorem pure {value : α} (accepted : accepts value) :
    Computes (Pure.pure value) calls guards ample accepts fails := by
  intro before after outcome ran
  rw [Resolution.run_pure] at ran
  cases ran
  exact ⟨.refl calls before, accepted⟩

theorem of_fault {fault : Fault} (unlimited : ∀ limit, fault ≠ .tooComplex limit) (failed : fails) :
    Computes (MonadExcept.throw fault) calls guards ample accepts fails := by
  intro before after outcome ran
  rw [Resolution.run_throw] at ran
  cases ran
  refine ⟨.refl calls before, ?_⟩
  cases fault with
  | tooComplex limit => exact absurd rfl (unlimited limit)
  | _ => exact failed

theorem bind {following : α → Resolution β} {accepts' : β → Prop}
    (first : Computes step calls guards ample accepts fails)
    (second : ∀ value, accepts value →
      Computes (following value) more guards ample accepts' fails) :
    Computes (step >>= following) (calls + more) guards ample accepts' fails := by
  intro before after outcome ran
  cases ranFirst : step.run before with
  | mk firstOutcome between =>
      obtain ⟨advances, answers⟩ := first ranFirst
      cases firstOutcome with
      | error fault =>
          rw [Resolution.run_bind_error ranFirst] at ran
          cases ran
          refine ⟨advances.mono (Nat.le_add_right _ _), answers.of_error id ?_⟩
          intro beyond within
          exact beyond ⟨within.1, within.2.mono (Nat.le_add_right _ _) (Nat.le_refl _)⟩
      | ok value =>
          rw [Resolution.run_bind_ok ranFirst] at ran
          obtain ⟨advances', answers'⟩ := second value answers ran
          refine ⟨advances.trans advances', answers'.mono (fun _ accepted => accepted) id ?_⟩
          intro beyond within
          exact beyond ⟨within.1, within.2.after advances⟩

theorem bind_free {following : α → Resolution β} {accepts' : β → Prop}
    (first : Computes step calls guards ample accepts fails)
    (second : ∀ value, accepts value → Computes (following value) 0 guards ample accepts' fails) :
    Computes (step >>= following) calls guards ample accepts' fails :=
  first.bind second

/-- A handler that lets limits through goes on where the step itself fails. -/
theorem tryCatch {handler : Fault → Resolution α}
    (first : Computes step calls guards ample accepts fails)
    (rethrown : ∀ limit, handler (.tooComplex limit) = throw (.tooComplex limit))
    (handled : ∀ fault, (∀ limit, fault ≠ .tooComplex limit) → fails →
      Computes (handler fault) more guards ample accepts fails') :
    Computes (MonadExcept.tryCatch step handler) (calls + more) guards ample accepts fails' := by
  intro before after outcome ran
  rw [Resolution.run_tryCatch] at ran
  cases ranFirst : step.run before with
  | mk firstOutcome between =>
      obtain ⟨advances, answers⟩ := first ranFirst
      rw [ranFirst] at ran
      cases firstOutcome with
      | ok value =>
          cases ran
          exact ⟨advances.mono (Nat.le_add_right _ _), answers⟩
      | error fault =>
          by_cases limited : ∃ limit, fault = .tooComplex limit
          · obtain ⟨limit, rfl⟩ := limited
            -- The limit was passed by the first step, which alone costs no more than both.
            dsimp only at ran
            rw [rethrown, Resolution.run_throw] at ran
            cases ran
            refine ⟨advances.mono (Nat.le_add_right _ _), ?_⟩
            rintro ⟨enough, affords⟩
            exact answers ⟨enough, affords.mono (Nat.le_add_right _ _) (Nat.le_refl _)⟩
          · have unlimited : ∀ limit, fault ≠ .tooComplex limit :=
              fun limit same => limited ⟨limit, same⟩
            obtain ⟨advances', answers'⟩ :=
              handled fault unlimited (answers.fails_of_ne unlimited) ran
            refine ⟨advances.trans advances', answers'.mono (fun _ accepted => accepted) id ?_⟩
            intro beyond within
            exact beyond ⟨within.1, within.2.after advances⟩

theorem countPass : Computes Resolver.countPass 1 0 True (fun _ => True) fails := by
  intro before after outcome ran
  rcases Nat.lt_or_ge before.passes before.maxPasses with within | beyond
  · rw [Resolver.run_countPass_within within] at ran
    cases ran
    exact ⟨⟨rfl, rfl, Nat.le_refl _⟩, trivial⟩
  · rw [Resolver.run_countPass_beyond beyond] at ran
    cases ran
    refine ⟨⟨rfl, rfl, Nat.le_refl _⟩, ?_⟩
    rintro ⟨_, affords⟩
    have room := affords.passes
    omega

theorem pass_none {text : Text} {accepts : Text → Prop} (blocked : Call.next? text = .ok none)
    (accepted : accepts text) {replace : Call → Resolution Text} :
    Computes (Resolver.pass text replace) calls guards ample accepts fails := by
  intro before after outcome ran
  rw [Resolver.run_pass_none blocked] at ran
  cases ran
  exact ⟨.refl calls before, accepted⟩

theorem pass_some {text : Text} {call : Call} {accepts : Text → Prop}
    (next : Call.next? text = .ok (some call))
    {replace : Call → Resolution Text}
    (replaced : Computes (replace call) calls guards ample accepts fails) :
    Computes (Resolver.pass text replace) (1 + calls) guards ample accepts fails := by
  have following : Computes (Resolver.countPass >>= fun _ => replace call)
      (1 + calls) guards ample accepts fails :=
    .bind (countPass.mono (Nat.le_refl _) (Nat.zero_le _) (fun _ => trivial) (fun _ => id) id)
      fun _ _ => replaced
  intro before after outcome ran
  rw [Resolver.run_pass_some next] at ran
  exact following ran

theorem refuse : Computes (Resolver.refuse : Resolution α) 0 0 False accepts fails := by
  intro before after outcome ran
  rw [Resolver.run_refuse] at ran
  cases ran
  exact ⟨.refl 0 before, And.left⟩

theorem guarded (computes : Computes step calls guards ample accepts fails) :
    Computes (Resolver.guarded step) calls (guards + 1) ample accepts fails := by
  intro before after outcome ran
  rcases Nat.lt_or_ge before.depth Resolver.maxDepth with within | beyond
  · obtain ⟨advances, answers⟩ := @computes before.opened _ _ rfl
    have depth : (step.run before.opened).2.depth = before.depth + 1 := advances.depth
    rw [Resolver.run_guarded_within within] at ran
    cases ran
    refine ⟨⟨advances.maxPasses, ?_, advances.passes⟩,
      answers.mono (fun _ accepted => accepted) id ?_⟩
    · rw [depth]
      exact Nat.add_sub_cancel _ _
    · rintro unaffordable ⟨enough, affords⟩
      refine unaffordable ⟨enough, affords.passes, ?_⟩
      have room := affords.depth
      change before.depth + 1 + guards ≤ Resolver.maxDepth
      omega
  · rw [Resolver.run_guarded_beyond beyond] at ran
    cases ran
    refine ⟨.refl calls before, ?_⟩
    rintro ⟨_, affords⟩
    have room := affords.depth
    omega

end Computes

end QuantityFormula
