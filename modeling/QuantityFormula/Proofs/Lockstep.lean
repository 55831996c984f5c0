import QuantityFormula.Proofs.Outcome
import QuantityFormula.Proofs.Running

/-!
Two resolutions in step. On every resolver both count the same passes, and they come to related
values, pass the same limit, or fail in some other way each. A program whose steps are in step is in
step, so two texts are compared call by call.
-/

set_option autoImplicit false

namespace QuantityFormula

variable {α β γ δ : Type}

/-- Outcomes that nothing in a resolution tells apart: related values, one limit, or
faults of any other kind. -/
inductive Alike (related : α → β → Prop) : Except Fault α → Except Fault β → Prop where
  | ok {value : α} {value' : β} (same : related value value') : Alike related
    (.ok value) (.ok value')
  | limit (limit : Nat) : Alike related (.error (.tooComplex limit)) (.error (.tooComplex limit))
  | fault {fault fault' : Fault} (unlimited : ∀ limit, fault ≠ .tooComplex limit)
      (unlimited' : ∀ limit, fault' ≠ .tooComplex limit) : Alike related
        (.error fault) (.error fault')

theorem Alike.of_error (related : α → β → Prop) (fault : Fault) :
    Alike related (.error fault) (.error fault) := by
  cases fault with
  | tooComplex limit => exact .limit limit
  | _ => exact .fault (fun _ => nofun) (fun _ => nofun)

theorem Alike.of_forall {related : α → α → Prop} {outcome : Except Fault α}
    (same : ∀ value, outcome = .ok value → related value value) :
    Alike related outcome outcome := by
  cases outcome with
  | ok value => exact .ok (same value rfl)
  | error fault => exact .of_error related fault

theorem Alike.toOption_eq {outcome outcome' : Except Fault α} (alike : Alike Eq outcome outcome') :
    outcome.toOption = outcome'.toOption := by
  cases alike with
  | ok same => rw [same]
  | limit | fault => rfl

def InStep (related : α → β → Prop) (step : Resolution α) (step' : Resolution β) : Prop :=
  ∀ resolver, (step.run resolver).2 = (step'.run resolver).2 ∧
    Alike related (step.run resolver).1 (step'.run resolver).1

namespace InStep

variable {related : α → β → Prop} {other : γ → δ → Prop} {step : Resolution α}
  {step' : Resolution β}

theorem of_outcome {outcome : Except Fault α} {outcome' : Except Fault β}
    (alike : Alike related outcome outcome') :
    InStep related (MonadExcept.ofExcept outcome) (MonadExcept.ofExcept outcome') := by
  intro resolver
  rw [Resolution.run_ofExcept, Resolution.run_ofExcept]
  exact ⟨rfl, alike⟩

theorem pure {value : α} {value' : β} (same : related value value') :
    InStep related (Pure.pure value) (Pure.pure value') :=
  of_outcome (.ok same)

theorem bind {following : α → Resolution γ} {following' : β → Resolution δ}
    (first : InStep related step step')
    (second : ∀ value value', related value value' →
      InStep other (following value) (following' value')) :
    InStep other (step >>= following) (step' >>= following') := by
  intro resolver
  obtain ⟨sameCount, alike⟩ := first resolver
  rw [Resolution.run_bind, Resolution.run_bind]
  cases ran : step.run resolver with
  | mk outcome after =>
      cases ran' : step'.run resolver with
      | mk outcome' after' =>
          rw [ran, ran'] at sameCount alike
          dsimp only at sameCount alike ⊢
          subst sameCount
          cases alike with
          | ok same => exact second _ _ same after
          | limit limit => exact ⟨rfl, .limit limit⟩
          | fault unlimited unlimited' => exact ⟨rfl, .fault unlimited unlimited'⟩

/-- Handlers that let limits through take over on both sides or on none. -/
theorem tryCatch {handler : Fault → Resolution α} {handler' : Fault → Resolution β}
    (first : InStep related step step')
    (rethrown : ∀ limit, handler (.tooComplex limit) = throw (.tooComplex limit))
    (rethrown' : ∀ limit, handler' (.tooComplex limit) = throw (.tooComplex limit))
    (handled : ∀ fault fault', (∀ limit, fault ≠ .tooComplex limit) →
      (∀ limit, fault' ≠ .tooComplex limit) →
      InStep related (handler fault) (handler' fault')) :
    InStep related (MonadExcept.tryCatch step handler) (MonadExcept.tryCatch step' handler') := by
  intro resolver
  obtain ⟨sameCount, alike⟩ := first resolver
  rw [Resolution.run_tryCatch, Resolution.run_tryCatch]
  cases ran : step.run resolver with
  | mk outcome after =>
      cases ran' : step'.run resolver with
      | mk outcome' after' =>
          rw [ran, ran'] at sameCount alike
          dsimp only at sameCount alike
          subst sameCount
          cases alike with
          | ok same => exact ⟨rfl, .ok same⟩
          | limit limit =>
              dsimp only
              rw [rethrown, rethrown']
              exact ⟨rfl, .limit limit⟩
          | fault unlimited unlimited' => exact handled _ _ unlimited unlimited' after

theorem guarded (body : InStep related step step') :
    InStep related (Resolver.guarded step) (Resolver.guarded step') := by
  intro resolver
  rcases Nat.lt_or_ge resolver.depth Resolver.maxDepth with within | beyond
  · obtain ⟨sameCount, alike⟩ := body resolver.opened
    rw [Resolver.run_guarded_within within, Resolver.run_guarded_within within, sameCount]
    exact ⟨rfl, alike⟩
  · rw [Resolver.run_guarded_beyond beyond, Resolver.run_guarded_beyond beyond]
    exact ⟨rfl, .limit _⟩

theorem refuse : InStep related Resolver.refuse Resolver.refuse := by
  intro resolver
  rw [Resolver.run_refuse, Resolver.run_refuse]
  exact ⟨rfl, .limit _⟩

theorem countPass : InStep (fun _ _ => True) Resolver.countPass Resolver.countPass :=
  fun _ => ⟨rfl, .of_forall fun _ _ => trivial⟩

theorem pass {text text' : Text} {replace replace' : Call → Resolution Text}
    {calls : Call → Call → Prop} {texts : Text → Text → Prop}
    (next : Alike (Option.Rel calls) (Call.next? text) (Call.next? text'))
    (blocked : texts text text')
    (replaced : ∀ call call', calls call call' → InStep texts (replace call) (replace' call')) :
    InStep texts (Resolver.pass text replace) (Resolver.pass text' replace') := by
  refine (of_outcome next).bind fun found found' same => ?_
  cases same with
  | none => exact .pure blocked
  | some same => exact countPass.bind fun _ _ _ => replaced _ _ same

/-! ### Calls -/

variable {texts : Text → Text → Prop} {evaluate evaluate' : Text → Resolution Float}

theorem mapM (each : ∀ text text', texts text text' → InStep Eq (evaluate text) (evaluate' text'))
    {items items' : List Text} (same : List.Forall₂ texts items items') :
    InStep Eq (items.mapM evaluate) (items'.mapM evaluate') := by
  induction same with
  | nil => exact .pure rfl
  | cons first rest ih =>
      rw [List.mapM_cons, List.mapM_cons]
      refine (each _ _ first).bind fun value value' valueSame =>
        ih.bind fun values values' valuesSame => ?_
      rw [valueSame, valuesSame]
      exact .pure rfl

theorem ifError (each : ∀ text text', texts text text' →
    InStep Eq (evaluate text) (evaluate' text'))
    {items items' : List Text} (same : List.Forall₂ texts items items') :
    InStep Eq (QuantityFormula.ifError evaluate items)
      (QuantityFormula.ifError evaluate' items') := by
  -- Any number of arguments but two is refused on both sides.
  cases same with
  | nil => exact .of_outcome (.of_error Eq _)
  | cons value rest =>
      cases rest with
      | nil => exact .of_outcome (.of_error Eq _)
      | cons fallback others =>
          cases others with
          | cons _ _ =>
              exact .of_outcome (@Alike.fault _ _ _ (.argumentCount _ _ _)
                (.argumentCount _ _ _) (fun _ => nofun)
                (fun _ => nofun))
          | nil =>
              refine (each _ _ value).tryCatch (fun _ => rfl)
                (fun _ => rfl) fun fault fault' unlimited unlimited' => ?_
              have handled := each _ _ fallback
              cases fault with
              | tooComplex limit => exact absurd rfl (unlimited limit)
              | _ =>
                  cases fault' with
                  | tooComplex limit => exact absurd rfl (unlimited' limit)
                  | _ => exact handled

theorem applyBuiltin (each : ∀ text text', texts text text' →
    InStep Eq (evaluate text) (evaluate' text'))
    {items items' : List Text} (same : List.Forall₂ texts items items') (builtin : Builtin) :
    InStep Eq (Resolver.applyBuiltin evaluate items builtin)
      (Resolver.applyBuiltin evaluate' items' builtin) := by
  cases builtin with
  | ifError => exact (ifError each same).guarded
  | calculation c =>
      refine (mapM each same).bind fun values values' valuesSame => ?_
      rw [valuesSame]
      exact .of_outcome (.of_forall fun _ _ => rfl)

/-- Calls of one name are in step if their arguments are, and their values are finite. -/
theorem callValue (each : ∀ text text', texts text text' →
    InStep Eq (evaluate text) (evaluate' text'))
    {call call' : Call} (named : call.name = call'.name)
    (arguments : Alike (List.Forall₂ texts) (Call.splitArguments call.arguments)
      (Call.splitArguments call'.arguments)) :
    InStep (fun x y => x = y ∧ x.isFinite = true) (Resolver.callValue evaluate call)
      (Resolver.callValue evaluate' call') := by
  unfold Resolver.callValue
  rw [named]
  cases Builtin.ofName? call'.name with
  | none => exact .of_outcome (.of_error _ _)
  | some builtin =>
      refine (of_outcome arguments).bind fun items items' same =>
        (applyBuiltin each same builtin).bind ?_
      rintro x _ rfl
      refine .of_outcome (.of_forall fun value valued => ⟨rfl, ?_⟩)
      obtain ⟨rfl, finite⟩ := Arithmetic.eq_of_requireFinite valued
      exact finite

end InStep

end QuantityFormula
