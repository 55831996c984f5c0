import QuantityFormula.Proofs.Meaning

/-!
The passes of a text call by call. What a call takes depends on its name, on its arguments and on
the guarded calls that are open around it, and on nothing else. So the passes of a text add up
along its calls, and a text is evaluated as if there were no fuel: a pass, the value of the next
call, and the text with this value.
-/

set_option autoImplicit false

namespace QuantityFormula

open Text

namespace Resolver

/-! ### What is spent -/

def spentInTurn (depth : Nat) : List Text → Nat
  | [] => 0
  | item :: items =>
    match outcome depth item with
    | .ok _ => spent depth item + spentInTurn depth items
    | .error _ => spent depth item

def spentOnChoice (depth : Nat) : List Text → Nat
  | [value, fallback] =>
    match outcome depth value with
    | .ok _ | .error (.tooComplex _) => spent depth value
    | .error _ => spent depth value + spent depth fallback
  | _ => 0

def spentOnBuiltin (depth : Nat) (items : List Text) : Builtin → Nat
  | .calculation _ => spentInTurn depth items
  | .ifError => if maxDepth ≤ depth then 0 else spentOnChoice (depth + 1) items

def spentOnCall (depth : Nat) (call : Call) : Nat :=
  match Builtin.ofName? call.name with
  | none => 0
  | some builtin =>
    match Call.splitArguments call.arguments with
    | .ok items => spentOnBuiltin depth items builtin
    | .error _ => 0

def spentBehind (depth : Nat) (call : Call) : Nat :=
  match replacement depth call with
  | .ok x => spent depth (call.replaceBy (inlineNumber x))
  | .error _ => 0

/-! ### What an evaluation takes -/

def Charges (fuel : Nat) (evaluate : Text → Resolution Float) : Prop :=
  ∀ depth text, Costs (evaluate text) fuel depth (spent depth text) (outcome depth text)

theorem charges_evaluateWithin (fuel : Nat) : Charges fuel (evaluateWithin fuel) :=
  fun depth text => ((exists_costs depth text).2 fuel).bind_free fun rest =>
    .of_outcome (Arithmetic.evaluate rest)

theorem charges_evaluate (fuel : Nat) : Charges fuel evaluate := by
  rintro depth text resolver rfl _
  exact run_evaluate text resolver

namespace Charges

variable {fuel : Nat} {evaluate : Text → Resolution Float}

theorem costs_mapM (charges : Charges fuel evaluate) (depth : Nat) (items : List Text) :
    Costs (items.mapM evaluate) fuel depth (spentInTurn depth items)
      (items.mapM (outcome depth)) := by
  induction items with
  | nil => exact .of_outcome (.ok [])
  | cons item items ih =>
      have first := charges depth item
      rw [List.mapM_cons, List.mapM_cons, spentInTurn]
      cases valued : outcome depth item with
      | error fault =>
          rw [valued] at first
          exact first.bind_error
      | ok value =>
          rw [valued] at first
          exact first.bind_ok (ih.bind_free fun values => .of_outcome (.ok (value :: values)))

private theorem costs_ifError (charges : Charges fuel evaluate) (depth : Nat) (items : List Text) :
    Costs (ifError evaluate items) fuel depth (spentOnChoice depth items)
      (ifError (outcome depth) items) := by
  match items with
  | [] | [_] | _ :: _ :: _ :: _ => exact .of_outcome (.error _)
  | [value, fallback] =>
      have first := charges depth value
      rw [ifError, ifError, spentOnChoice]
      cases valued : outcome depth value with
      | ok x =>
          rw [valued] at first
          exact first.tryCatch_ok fun _ => rfl
      | error fault =>
          rw [valued] at first
          cases fault with
          | tooComplex limit =>
              change Costs _ fuel depth (spent depth value + 0) _
              exact first.tryCatch_error (fun _ => rfl) (.of_outcome (.error (.tooComplex limit)))
          | _ => exact first.tryCatch_error (fun _ => rfl) (charges depth fallback)

private theorem costs_applyBuiltin (charges : Charges fuel evaluate) (depth : Nat)
    (items : List Text) (builtin : Builtin) :
    Costs (applyBuiltin evaluate items builtin) fuel depth (spentOnBuiltin depth items builtin)
      (applied depth items builtin) := by
  cases builtin with
  | calculation c =>
      exact (charges.costs_mapM depth items).bind_free fun values => .of_outcome (c.apply values)
  | ifError =>
      rw [spentOnBuiltin, applied]
      split
      · rename_i beyond
        exact .guarded_beyond beyond
      · rename_i within
        exact (charges.costs_ifError (depth + 1) items).guarded (by omega)

/-- A call takes its passes to the value that replaces it. -/
theorem costs_callValue (charges : Charges fuel evaluate) (depth : Nat) (call : Call) :
    Costs (callValue evaluate call) fuel depth (spentOnCall depth call)
      (replacement depth call) := by
  unfold callValue replacement spentOnCall
  cases Builtin.ofName? call.name with
  | none => exact .of_outcome (.error _)
  | some builtin =>
      cases Call.splitArguments call.arguments with
      | error fault => exact .of_outcome (.error fault)
      | ok items =>
          exact (charges.costs_applyBuiltin depth items builtin).bind_free
            fun value => .of_outcome (Arithmetic.requireFinite value)

end Charges

/-! ### Passes call by call -/

theorem resolved_of_next {text : Text} {call : Call} (next : Call.next? text = .ok (some call))
    (depth : Nat) :
    resolved depth text = replacement depth call >>= fun x =>
      resolved depth (call.replaceBy (inlineNumber x)) :=
  resolved_of_settles (settles_of_next next (fun _ item _ _ => textSettles item)
    (fun _ _ => textSettles _) depth)

/-- A text takes the same passes on all resolvers that leave room for them. -/
theorem spent_of_costs {text : Text} {depth passes : Nat} {result : Except Fault Text}
    (costs : ∀ fuel, Costs (resolveWithin fuel text) fuel depth passes result) :
    spent depth text = passes := by
  have ample : ∃ resolver : Resolver, resolver.depth = depth ∧ resolver.Permits (spent depth text) ∧
      resolver.Permits passes :=
    ⟨⟨spent depth text + passes, 0, depth⟩, rfl, .inr (by dsimp only; omega),
      .inr (by dsimp only; omega)⟩
  obtain ⟨resolver, rfl, permits, permits'⟩ := ample
  have ran := (exists_costs resolver.depth text).2 _ resolver rfl (Nat.le_refl _)
  rw [costs _ resolver rfl (Nat.le_refl _), spend_within permits, spend_within permits'] at ran
  have after : resolver.passes + passes = resolver.passes + spent resolver.depth text :=
    congrArg (fun run => run.2.passes) ran
  omega

/-- A pass for the next call, those inside of it, and those of the text with its value. -/
theorem spent_of_next {text : Text} {call : Call} (next : Call.next? text = .ok (some call))
    (depth : Nat) :
    spent depth text = 1 + (spentOnCall depth call + spentBehind depth call) := by
  have replaced (fuel : Nat) : Costs
      (do
        resolveWithin fuel
          (call.replaceBy (inlineNumber (← callValue (evaluateWithin fuel) call))))
      fuel depth (spentOnCall depth call + spentBehind depth call)
      (replacement depth call >>= fun x => resolved depth (call.replaceBy (inlineNumber x))) := by
    have value := (charges_evaluateWithin fuel).costs_callValue depth call
    rw [spentBehind]
    cases valued : replacement depth call with
    | error fault =>
        rw [valued] at value
        exact value.bind_error
    | ok x =>
        rw [valued] at value
        exact value.bind_ok ((exists_costs depth (call.replaceBy (inlineNumber x))).2 fuel)
  exact spent_of_costs (costs_of_some next replaced)

private theorem costs_countPass (fuel depth : Nat) : Costs countPass fuel depth 1 (.ok ()) := by
  intro resolver _ _
  by_cases within : resolver.passes < resolver.maxPasses
  · rw [run_countPass_within within, spend_within (.inr within)]
    rfl
  · have beyond : ¬resolver.Permits 1 := by
      unfold Permits
      omega
    have exhausted : resolver.counted = resolver.exhaust := by
      unfold counted exhaust
      rw [Nat.max_eq_right (by omega)]
    rw [run_countPass_beyond (Nat.le_of_not_lt within), spend_beyond beyond, exhausted]

theorem costs_resolve (fuel depth : Nat) (text : Text) :
    Costs (resolve text) fuel depth (spent depth text) (resolved depth text) := by
  rintro resolver rfl _
  exact run_resolve text resolver

theorem run_resolve_of_next {text : Text} {call : Call} (next : Call.next? text = .ok (some call))
    (resolver : Resolver) :
    (resolve text).run resolver = (do
      countPass
      let x ← callValue evaluate call
      resolve (call.replaceBy (inlineNumber x))).run resolver := by
  have value :=
    (charges_evaluate (resolver.maxPasses - resolver.passes)).costs_callValue resolver.depth call
  rw [run_resolve, resolved_of_next next, spent_of_next next, spentBehind]
  cases valued : replacement resolver.depth call with
  | error fault =>
      rw [valued] at value
      exact ((costs_countPass _ _).bind_ok value.bind_error resolver rfl (Nat.le_refl _)).symm
  | ok x =>
      rw [valued] at value
      have goesOn := costs_resolve (resolver.maxPasses - resolver.passes) resolver.depth
        (call.replaceBy (inlineNumber x))
      exact ((costs_countPass _ _).bind_ok (value.bind_ok goesOn) resolver rfl (Nat.le_refl _)).symm

/-- An evaluation goes from call to call. -/
theorem run_evaluate_of_next {text : Text} {call : Call} (next : Call.next? text = .ok (some call))
    (resolver : Resolver) :
    (evaluate text).run resolver = (do
      countPass
      let x ← callValue evaluate call
      evaluate (call.replaceBy (inlineNumber x))).run resolver := by
  have arithmetic : (evaluate text).run resolver =
      (resolve text >>= fun rest => MonadExcept.ofExcept (Arithmetic.evaluate rest)).run resolver :=
    rfl
  rw [arithmetic, Resolution.run_bind, run_resolve_of_next next, ← Resolution.run_bind]
  simp only [bind_assoc]
  rfl

end Resolver

end QuantityFormula
