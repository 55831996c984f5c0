import QuantityFormula.Proofs.Blanks
import QuantityFormula.Proofs.Budget

/-!
What a text means apart from any limit on the passes. The outcome of a text is that with as many
passes as it has words, which is enough, and it follows the calls: the next one is evaluated, and
the text goes on with its value in its place.
-/

set_option autoImplicit false

namespace QuantityFormula

open Text

namespace Resolver

def resolved (depth : Nat) (text : Text) : Except Fault Text :=
  ((resolve text).run ⟨nameWords.count text, 0, depth⟩).1

def spent (depth : Nat) (text : Text) : Nat :=
  ((resolve text).run ⟨nameWords.count text, 0, depth⟩).2.passes

def outcome (depth : Nat) (text : Text) : Except Fault Float :=
  resolved depth text >>= Arithmetic.evaluate

def applied (depth : Nat) (arguments : List Text) : Builtin → Except Fault Float
  | .calculation c => do c.apply (← arguments.mapM (outcome depth))
  | .ifError => if maxDepth ≤ depth then .error (.tooComplex maxDepth) else ifError (outcome
    (depth + 1)) arguments

def replacement (depth : Nat) (call : Call) : Except Fault Float :=
  match Builtin.ofName? call.name with
  | none => .error (.unknownFunction call.name)
  | some builtin => do
    let arguments ← Call.splitArguments call.arguments
    let value ← applied depth arguments builtin
    Arithmetic.requireFinite value

theorem isFinite_of_replacement {depth : Nat} {call : Call} {x : Float}
    (valued : replacement depth call = .ok x) :
    x.isFinite = true := by
  unfold replacement at valued
  split at valued
  · cases valued
  · obtain ⟨_, _, valued⟩ := exists_of_bind_eq_ok valued
    obtain ⟨value, _, valued⟩ := exists_of_bind_eq_ok valued
    obtain ⟨rfl, finite⟩ := Arithmetic.eq_of_requireFinite valued
    exact finite

/-! ### Every text settles -/

/-- A text comes to its outcome in no more passes than it has words. -/
def TextSettles (text : Text) : Prop :=
  ∀ depth, Settles (fun fuel => resolveWithin fuel text) depth (nameWords.count text)
    (resolved depth text)

private theorem run_resolve_of_settles {text : Text} {depth bound : Nat}
    {result : Except Fault Text}
    (settles : Settles (fun fuel => resolveWithin fuel text) depth bound result)
    (bounded : bound ≤ nameWords.count text) :
    ∃ passes ≤ bound, (∀ fuel, Costs (resolveWithin fuel text) fuel depth passes result) ∧
      resolved depth text = result ∧ spent depth text = passes := by
  obtain ⟨passes, few, costs⟩ := settles
  have ran : (resolve text).run ⟨nameWords.count text, 0, depth⟩ = _ :=
    costs _ ⟨nameWords.count text, 0, depth⟩ rfl (Nat.le_refl _)
  have permits : Permits ⟨nameWords.count text, 0, depth⟩ passes := by
    right
    dsimp only
    omega
  rw [spend_within permits] at ran
  refine ⟨passes, few, costs, ?_, ?_⟩
  · rw [resolved, ran]
  · rw [spent, ran]
    exact Nat.zero_add passes

private theorem TextSettles.of_settles {text : Text}
    (settles : ∀ depth, ∃ result,
      Settles (fun fuel => resolveWithin fuel text) depth (nameWords.count text) result) :
    TextSettles text := by
  intro depth
  obtain ⟨result, settles⟩ := settles depth
  obtain ⟨_, _, _, same, _⟩ := run_resolve_of_settles settles (Nat.le_refl _)
  rwa [same]

theorem TextSettles.outcome {text : Text} (settles : TextSettles text) (depth : Nat) :
    Settles (fun fuel => evaluateWithin fuel text) depth (nameWords.count text)
      (outcome depth text) :=
  (settles depth).bind_free fun resolved _ => .of_outcome (Arithmetic.evaluate resolved)

private theorem settles_applied {items : List Text} (each : ∀ item ∈ items, TextSettles item)
    (depth : Nat) (builtin : Builtin) :
    Settles (fun fuel => applyBuiltin (evaluateWithin fuel) items builtin) depth
      (items.map nameWords.count).sum
      (applied depth items builtin) := by
  cases builtin with
  | calculation c =>
      exact (Settles.mapM fun item member => (each item member).outcome depth).bind_free
        fun values _ => .of_outcome (c.apply values)
  | ifError =>
      rw [applied]
      split
      · rename_i beyond
        exact ⟨0, Nat.zero_le _, fun _ => .guarded_beyond beyond⟩
      · rename_i within
        exact (Settles.ifError fun item member => (each item member).outcome (depth + 1)).guarded
          (by omega)

private theorem settles_replacement {call : Call}
    (each : ∀ items item, Call.splitArguments call.arguments = .ok items →
      item ∈ items → TextSettles item)
    (depth : Nat) :
    Settles (fun fuel => callValue (evaluateWithin fuel) call) depth
      (nameWords.count call.arguments)
      (replacement depth call) := by
  unfold callValue replacement
  cases found : Builtin.ofName? call.name with
  | none => exact .of_outcome (.error _)
  | some builtin =>
      dsimp only
      cases split : Call.splitArguments call.arguments with
      | error fault => exact .of_outcome (.error fault)
      | ok items =>
          have settled :=
            settles_applied (fun item member => each items item split member) depth builtin
          exact (settled.mono (nameWords.sum_count_splitArguments split)).bind_free
            fun value _ => .of_outcome (Arithmetic.requireFinite value)

/-- A text with a call goes on with the value of the call in its place. -/
theorem settles_of_next {text : Text} {call : Call} (next : Call.next? text = .ok (some call))
    (each : ∀ items item, Call.splitArguments call.arguments = .ok items →
      item ∈ items → TextSettles item)
    (behind : ∀ x : Float, x.isFinite = true → TextSettles (call.replaceBy (inlineNumber x)))
    (depth : Nat) :
    Settles (fun fuel => resolveWithin fuel text) depth (nameWords.count text)
      (replacement depth call >>= fun x => resolved depth (call.replaceBy (inlineNumber x))) := by
  have parts := Call.parts_of_next? next
  have words := nameWords.count_of_parts parts
  rw [nameWords_counts parts, if_pos rfl] at words
  have goesOn (x : Float) (valued : replacement depth call = .ok x) :
      Settles (fun fuel => resolveWithin fuel (call.replaceBy (inlineNumber x))) depth
        (nameWords.count call.before + nameWords.count call.after)
        (resolved depth (call.replaceBy (inlineNumber x))) := by
    have finite := isFinite_of_replacement valued
    exact (behind x finite depth).mono (nameWords.count_replaceBy_le parts finite)
  exact (settles_of_some next ((settles_replacement each depth).bind goesOn)).mono (by omega)

theorem textSettles (text : Text) : TextSettles text := by
  refine Text.callInduction ?_ ?_ ?_ text
  · exact fun text blocked => .of_settles fun depth => ⟨_, settles_of_none blocked depth _⟩
  · exact fun text fault failed => .of_settles fun depth => ⟨_, settles_of_error failed depth _⟩
  · exact fun text call next each behind =>
      .of_settles fun depth => ⟨_, settles_of_next next each behind depth⟩

/-- On every resolver a text takes its passes to its outcome. -/
theorem exists_costs (depth : Nat) (text : Text) :
    spent depth text ≤ nameWords.count text ∧
      ∀ fuel, Costs (resolveWithin fuel text) fuel depth (spent depth text)
        (resolved depth text) := by
  obtain ⟨passes, few, costs, same, cost⟩ :=
    run_resolve_of_settles (textSettles text depth) (Nat.le_refl _)
  rw [cost]
  exact ⟨few, costs⟩

theorem run_resolve (text : Text) (resolver : Resolver) :
    (resolve text).run resolver = resolver.spend (spent resolver.depth text)
      (resolved resolver.depth text) :=
  (exists_costs resolver.depth text).2 _ resolver rfl (Nat.le_refl _)

theorem run_evaluate (text : Text) (resolver : Resolver) :
    (evaluate text).run resolver = resolver.spend (spent resolver.depth text)
      (outcome resolver.depth text) := by
  have ran := run_resolve text resolver
  unfold outcome
  by_cases permits : resolver.Permits (spent resolver.depth text)
  · rw [spend_within permits] at ran ⊢
    cases result : resolved resolver.depth text with
    | error fault =>
        rw [result] at ran
        exact Resolution.run_bind_error ran _
    | ok rest =>
        rw [result] at ran
        exact (Resolution.run_bind_ok ran _).trans (Resolution.run_ofExcept _ _)
  · rw [spend_beyond permits] at ran ⊢
    exact Resolution.run_bind_error ran _

/-- With a pass for every word a text comes to its outcome. -/
theorem runFresh_evaluate {text : Text} {maxPasses : Nat}
    (enough : nameWords.count text ≤ maxPasses) :
    runFresh maxPasses (evaluate text) = outcome 0 text := by
  have few := (exists_costs 0 text).1
  have permits : (fresh maxPasses).Permits (spent 0 text) := by
    right
    change 0 + spent 0 text ≤ maxPasses
    omega
  have ran := run_evaluate text (fresh maxPasses)
  rw [show (fresh maxPasses).depth = 0 from rfl, spend_within permits] at ran
  rw [runFresh, ran]

/-! ### The outcome call by call -/

theorem resolved_of_settles {text : Text} {depth : Nat} {result : Except Fault Text}
    (settles : Settles (fun fuel => resolveWithin fuel text) depth (nameWords.count text) result) :
    resolved depth text = result := by
  obtain ⟨_, _, _, same, _⟩ := run_resolve_of_settles settles (Nat.le_refl _)
  exact same

theorem outcome_of_none {text : Text} (blocked : Call.next? text = .ok none) (depth : Nat) :
    outcome depth text = Arithmetic.evaluate text := by
  rw [outcome, resolved_of_settles (settles_of_none blocked depth _)]
  rfl

theorem outcome_of_error {text : Text} {fault : Fault} (failed : Call.next? text = .error fault)
    (depth : Nat) :
    outcome depth text = .error fault := by
  rw [outcome, resolved_of_settles (settles_of_error failed depth _)]
  rfl

/-- The outcome of a text is that of the text with the value of its next call in the place of the
call. -/
theorem outcome_of_next {text : Text} {call : Call} (next : Call.next? text = .ok (some call))
    (depth : Nat) :
    outcome depth text = replacement depth call >>= fun x =>
      outcome depth (call.replaceBy (inlineNumber x)) := by
  have settles := settles_of_next next (fun _ item _ _ => textSettles item)
    (fun _ _ => textSettles _) depth
  rw [outcome, resolved_of_settles settles]
  cases replacement depth call <;> rfl

end Resolver

end QuantityFormula
