import QuantityFormula.Proofs.LocalFaults
import QuantityFormula.Proofs.Meaning

/-!
Texts that pass no limit. With as many passes as it needs a text passes a limit only by guarded
calls inside of one another, and each of them has a word of its own for its name. So a text with few
such words has one outcome, however many guarded calls are open around it.
-/

set_option autoImplicit false

namespace QuantityFormula

variable {α β : Type}

def Unlimited (outcome : Except Fault α) : Prop :=
  ∀ limit, outcome ≠ .error (.tooComplex limit)

namespace Unlimited

theorem ok (value : α) : Unlimited (.ok value) :=
  fun _ => nofun

theorem bind {first : Except Fault α} {following : α → Except Fault β} (unlimited : Unlimited first)
    (behind : ∀ value, first = .ok value → Unlimited (following value)) :
    Unlimited (first >>= following) := by
  cases first with
  | error fault =>
      intro limit same
      cases same
      exact unlimited limit rfl
  | ok value => exact behind value rfl

end Unlimited

theorem FailsLocally.unlimited {outcome : Except Fault α}
    (locally : FailsLocally outcome) : Unlimited outcome :=
  fun _ => locally.ne_error rfl

/-! ### Arithmetic -/

theorem Arithmetic.unlimited_evaluate (text : Text) : Unlimited (evaluate text) := by
  intro limit failed
  rcases fault_of_evaluate failed with same | isLocal
  · cases same
  · cases isLocal

/-! ### Calls -/

theorem Call.unlimited_next? (text : Text) : Unlimited (next? text) := by
  intro limit failed
  cases fault_of_next? failed

theorem ifError_pair (evaluate : Text → Except Fault Float) (value fallback : Text) :
    ifError evaluate [value, fallback] = match evaluate value with
      | .ok x => .ok x
      | .error (.tooComplex limit) => .error (.tooComplex limit)
      | .error _ => evaluate fallback := by
  rw [ifError]
  cases evaluate value with
  | ok x => rfl
  | error fault => cases fault <;> rfl

def Steady (outcome other : Except Fault α) : Prop :=
  outcome = other ∧ Unlimited outcome

namespace Steady

variable {evaluate evaluate' : Text → Except Fault Float} {items : List Text}

private theorem of_unlimited {outcome : Except Fault α} (unlimited : Unlimited outcome) :
    Steady outcome outcome :=
  ⟨rfl, unlimited⟩

theorem bind {first first' : Except Fault α} {following following' : α → Except Fault β}
    (steady : Steady first first')
    (behind : ∀ value, first = .ok value → Steady (following value) (following' value)) :
    Steady (first >>= following) (first' >>= following') := by
  obtain ⟨rfl, unlimited⟩ := steady
  refine ⟨?_, unlimited.bind fun value valued => (behind value valued).2⟩
  cases first with
  | error fault => rfl
  | ok value => exact (behind value rfl).1

theorem mapM (each : ∀ item ∈ items, Steady (evaluate item) (evaluate' item)) :
    Steady (items.mapM evaluate) (items.mapM evaluate') := by
  induction items with
  | nil => exact of_unlimited (.ok [])
  | cons item items ih =>
      rw [List.mapM_cons, List.mapM_cons]
      refine (each item List.mem_cons_self).bind fun value _ => .bind (ih ?_) fun values _ => ?_
      · exact fun other member => each other (List.mem_cons_of_mem _ member)
      · exact of_unlimited (.ok (value :: values))

theorem ifError (each : ∀ item ∈ items, Steady (evaluate item) (evaluate' item)) :
    Steady (QuantityFormula.ifError evaluate items) (QuantityFormula.ifError evaluate' items) := by
  match items with
  | [] | [_] | _ :: _ :: _ :: _ => exact of_unlimited fun _ => nofun
  | [value, fallback] =>
      obtain ⟨same, unlimited⟩ := each value List.mem_cons_self
      have second := each fallback (by simp)
      rw [ifError_pair, ifError_pair, ← same]
      cases valued : evaluate value with
      | ok x => exact of_unlimited (.ok x)
      | error fault =>
          cases fault with
          | tooComplex limit => exact absurd valued (unlimited limit)
          | _ => exact second

end Steady

namespace Resolver

def IsSteady (text : Text) : Prop :=
  ∀ depth depth', depth + guardWords.count text ≤ maxDepth →
    depth' + guardWords.count text ≤ maxDepth →
    Steady (outcome depth text) (outcome depth' text)

variable {depth depth' bound : Nat}

private theorem steady_applied {items : List Text}
    (each : ∀ item ∈ items, IsSteady item ∧ guardWords.count item ≤ bound)
    (builtin : Builtin)
    (room : depth + (bound + if builtin.isGuarded = true then 1 else 0) ≤ maxDepth)
    (room' : depth' + (bound + if builtin.isGuarded = true then 1 else 0) ≤ maxDepth) :
    Steady (applied depth items builtin) (applied depth' items builtin) := by
  cases builtin with
  | calculation c =>
      rw [show (Builtin.calculation c).isGuarded = false from rfl,
        if_neg Bool.false_ne_true] at room room'
      refine .bind (.mapM fun item member => ?_) fun values _ =>
        .of_unlimited (c.failsLocally_apply values).unlimited
      obtain ⟨steady, few⟩ := each item member
      exact steady depth depth' (by omega) (by omega)
  | ifError =>
      rw [show Builtin.ifError.isGuarded = true from rfl, if_pos rfl] at room room'
      rw [applied, applied, if_neg (by omega), if_neg (by omega)]
      refine .ifError fun item member => ?_
      obtain ⟨steady, few⟩ := each item member
      exact steady (depth + 1) (depth' + 1) (by omega) (by omega)

private theorem steady_replacement {call : Call}
    (each : ∀ items item, Call.splitArguments call.arguments = .ok items →
      item ∈ items → IsSteady item)
    (room : depth + (guardWords.count call.arguments + if guardWords.counts call.name = true then
      1 else 0) ≤ maxDepth)
    (room' : depth' + (guardWords.count call.arguments + if guardWords.counts call.name = true then
      1 else 0) ≤ maxDepth) :
    Steady (replacement depth call) (replacement depth' call) := by
  unfold replacement
  cases found : Builtin.ofName? call.name with
  | none => exact .of_unlimited fun _ => nofun
  | some builtin =>
      refine .bind (.of_unlimited (Call.failsLocally_splitArguments _).unlimited) fun items split =>
        .bind ?_ fun value _ =>
          .of_unlimited (Arithmetic.failsLocally_requireFinite value).unlimited
      have guards : builtin.isGuarded = true → guardWords.counts call.name = true := by
        intro guarded
        apply guardWords_counts
        rw [Call.isGuardedName, found]
        exact guarded
      have fewer : (if builtin.isGuarded = true then 1 else 0) ≤ if guardWords.counts call.name =
          true then 1 else 0 := by
        by_cases guarded : builtin.isGuarded = true
        · rw [if_pos guarded, if_pos (guards guarded)]
        · rw [if_neg guarded]
          exact Nat.zero_le _
      have items_steady : ∀ item ∈ items,
          IsSteady item ∧ guardWords.count item ≤ guardWords.count call.arguments :=
        fun item member => ⟨each items item split member,
          guardWords.count_le_of_mem_splitArguments split member⟩
      exact steady_applied items_steady builtin (by omega) (by omega)

/-- The guarded calls that are open around a text with few guards make no difference to it. -/
theorem isSteady (text : Text) : IsSteady text := by
  refine Text.callInduction ?_ ?_ ?_ text
  · intro text blocked depth depth' _ _
    rw [outcome_of_none blocked, outcome_of_none blocked]
    exact .of_unlimited (Arithmetic.unlimited_evaluate text)
  · intro text fault failed depth depth' _ _
    rw [outcome_of_error failed, outcome_of_error failed]
    refine .of_unlimited fun limit same => ?_
    cases same
    exact Call.unlimited_next? text limit failed
  · intro text call next each behind depth depth' room room'
    have words := guardWords.count_of_parts (Call.parts_of_next? next)
    rw [outcome_of_next next, outcome_of_next next]
    refine .bind (steady_replacement each (by omega) (by omega)) fun x valued => ?_
    have finite := isFinite_of_replacement valued
    have few := guardWords.count_replaceBy_le (Call.parts_of_next? next) finite
    exact behind x finite depth depth' (by omega) (by omega)

end Resolver

end QuantityFormula
