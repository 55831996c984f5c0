import QuantityFormula.Proofs.LocalFaults
import QuantityFormula.Proofs.Visits

/-!
Where a fault comes from. A fault of the parentheses, of a limit or of a name is none of a
single token, value or argument, and no call around it makes another fault of it. So it is
raised in one of the evaluations that are visited: by a limit, in the search for the next call,
or in the arithmetic that is left.
-/

set_option autoImplicit false

namespace QuantityFormula

namespace Resolver

theorem isFinite_of_run_callValue {call : Call} {x : Float} {resolver after : Resolver}
    (ran : (callValue evaluate call).run resolver = (.ok x, after)) : x.isFinite = true := by
  unfold callValue at ran
  split at ran
  · cases ran
  · obtain ⟨items, _, _, ranItems⟩ := Resolution.exists_of_run_bind_ok ran
    obtain ⟨value, _, _, ranFinite⟩ := Resolution.exists_of_run_bind_ok ranItems
    rw [Resolution.run_ofExcept] at ranFinite
    obtain ⟨rfl, finite⟩ := Arithmetic.eq_of_requireFinite (congrArg Prod.fst ranFinite)
    exact finite

namespace Evaluation

/-- A limit that an evaluation passes by its own next call: that on the passes, or that on the
guards. -/
inductive Refuses : Evaluation → Nat → Prop
  | pass {evaluation : Evaluation} {call : Call}
    (next : Call.next? evaluation.text = .ok (some call))
      (full : evaluation.resolver.maxPasses ≤ evaluation.resolver.passes) :
      Refuses evaluation evaluation.resolver.maxPasses
  | guard {evaluation : Evaluation} {call : Call} {items : List Text}
      (calls : evaluation.Calls call .ifError items)
      (full : maxDepth ≤ evaluation.resolver.depth) : Refuses evaluation maxDepth

/-- A fault that an evaluation has by itself, and not by one that it needs. -/
inductive Raises : Evaluation → Fault → Prop
  | limit {evaluation : Evaluation} {limit : Nat} (refuses : evaluation.Refuses limit) :
      Raises evaluation (.tooComplex limit)
  | search {evaluation : Evaluation} {fault : Fault}
      (failed : Call.next? evaluation.text = .error fault) :
      Raises evaluation fault
  | arithmetic {evaluation : Evaluation} {fault : Fault}
      (blocked : Call.next? evaluation.text = .ok none)
      (failed : Arithmetic.evaluate evaluation.text = .error fault) : Raises evaluation fault

def HasOrigin (evaluation : Evaluation) (fault : Fault) : Prop :=
  ∃ last, evaluation.Visits last ∧ last.Raises fault

theorem Raises.hasOrigin {evaluation : Evaluation} {fault : Fault}
    (raises : evaluation.Raises fault) :
    evaluation.HasOrigin fault :=
  ⟨evaluation, .refl, raises⟩

theorem Leads.hasOrigin {earlier later : Evaluation} {fault : Fault} (leads : Leads earlier later)
    (origin : later.HasOrigin fault) : earlier.HasOrigin fault := by
  obtain ⟨last, visits, raises⟩ := origin
  exact ⟨last, .head leads visits, raises⟩

def IsTraced (text : Text) : Prop :=
  ∀ resolver fault, outcome ⟨resolver, text⟩ = .error fault → fault.isLocal = false →
    HasOrigin ⟨resolver, text⟩ fault

/-! ### Faults of a call -/

variable {evaluation : Evaluation} {call : Call} {items : List Text}
  {fault : Fault} {after : Resolver}

private theorem Calls.hasOrigin_of_mapM {calculation : Calculation}
    (calls : evaluation.Calls call (.calculation calculation) items)
    (each : ∀ item ∈ items, IsTraced item) (isGlobal : fault.isLocal = false)
    (failed : (items.mapM evaluate).run evaluation.resolver.counted = (.error fault, after)) :
    evaluation.HasOrigin fault := by
  obtain ⟨earlier, item, later, values, between, rfl, valued, failedItem⟩ :=
    Resolution.exists_of_run_mapM_error failed
  have origin := each item (by simp) between fault (congrArg Prod.fst failedItem) isGlobal
  exact Leads.hasOrigin (.argument calls valued) origin

private theorem Calls.hasOrigin_of_ifError (calls : evaluation.Calls call .ifError items)
    (each : ∀ item ∈ items, IsTraced item) (isGlobal : fault.isLocal = false)
    (room : evaluation.resolver.depth < maxDepth)
    (failed : (ifError evaluate items).run evaluation.resolver.counted.opened =
      (.error fault, after)) :
    evaluation.HasOrigin fault := by
  match items with
  | [] | [_] | _ :: _ :: _ :: _ =>
      cases failed
      cases isGlobal
  | [value, fallback] =>
      rw [ifError, Resolution.run_tryCatch] at failed
      cases ran : (evaluate value).run evaluation.resolver.counted.opened with
      | mk outcome between =>
          rw [ran] at failed
          cases outcome with
          | ok x => cases failed
          | error first =>
              by_cases limited : ∃ limit, first = .tooComplex limit
              · obtain ⟨limit, rfl⟩ := limited
                cases failed
                exact Leads.hasOrigin (.value calls room)
                  (each value (by simp) _ _ (congrArg Prod.fst ran) rfl)
              · have unlimited : ∀ limit, first ≠ .tooComplex limit := not_exists.mp limited
                have failedBehind : (evaluate fallback).run between = (.error fault, after) := by
                  cases first with
                  | tooComplex limit => exact absurd rfl (unlimited limit)
                  | _ => exact failed
                have origin := each fallback (by simp) between fault
                  (congrArg Prod.fst failedBehind) isGlobal
                exact Leads.hasOrigin (.fallback calls room ran unlimited) origin

private theorem Calls.hasOrigin_of_applyBuiltin {builtin : Builtin}
    (calls : evaluation.Calls call builtin items)
    (each : ∀ item ∈ items, IsTraced item) (isGlobal : fault.isLocal = false)
    (failed : (applyBuiltin evaluate items builtin).run evaluation.resolver.counted =
      (.error fault, after)) :
    evaluation.HasOrigin fault := by
  cases builtin with
  | calculation calculation =>
      rcases Resolution.cases_of_run_bind_error failed with
          failedItems | ⟨values, between, _, applied⟩
      · exact calls.hasOrigin_of_mapM each isGlobal failedItems
      · rw [Resolution.run_ofExcept] at applied
        have isLocal := calculation.failsLocally_apply values fault (congrArg Prod.fst applied)
        rw [isLocal] at isGlobal
        cases isGlobal
  | ifError =>
      by_cases room : evaluation.resolver.depth < maxDepth
      · have failedChoice : ((ifError evaluate items).run evaluation.resolver.counted.opened).1 =
            .error fault := by
          have guarded := @run_guarded_within _ evaluation.resolver.counted room
            (ifError evaluate items)
          exact (congrArg Prod.fst guarded).symm.trans (congrArg Prod.fst failed)
        exact calls.hasOrigin_of_ifError each isGlobal room (Prod.ext failedChoice rfl)
      · have full : maxDepth ≤ evaluation.resolver.counted.depth := Nat.le_of_not_lt room
        rw [applyBuiltin, run_guarded_beyond full] at failed
        cases failed
        exact (Raises.limit (.guard calls full)).hasOrigin

/-- What fails in a call without being local comes from one of its arguments, or from
the guards that are open. -/
private theorem hasOrigin_of_callValue (next : Call.next? evaluation.text = .ok (some call))
    (within : evaluation.resolver.passes < evaluation.resolver.maxPasses)
    (each : ∀ items item, Call.splitArguments call.arguments = .ok items →
      item ∈ items → IsTraced item)
    (isGlobal : fault.isLocal = false)
    (failed : (callValue evaluate call).run evaluation.resolver.counted = (.error fault, after)) :
    evaluation.HasOrigin fault := by
  have originOfLocal (isLocal : fault.isLocal = true) : evaluation.HasOrigin fault := by
    rw [isLocal] at isGlobal
    cases isGlobal
  unfold callValue at failed
  cases named : Builtin.ofName? call.name with
  | none =>
      rw [named] at failed
      cases failed
      exact originOfLocal rfl
  | some builtin =>
      rw [named] at failed
      dsimp only at failed
      cases split : Call.splitArguments call.arguments with
      | error other =>
          rw [split, Resolution.run_bind_error (Resolution.run_ofExcept _ _)] at failed
          cases failed
          exact originOfLocal (Call.failsLocally_splitArguments _ _ split)
      | ok items =>
          rw [split, Resolution.run_bind_ok (Resolution.run_ofExcept _ _)] at failed
          rcases Resolution.cases_of_run_bind_error failed with
              failedItems | ⟨value, between, _, infinite⟩
          · have calls : evaluation.Calls call builtin items := ⟨next, within, named, split⟩
            exact calls.hasOrigin_of_applyBuiltin (each items · split) isGlobal failedItems
          · rw [Resolution.run_ofExcept] at infinite
            exact originOfLocal (Arithmetic.failsLocally_requireFinite value fault
              (congrArg Prod.fst infinite))

/-! ### Faults of a text -/

private theorem isTraced_of_none {text : Text}
    (blocked : Call.next? text = .ok none) : IsTraced text := by
  intro resolver fault failed _
  rw [outcome, run_evaluate_of_none blocked] at failed
  exact (Raises.arithmetic blocked failed).hasOrigin

private theorem isTraced_of_error {text : Text} {other : Fault}
    (searched : Call.next? text = .error other) : IsTraced text := by
  intro resolver fault failed _
  rw [outcome, run_evaluate_of_error searched] at failed
  cases failed
  exact (Raises.search searched).hasOrigin

private theorem isTraced_of_next {text : Text} {call : Call}
    (next : Call.next? text = .ok (some call))
    (each : ∀ items item, Call.splitArguments call.arguments = .ok items →
      item ∈ items → IsTraced item)
    (behind : ∀ x : Float, x.isFinite = true → IsTraced (call.replaceBy (inlineNumber x))) :
    IsTraced text := by
  intro resolver fault failed isGlobal
  by_cases within : resolver.passes < resolver.maxPasses
  · rw [outcome, run_evaluate_within next within] at failed
    cases ran : (callValue evaluate call).run resolver.counted with
    | mk valued after =>
        cases valued with
        | error other =>
            rw [Resolution.run_bind_error ran] at failed
            cases failed
            exact hasOrigin_of_callValue next within each isGlobal ran
        | ok x =>
            rw [Resolution.run_bind_ok ran] at failed
            have origin := behind x (isFinite_of_run_callValue ran) after fault failed isGlobal
            exact Leads.hasOrigin (.replaced next within ran) origin
  · have full : resolver.maxPasses ≤ resolver.passes := Nat.le_of_not_lt within
    rw [outcome, run_evaluate_of_next next,
      Resolution.run_bind_error (run_countPass_beyond full)] at failed
    cases failed
    exact (Raises.limit (.pass next full)).hasOrigin

/-- A fault that is not local is raised among the evaluations that are visited. -/
theorem hasOrigin (evaluation : Evaluation) (isGlobal : fault.isLocal = false)
    (failed : evaluation.outcome = .error fault) : evaluation.HasOrigin fault := by
  have traced : IsTraced evaluation.text := by
    refine Text.callInduction ?_ ?_ ?_ evaluation.text
    · exact fun text blocked => isTraced_of_none blocked
    · exact fun text other searched => isTraced_of_error searched
    · exact fun text call next each behind => isTraced_of_next next each behind
  exact traced evaluation.resolver fault failed isGlobal

end Evaluation

end Resolver

end QuantityFormula
