import QuantityFormula.Proofs.EagerCalls
import QuantityFormula.Proofs.ErrorBarrier
import QuantityFormula.Proofs.Parameters
import QuantityFormula.Proofs.Passes

/-!
How many arguments a call may have. A call is refused for the number of its arguments exactly if its
function is not listed with that number. A calculation counts the values of its arguments, and the
guard counts their texts before it evaluates any.
-/

set_option autoImplicit false

namespace QuantityFormula

open Text

/-- What a call with an accepted number of arguments comes to if they all have values. -/
def Builtin.Yields (builtin : Builtin) (result : Except Fault Float) : Prop :=
  (∃ x, result = .ok x ∧ x.isFinite = true) ∨ result = .error .divisionByZero ∨
    result = .error .invalidResult ∨
    builtin = .calculation .sqrt ∧ ∃ value, value < 0 ∧ result = .error (.negativeRoot value)

private theorem Builtin.Yields.ne_argumentCount {builtin : Builtin} {result : Except Fault Float}
    (yields : builtin.Yields result)
    (function : String) (arity : Arity) (count : Nat) :
    result ≠ .error (.argumentCount function arity count) := by
  rintro rfl
  rcases yields with ⟨_, same, _⟩ | same | same | ⟨_, _, _, same⟩ <;> cases same

/-- Any number of arguments but two is refused by the guard, whatever its
arguments are evaluated to. -/
theorem ifError_of_length {m : Type → Type} [Monad m] [MonadExceptOf Fault m]
    (evaluate : Text → m Float) {items : List Text} (other : items.length ≠ 2) :
    ifError evaluate items =
      throw (.argumentCount Builtin.ifError.name Builtin.ifError.arity items.length) := by
  match items with
  | [] | [_] | _ :: _ :: _ :: _ => rfl
  | [_, _] => exact absurd rfl other

private theorem Builtin.accepts_ifError {count : Nat} :
    ifError.arity.accepts count = true ↔ count = 2 := by
  rw [arity, Arity.exactly, Arity.accepts, Bool.and_eq_true, decide_eq_true_eq]
  dsimp only
  rw [decide_eq_true_eq]
  omega

namespace Resolver

/-! ### The call on its arguments -/

private theorem outcome_of_runFresh {limit : Nat} {text : Text} {value : Float}
    (ran : runFresh limit (evaluate text) = .ok value) : outcome 0 text = .ok value := by
  rw [runFresh, run_evaluate] at ran
  by_cases permits : (fresh limit).Permits (spent (fresh limit).depth text)
  · rwa [spend_within permits] at ran
  · rw [spend_beyond permits] at ran
    cases ran

private theorem next?_callText_nil (builtin : Builtin) :
    Call.next? (builtin.callText []) = .ok (some (builtin.call [])) := by
  have alone (head : Head) : Call.pick [head] = some head := by
    unfold Call.pick
    rw [List.find?_singleton]
    split <;> rfl
  have within : Head.all true ('(' :: ([',', ' '].intercalate [] ++ [')'])) = [] := rfl
  rw [Call.next?_eq_pick, builtin.all_callText, within, List.map_nil, alone]
  dsimp only
  rw [builtin.ofHead_callText (List.forall_mem_nil _)]
  rfl

/-- A calculation comes to its function of the values of its arguments. -/
theorem outcome_callText_calculation (c : Calculation) {arguments : List Text} {values : List Float}
    (each : ∀ argument ∈ arguments, IsItem argument ∧ isBlank argument = false)
    (valued : List.Forall₂
      (fun argument value => outcome 0 argument = .ok value) arguments values) :
    outcome 0 ((Builtin.calculation c).callText arguments) =
      (c.apply values >>= fun x => unsignedZero <$> Arithmetic.requireFinite x) := by
  cases valued with
  | nil => exact outcome_of_whole (next?_callText_nil (.calculation c)) rfl 0
  | @cons first value others values firstValued othersValued =>
      have sameOutcomes : (spaced (first :: others)).map (outcome 0) =
          (first :: others).map (outcome 0) := by
        apply map_spaced
        intro argument member
        have balanced := isNeutral_iff.mp (each argument member).1.isNeutral
        have unspaced : outcome 0 ([' '] ++ (argument ++ [])) = outcome 0 argument :=
          outcome_blanks rfl rfl balanced 0
        rwa [List.append_nil] at unspaced
      have summed : Sums c (spaced (first :: others)) :=
        sums c (List.cons_ne_nil _ _) (forall_mem_spaced each isArgument_cons_blank)
      unfold Sums at summed
      rw [sameOutcomes, ← callText_calculation,
        mapM_of_forall₂ (.cons firstValued othersValued)] at summed
      exact summed

private theorem replacement_call (builtin : Builtin) {arguments : List Text}
    (each : ∀ argument ∈ arguments, IsItem argument ∧ isBlank argument = false) (depth : Nat) :
    replacement depth (builtin.call arguments) =
      (applied depth (arguments.map trim) builtin >>= Arithmetic.requireFinite) := by
  rw [replacement, show (builtin.call arguments).name = builtin.name.toList from rfl,
    builtin.ofName?_name, splitArguments_call builtin each]
  rfl

private theorem spentOnCall_call (builtin : Builtin) {arguments : List Text}
    (each : ∀ argument ∈ arguments, IsItem argument ∧ isBlank argument = false) (depth : Nat) :
    spentOnCall depth (builtin.call arguments) =
      spentOnBuiltin depth (arguments.map trim) builtin := by
  rw [spentOnCall, show (builtin.call arguments).name = builtin.name.toList from rfl,
    builtin.ofName?_name, splitArguments_call builtin each]

private theorem spentOnChoice_of_length {depth : Nat} {items : List Text}
    (other : items.length ≠ 2) :
    spentOnChoice depth items = 0 := by
  match items with
  | [] | [_] | _ :: _ :: _ :: _ => rfl
  | [_, _] => exact absurd rfl other

section OtherLength

variable {arguments : List Text}
  (each : ∀ argument ∈ arguments, IsItem argument ∧ isBlank argument = false)
  (other : arguments.length ≠ 2)

include each other

private theorem replacement_guard_of_length {depth : Nat} (room : depth < maxDepth) :
    replacement depth (Builtin.ifError.call arguments) =
      .error (.argumentCount Builtin.ifError.name Builtin.ifError.arity arguments.length) := by
  have trimmed : (arguments.map trim).length ≠ 2 := by rwa [List.length_map]
  rw [replacement_call .ifError each, applied, if_neg (by omega),
    ifError_of_length _ trimmed, List.length_map]
  rfl

private theorem outcome_guard_of_length {depth : Nat} (room : depth < maxDepth) :
    outcome depth (Builtin.ifError.callText arguments) =
      .error (.argumentCount Builtin.ifError.name Builtin.ifError.arity arguments.length) := by
  have next := next?_callText_guard fun argument member => (each argument member).1
  rw [outcome_of_next next, replacement_guard_of_length each other room]
  rfl

/-- A guard on any number of texts but two is refused in its own pass, whatever the texts are. -/
theorem run_guard_of_length {resolver : Resolver} (left : resolver.passes < resolver.maxPasses)
    (room : resolver.depth < maxDepth) :
    (evaluate (Builtin.ifError.callText arguments)).run resolver =
      (.error (.argumentCount Builtin.ifError.name Builtin.ifError.arity arguments.length),
        resolver.advance 1) := by
  have next := next?_callText_guard fun argument member => (each argument member).1
  have trimmed : (arguments.map trim).length ≠ 2 := by rwa [List.length_map]
  have onePass : spent resolver.depth (Builtin.ifError.callText arguments) = 1 := by
    rw [spent_of_next next, spentOnCall_call .ifError each, spentOnBuiltin, if_neg (by omega),
      spentOnChoice_of_length trimmed, spentBehind, replacement_guard_of_length each other room]
    rfl
  rw [run_evaluate, onePass, spend_within (.inr left), outcome_guard_of_length each other room]

end OtherLength

private theorem outcome_callText_guard {value fallback : Text} {x : Float}
    (each : ∀ argument ∈ [value, fallback], IsItem argument ∧ isBlank argument = false)
    (shallow : guardWords.count value < maxDepth) (valued : outcome 0 value = .ok x) :
    outcome 0 (Builtin.ifError.callText [value, fallback]) = .ok (unsignedZero x) := by
  have next := next?_callText_guard fun argument member => (each argument member).1
  have steady : Steady (outcome 1 (trim value)) (outcome 0 (trim value)) :=
    isSteady (trim value) 1 0 (by rw [guardWords.count_trim]; omega)
      (by rw [guardWords.count_trim]; omega)
  rw [outcome_trim (each value List.mem_cons_self).1 0, valued] at steady
  have finite : Arithmetic.requireFinite x = .ok x := if_pos (isFinite_of_outcome valued)
  rw [outcome_of_whole next (splitArguments_call .ifError each) 0, applied, if_neg (by decide)]
  change ((ifError (outcome 1) [trim value, trim fallback]) >>= _) = _
  rw [ifError_pair, steady.1]
  change unsignedZero <$> Arithmetic.requireFinite x = _
  rw [finite]
  rfl

/-! ### Counts that are listed and counts that are taken -/

private theorem exists_outcomes {arguments : List Text}
    (each : ∀ argument ∈ arguments, ∃ limit value, runFresh limit (evaluate argument) = .ok value) :
    ∃ values, List.Forall₂ (fun argument value => outcome 0 argument = .ok value)
      arguments values := by
  induction arguments with
  | nil => exact ⟨[], .nil⟩
  | cons argument arguments ih =>
      obtain ⟨limit, value, ran⟩ := each argument List.mem_cons_self
      obtain ⟨values, valued⟩ := ih fun other member => each other (List.mem_cons_of_mem _ member)
      exact ⟨value :: values, .cons (outcome_of_runFresh ran) valued⟩

private theorem yields_of_accepts {c : Calculation} {values : List Float}
    (accepted : c.arity.accepts values.length = true) :
    (Builtin.calculation c).Yields
      (c.apply values >>= fun x => unsignedZero <$> Arithmetic.requireFinite x) := by
  rcases Calculation.apply_of_accepts accepted with
      ⟨x, valued⟩ | failed | ⟨root, value, negative, failed⟩
  · rw [valued]
    change Builtin.Yields _ (unsignedZero <$> Arithmetic.requireFinite x)
    unfold Arithmetic.requireFinite
    split
    · rename_i finite
      exact .inl ⟨unsignedZero x, rfl, isFinite_unsignedZero finite⟩
    · exact .inr (.inr (.inl rfl))
  · rw [failed]
    exact .inr (.inl rfl)
  · rw [failed]
    exact .inr (.inr (.inr ⟨congrArg _ root, value, negative, rfl⟩))

private theorem outcome_callText_cases (builtin : Builtin) {arguments : List Text}
    {values : List Float}
    (each : ∀ argument ∈ arguments, IsItem argument ∧ isBlank argument = false)
    (valued : List.Forall₂ (fun argument value => outcome 0 argument = .ok value) arguments values)
    (shallow : (arguments.map guardWords.count).sum < maxDepth) :
    if builtin.arity.accepts arguments.length then
      builtin.Yields (outcome 0 (builtin.callText arguments))
    else outcome 0 (builtin.callText arguments) =
      .error (.argumentCount builtin.name builtin.arity arguments.length) := by
  cases builtin with
  | calculation c =>
      rw [outcome_callText_calculation c each valued, valued.length_eq]
      split
      · rename_i accepted
        exact yields_of_accepts accepted
      · rename_i refused
        rw [Calculation.apply_of_not_accepts (Bool.eq_false_of_not_eq_true refused)]
        rfl
  | ifError =>
      split
      · rename_i accepted
        obtain ⟨value, fallback, rfl⟩ := List.length_eq_two.mp (Builtin.accepts_ifError.mp accepted)
        obtain ⟨x, values, firstValued, _⟩ := List.forall₂_cons_left_iff.mp valued
        rw [List.map_cons, List.sum_cons] at shallow
        rw [outcome_callText_guard each (by omega) firstValued]
        exact .inl ⟨_, rfl, isFinite_unsignedZero (isFinite_of_outcome firstValued)⟩
      · rename_i refused
        exact outcome_guard_of_length each (mt Builtin.accepts_ifError.mpr refused) (by decide)

/-- The number of arguments that a function is listed with is the one it takes. A call with another
number is refused for it, a guard before an argument is evaluated, and in a call with such a number
no argument is missing. -/
theorem evaluate_callText_refused_iff :
    (∀ builtin ∈ Builtin.all, ∀ arguments : List Text,
      (∀ argument ∈ arguments, IsItem argument ∧ isBlank argument = false) →
      (∀ argument ∈ arguments, ∃ limit value, runFresh limit (evaluate argument) = .ok value) →
      (arguments.map guardWords.count).sum < maxDepth →
      ∀ maxPasses, nameWords.count (builtin.callText arguments) ≤ maxPasses →
        (runFresh maxPasses (evaluate (builtin.callText arguments)) =
            .error (.argumentCount builtin.name builtin.arity arguments.length) ↔
          builtin.arity.accepts arguments.length = false) ∧
        (builtin.arity.accepts arguments.length = true →
          builtin.Yields (runFresh maxPasses (evaluate (builtin.callText arguments))))) ∧
    (∀ c : Calculation, c.arity = .ofKinds c.kinds ∧ ∀ values,
      ParameterKind.check c.kinds c.body (.argumentCount c.name c.arity values.length) values =
        some (c.apply values)) ∧
    ∀ arguments : List Text, Builtin.ifError.arity.accepts arguments.length = false →
      (∀ read : Text → Resolution Float, ifError read arguments =
        throw (.argumentCount Builtin.ifError.name Builtin.ifError.arity arguments.length)) ∧
      ((∀ argument ∈ arguments, IsItem argument ∧ isBlank argument = false) →
        ∀ maxPasses, 0 < maxPasses →
        (evaluate (Builtin.ifError.callText arguments)).run (fresh maxPasses) =
          (.error (.argumentCount Builtin.ifError.name Builtin.ifError.arity arguments.length),
            ⟨maxPasses, 1, 0⟩)) := by
  refine ⟨?_, fun c => ⟨c.arity_eq_ofKinds, c.check_kinds⟩, ?_⟩
  · intro builtin _ arguments each evaluated shallow maxPasses enough
    obtain ⟨values, valued⟩ := exists_outcomes evaluated
    have result := outcome_callText_cases builtin each valued shallow
    rw [runFresh_evaluate enough]
    cases accepted : builtin.arity.accepts arguments.length with
    | false =>
        rw [accepted, if_neg Bool.false_ne_true] at result
        exact ⟨iff_of_true result rfl, nofun⟩
    | true =>
        rw [accepted, if_pos rfl] at result
        exact ⟨iff_of_false (result.ne_argumentCount _ _ _) nofun, fun _ => result⟩
  · intro arguments refused
    have other := mt Builtin.accepts_ifError.mpr (Bool.eq_false_iff.mp refused)
    refine ⟨fun read => ifError_of_length read other, ?_⟩
    intro each maxPasses room
    exact run_guard_of_length each other room (show 0 < maxDepth by decide)

/-- Three arguments, one of them a call: too many to round, not for a maximum, and none
is evaluated by a guard. -/
theorem evaluate_callText_refused_iff_three :
    runFresh 2 (evaluate "ROUND(ABS(-1), 2, 3)".toList) =
        .error (.argumentCount "ROUND" ⟨1, some 2⟩ 3) ∧
      (Builtin.calculation .max).Yields (runFresh 2 (evaluate "MAX(ABS(-1), 2, 3)".toList)) ∧
      (evaluate "IFERROR(ABS(-1), 2, 3)".toList).run (fresh 2) =
        (.error (.argumentCount "IFERROR" ⟨2, some 2⟩ 3), ⟨2, 1, 0⟩) := by
  have each : ∀ argument ∈ ["ABS(-1)", "2", "3"].map String.toList,
      IsItem argument ∧ isBlank argument = false := by
    decide +kernel
  have evaluated : ∀ argument ∈ ["ABS(-1)", "2", "3"].map String.toList,
      ∃ limit value, runFresh limit (evaluate argument) = .ok value := by
    intro argument member
    simp only [List.map_cons, List.map_nil, List.mem_cons, List.not_mem_nil, or_false] at member
    rcases member with rfl | rfl | rfl
    · exact ⟨1, 1, by decide +kernel⟩
    · exact ⟨0, 2, by decide +kernel⟩
    · exact ⟨0, 3, by decide +kernel⟩
  have rounded := evaluate_callText_refused_iff.1 (.calculation .round) (by decide) _ each evaluated
    (by decide +kernel) 2 (by decide +kernel)
  have largest := evaluate_callText_refused_iff.1 (.calculation .max) (by decide) _ each evaluated
    (by decide +kernel) 2 (by decide +kernel)
  have guarded := evaluate_callText_refused_iff.2.2 (["ABS(-1)", "2", "3"].map String.toList) rfl
  have texts : (Builtin.calculation .round).callText (["ABS(-1)", "2", "3"].map String.toList) =
        "ROUND(ABS(-1), 2, 3)".toList ∧
      (Builtin.calculation .max).callText (["ABS(-1)", "2", "3"].map String.toList) =
        "MAX(ABS(-1), 2, 3)".toList ∧
      Builtin.ifError.callText (["ABS(-1)", "2", "3"].map String.toList) =
        "IFERROR(ABS(-1), 2, 3)".toList := by
    decide +kernel
  rw [← texts.1, ← texts.2.1, ← texts.2.2]
  exact ⟨rounded.1.mpr rfl, largest.2 rfl, guarded.2 each 2 (by decide)⟩

end Resolver

end QuantityFormula
