import QuantityFormula.Proofs.Invocation
import QuantityFormula.Proofs.Shallow

/-!
The guard as a barrier against errors. Its arguments reach it as they are written, whatever they
hold, and are evaluated as if each stood alone. So the guard has the value of its first argument or,
if that fails in any way, the outcome of its second.
-/

set_option autoImplicit false

namespace QuantityFormula

open Text

namespace Resolver

theorem next?_callText_ifError (arguments : List Text) :
    Call.next? (Builtin.ifError.callText arguments) =
      some <$> Call.ofHead ⟨[], Builtin.ifError.name.toList,
        [',', ' '].intercalate arguments ++ [')']⟩ := by
  rw [Call.next?_eq_pick, Builtin.all_callText,
    Call.pick_cons_of_guarded (Call.isGuardedName_name .ifError)]

theorem next?_callText_guard {arguments : List Text}
    (each : ∀ argument ∈ arguments, IsItem argument) :
    Call.next? (Builtin.ifError.callText arguments) =
      .ok (some (Builtin.ifError.call arguments)) := by
  rw [next?_callText_ifError, Builtin.ofHead_callText _ each]
  rfl

theorem splitArguments_call (builtin : Builtin) {arguments : List Text}
    (each : ∀ argument ∈ arguments, IsItem argument ∧ isBlank argument = false) :
    Call.splitArguments (builtin.call arguments).arguments = .ok (arguments.map trim) := by
  cases arguments with
  | nil => rfl
  | cons first others => exact Call.splitArguments_spaced (List.cons_ne_nil _ _) each

/-- An argument has fewer words of either kind than the call, so it passes no limit in it and none
alone. -/
private theorem outcome_argument {arguments : List Text} {maxPasses : Nat}
    (each : ∀ argument ∈ arguments, IsItem argument ∧ isBlank argument = false)
    (shallow : guardWords.count (Builtin.ifError.callText arguments) ≤ maxDepth)
    (enough : nameWords.count (Builtin.ifError.callText arguments) ≤ maxPasses)
    {argument : Text} (member : argument ∈ arguments) :
    runFresh maxPasses (evaluate argument) = outcome 0 argument ∧
      Steady (outcome 1 (trim argument)) (outcome 0 argument) := by
  have parts := Call.parts_of_next? (next?_callText_guard fun other among => (each other among).1)
  have split := splitArguments_call .ifError each
  have listed : trim argument ∈ arguments.map trim := List.mem_map_of_mem member
  have names := nameWords.count_of_parts parts
  have guards := guardWords.count_of_parts parts
  have fewerNames := nameWords.count_le_of_mem_splitArguments split listed
  have fewerGuards := guardWords.count_le_of_mem_splitArguments split listed
  have guarded : guardWords.counts (Builtin.ifError.call arguments).name = true :=
    guardWords_counts (Call.isGuardedName_name .ifError)
  rw [if_pos guarded] at guards
  rw [nameWords.count_trim] at fewerNames
  rw [guardWords.count_trim] at fewerGuards
  rw [outcome_trim (each argument member).1]
  exact ⟨runFresh_evaluate (by omega), isSteady argument 1 0 (by omega) (by omega)⟩

private theorem bind_requireFinite (result : Except Fault Float)
    (finite : ∀ x, result = .ok x → x.isFinite = true) :
    (result >>= fun x => unsignedZero <$> Arithmetic.requireFinite x) =
      unsignedZero <$> result := by
  cases result with
  | error fault => rfl
  | ok x =>
      have same : Arithmetic.requireFinite x = .ok x := if_pos (finite x rfl)
      exact congrArg (unsignedZero <$> ·) same

/-- The guard has the outcome of its second argument if its first one fails,
whatever both of them hold. -/
theorem evaluate_ifError {value fallback : Text} (valueItem : IsItem value)
    (fallbackItem : IsItem fallback)
    (valueSolid : isBlank value = false) (fallbackSolid : isBlank fallback = false)
    {maxPasses : Nat}
    (shallow : guardWords.count (Builtin.ifError.callText [value, fallback]) ≤ maxDepth)
    (enough : nameWords.count (Builtin.ifError.callText [value, fallback]) ≤ maxPasses) :
    runFresh maxPasses (evaluate (Builtin.ifError.callText [value, fallback])) =
      unsignedZero <$> match runFresh maxPasses (evaluate value) with
        | .ok x => .ok x
        | .error _ => runFresh maxPasses (evaluate fallback) := by
  have each : ∀ argument ∈ [value, fallback], IsItem argument ∧ isBlank argument = false := by
    intro argument member
    rcases List.mem_cons.mp member with rfl | later
    · exact ⟨valueItem, valueSolid⟩
    · rw [List.mem_singleton.mp later]
      exact ⟨fallbackItem, fallbackSolid⟩
  have next := next?_callText_guard fun argument member => (each argument member).1
  have split : Call.splitArguments (Builtin.ifError.call [value, fallback]).arguments =
      .ok [trim value, trim fallback] :=
    splitArguments_call .ifError each
  obtain ⟨valueAlone, valueSame, valueUnlimited⟩ :=
    outcome_argument each shallow enough List.mem_cons_self
  obtain ⟨fallbackAlone, fallbackSame, _⟩ :=
    outcome_argument each shallow enough (List.mem_cons_of_mem _ List.mem_cons_self)
  rw [runFresh_evaluate enough, outcome_of_whole next split, valueAlone, fallbackAlone, applied,
    if_neg (by decide), ifError_pair, ← valueSame, ← fallbackSame]
  cases valued : outcome 1 (trim value) with
  | ok x =>
      have finite : x.isFinite = true := isFinite_of_outcome valued
      exact bind_requireFinite (.ok x) fun _ same => Except.ok.inj same ▸ finite
  | error fault =>
      cases fault with
      | tooComplex limit => exact absurd valued (valueUnlimited limit)
      | _ => exact bind_requireFinite _ fun _ => isFinite_of_outcome

theorem evaluate_ifError_illegal :
    guardWords.count (Builtin.ifError.callText ["1@2".toList, "7".toList]) = 1 ∧
      nameWords.count (Builtin.ifError.callText ["1@2".toList, "7".toList]) = 1 ∧
      runFresh 1 (evaluate (Builtin.ifError.callText ["1@2".toList, "7".toList])) = .ok 7 := by
  have guards : guardWords.count (Builtin.ifError.callText ["1@2".toList, "7".toList]) = 1 := by
    decide +kernel
  have names : nameWords.count (Builtin.ifError.callText ["1@2".toList, "7".toList]) = 1 := by
    decide +kernel
  refine ⟨guards, names, ?_⟩
  rw [evaluate_ifError (by decide +kernel) (by decide +kernel)
    (by decide +kernel) (by decide +kernel)
    (by rw [guards]; decide) (by rw [names])]
  decide +kernel

end Resolver

end QuantityFormula
