import QuantityFormula.Proofs.Arguments
import QuantityFormula.Proofs.Computation
import QuantityFormula.Proofs.LocalFaults

/-!
The value of a call. If the texts of its arguments are evaluated to the results of some formulas,
the call is evaluated to its value in the tree: a calculation needs all of its arguments, and the
guard goes on with its second argument where the first one fails by itself and no limit is passed.
-/

set_option autoImplicit false

namespace QuantityFormula

theorem Answers.self {α : Type} {outcome : Except Fault α}
    (unlimited : ∀ limit, outcome ≠ .error (.tooComplex limit)) :
    Answers outcome (fun value => outcome = .ok value) (∃ fault, outcome = .error fault) False := by
  cases outcome with
  | ok value => exact rfl
  | error fault =>
      cases fault with
      | tooComplex limit => exact unlimited limit rfl
      | _ => exact ⟨_, rfl⟩

theorem Builtin.outcome_ifError_of_length {outcomes : List (Except Fault Float)}
    (other : outcomes.length ≠ 2) :
    Builtin.ifError.outcome outcomes =
      .error (.argumentCount Builtin.ifError.name Builtin.ifError.arity outcomes.length) := by
  match outcomes with
  | [] => rfl
  | [.ok _] | [.error _] => rfl
  | [_, _] => exact absurd rfl other
  | .ok _ :: _ :: _ :: _ | .error _ :: _ :: _ :: _ => rfl

theorem callOutcome_of_ofName {name : Text} {builtin : Builtin}
    (found : Builtin.ofName? name = some builtin) (outcomes : List (Except Fault Float)) :
    callOutcome name outcomes =
      (builtin.outcome outcomes >>= fun x => unsignedZero <$> Arithmetic.requireFinite x) := by
  unfold callOutcome
  rw [found]
  rfl

theorem Phrase.value_call (name : FunctionName) (arguments : List Formula) :
    (Phrase.call name arguments).value =
      callOutcome name.text (arguments.map fun argument => argument.result) := by
  rw [value]
  rfl

abbrev Evaluates (step : Resolution Float) (formula : Formula) (fuel guards : Nat) : Prop :=
  Computes step formula.callCount guards (formula.callCount ≤ fuel)
    (fun value => formula.result = .ok value)
    (∃ fault, formula.result = .error fault)

namespace Computes

variable {evaluate : Text → Resolution Float} {fuel guards : Nat}

theorem mapM {arguments : List Formula} {pieces : List Text}
    (each : List.Forall₂ (fun argument piece => Evaluates (evaluate piece) argument fuel guards)
      arguments pieces) :
    Computes (pieces.mapM evaluate) (arguments.map fun argument => argument.callCount).sum guards
      ((arguments.map fun argument => argument.callCount).sum ≤ fuel)
      (fun values => (arguments.map fun argument => argument.result).mapM id = .ok values)
      (∃ fault, (arguments.map fun argument => argument.result).mapM id = .error fault) := by
  induction each with
  | nil => exact .pure rfl
  | @cons argument piece arguments pieces first rest ih =>
      rw [List.mapM_cons, List.map_cons, List.sum_cons, List.map_cons, List.mapM_cons]
      refine .bind (first.mono (Nat.le_refl _) (Nat.le_refl _) (fun ample => by omega)
        (fun _ accepted => accepted) ?_) ?_
      · rintro ⟨fault, failed⟩
        exact ⟨fault, by rw [id, failed]; rfl⟩
      · intro value valued
        rw [id, valued]
        refine .bind_free (ih.mono (Nat.le_refl _) (Nat.le_refl _) (fun ample => by omega)
          (fun _ accepted => accepted) ?_) ?_
        · rintro ⟨fault, failed⟩
          exact ⟨fault, by rw [failed]; rfl⟩
        · intro values accepted
          exact .pure (by rw [accepted]; rfl)

theorem ifError {arguments : List Formula} {pieces : List Text}
    (each : List.Forall₂ (fun argument piece => Evaluates (evaluate piece) argument fuel guards)
      arguments pieces) :
    Computes (QuantityFormula.ifError evaluate pieces)
      (arguments.map fun argument => argument.callCount).sum guards
      ((arguments.map fun argument => argument.callCount).sum ≤ fuel)
      (fun x => Builtin.ifError.outcome (arguments.map fun argument => argument.result) = .ok x)
      (∃ fault, Builtin.ifError.outcome (arguments.map fun argument => argument.result) =
        .error fault) := by
  -- Any number of arguments but two is refused on both sides.
  cases each with
  | nil => exact .of_fault nofun ⟨_, Builtin.outcome_ifError_of_length (by simp)⟩
  | @cons value valuePiece _ _ first rest =>
      cases rest with
      | nil => exact .of_fault nofun ⟨_, Builtin.outcome_ifError_of_length (by simp)⟩
      | @cons fallback fallbackPiece _ _ second others =>
          cases others with
          | cons _ _ => exact .of_fault nofun ⟨_, Builtin.outcome_ifError_of_length (by simp)⟩
          | nil =>
              simp only [List.map_cons, List.map_nil, List.sum_cons, List.sum_nil, Nat.add_zero]
              refine .tryCatch (first.mono (Nat.le_refl _) (Nat.le_refl _)
                (fun ample => by omega) ?_ id)
                (fun _ => rfl) ?_
              · intro x valued
                rw [valued]
                rfl
              · rintro fault unlimited ⟨cause, failed⟩
                rw [failed]
                cases fault with
                | tooComplex limit => exact absurd rfl (unlimited limit)
                | _ =>
                    exact second.mono (Nat.le_refl _) (Nat.le_refl _)
                      (fun ample => by omega) (fun _ => id) id

theorem applyBuiltin {arguments : List Formula} {pieces : List Text}
    (each : List.Forall₂ (fun argument piece => Evaluates (evaluate piece) argument fuel guards)
      arguments pieces)
    (builtin : Builtin) :
    Computes (Resolver.applyBuiltin evaluate pieces builtin)
      (arguments.map fun argument => argument.callCount).sum
      (guards + if builtin.isGuarded then 1 else 0)
        ((arguments.map fun argument => argument.callCount).sum ≤ fuel)
      (fun x => builtin.outcome (arguments.map fun argument => argument.result) = .ok x)
      (∃ fault, builtin.outcome (arguments.map fun argument => argument.result) =
        .error fault) := by
  cases builtin with
  | ifError => exact (ifError each).guarded
  | calculation c =>
      refine .bind_free ((mapM each).mono (Nat.le_refl _) (Nat.le_refl _) id (fun _ => id) ?_) ?_
      · rintro ⟨fault, failed⟩
        exact ⟨fault, by dsimp only [Builtin.outcome]; rw [failed]; rfl⟩
      · intro values accepted
        refine (of_outcome (.self fun _ => (c.failsLocally_apply values).ne_error rfl)).mono
          (Nat.le_refl _) (Nat.zero_le _)
          (fun _ => trivial) ?_ ?_
        · intro x applied
          dsimp only [Builtin.outcome]
          rw [accepted]
          exact applied
        · rintro ⟨fault, failed⟩
          refine ⟨fault, ?_⟩
          dsimp only [Builtin.outcome]
          rw [accepted]
          exact failed

/-- A call has its value in the tree if its arguments have theirs. -/
theorem callValue {call : Call} {name : FunctionName} {arguments : List Formula}
    (named : call.name = name.text)
    (written : Written Numeral.text (argumentLexemes arguments) call.arguments)
    (each : ∀ argument ∈ arguments, ∀ piece, argument.IsWritten piece →
      Evaluates (evaluate piece) argument fuel guards) :
    Computes (Resolver.callValue evaluate call)
      (arguments.map fun argument => argument.callCount).sum
      (guards + if name.isGuarded then 1 else 0)
        ((arguments.map fun argument => argument.callCount).sum ≤ fuel)
      (fun x => x.isFinite = true ∧ (Phrase.call name arguments).value = .ok (unsignedZero x))
      (∃ fault, (Phrase.call name arguments).value = .error fault) := by
  rw [Phrase.value_call]
  cases found : Builtin.ofName? name.text with
  | none =>
      unfold Resolver.callValue callOutcome
      rw [named, found]
      exact .of_fault nofun ⟨_, rfl⟩
  | some builtin =>
      obtain ⟨pieces, split, writtenPieces⟩ := Call.splitArguments_written written
      have evaluated : List.Forall₂
          (fun argument piece => Evaluates (evaluate piece) argument fuel guards)
          arguments pieces :=
        ((List.forall₂_and_left _ _).mpr ⟨each, writtenPieces⟩).imp fun _ _ both => both.1 _ both.2
      have guardedName : name.isGuarded = builtin.isGuarded := by
        rw [FunctionName.isGuarded, Call.isGuardedName, found]
        rfl
      have opened : Resolver.callValue evaluate call =
          Resolver.applyBuiltin evaluate pieces builtin >>= fun x =>
            MonadExcept.ofExcept (Arithmetic.requireFinite x) := by
        unfold Resolver.callValue
        rw [named, found, split]
        rfl
      rw [opened, guardedName]
      refine .bind_free ((applyBuiltin evaluated builtin).mono (Nat.le_refl _) (Nat.le_refl _) id
        (fun _ => id) ?_) ?_
      · rintro ⟨fault, failed⟩
        exact ⟨fault, by rw [callOutcome_of_ofName found, failed]; rfl⟩
      · intro x applied
        rw [callOutcome_of_ofName found, applied]
        change Computes (MonadExcept.ofExcept (Arithmetic.requireFinite x)) _ _ _
          (fun y => _ ∧ unsignedZero <$> Arithmetic.requireFinite x = _)
          (∃ fault, unsignedZero <$> Arithmetic.requireFinite x = .error fault)
        unfold Arithmetic.requireFinite
        by_cases finite : x.isFinite = true
        · rw [if_pos finite]
          exact .pure ⟨finite, rfl⟩
        · rw [if_neg finite]
          exact .of_fault nofun ⟨_, rfl⟩

end Computes

end QuantityFormula
