import QuantityFormula.Call
import QuantityFormula.Proofs.Ordering

/-!
Faults of single tokens, values and arguments. Reading tokens, running a program, applying a
function and splitting an argument list fail for nothing else, so a fault of the parentheses
comes from matching them, a limit is passed only by passes and guards, and a name is missed
only where names are replaced.
-/

set_option autoImplicit false

namespace QuantityFormula

variable {α β : Type}

/-- A fault of a token, a value or an argument, and not one of the parentheses,
of a limit or of a name. -/
def Fault.isLocal : Fault → Bool
  | .unbalancedParentheses | .tooComplex _ | .undefinedVariables _ => false
  | _ => true

def FailsLocally (outcome : Except Fault α) : Prop :=
  ∀ fault, outcome = .error fault → fault.isLocal = true

namespace FailsLocally

theorem ok (value : α) : FailsLocally (.ok value) :=
  fun _ => nofun

theorem error {fault : Fault} (isLocal : fault.isLocal = true) :
    FailsLocally (.error fault : Except Fault α) := by
  rintro _ ⟨⟩
  exact isLocal

theorem bind {first : Except Fault α} {following : α → Except Fault β}
    (locally : FailsLocally first)
    (behind : ∀ value, first = .ok value → FailsLocally (following value)) :
    FailsLocally (first >>= following) := by
  cases first with
  | error fault => exact error (locally fault rfl)
  | ok value => exact behind value rfl

theorem ne_error {outcome : Except Fault α} (locally : FailsLocally outcome) {fault : Fault}
    (isGlobal : fault.isLocal = false) : outcome ≠ .error fault := by
  intro failed
  rw [locally fault failed] at isGlobal
  cases isGlobal

end FailsLocally

/-! ### Arithmetic -/

namespace Token

private theorem failsLocally_ofRun (run : Text) : FailsLocally (ofRun run) := by
  unfold ofRun
  split
  · exact .ok _
  · split
    · exact .ok _
    · exact .error rfl

theorem failsLocally_scan (run text : Text) : FailsLocally (scan run text) := by
  fun_induction scan run text with
  | case1 run => exact failsLocally_ofRun run
  | case2 run text ih => exact (failsLocally_ofRun run).bind fun _ _ => ih.bind fun _ _ => .ok _
  | case3 run c text notPower numeric ih => exact ih
  | case4 run c text notPower notNumeric blank ih =>
      exact (failsLocally_ofRun run).bind fun _ _ => ih.bind fun _ _ => .ok _
  | case5 run c text notPower notNumeric notBlank token sign ih =>
      exact (failsLocally_ofRun run).bind fun _ _ => ih.bind fun _ _ => .ok _
  | case6 => exact .error rfl

end Token

namespace Program

private theorem failsLocally_step (stack : List Float) (instruction : Instruction) :
    FailsLocally (step stack instruction) := by
  unfold step
  split
  · exact .ok _
  · rename_i operator
    split
    · refine FailsLocally.bind ?_ fun _ _ => .ok _
      unfold Operator.apply
      split <;> (try split) <;> first | exact .ok _ | exact .error rfl
    · exact .error rfl

private theorem failsLocally_run (stack : List Float) (program : Program) :
    FailsLocally (run stack program) := by
  unfold run
  induction program generalizing stack with
  | nil => exact .ok _
  | cons instruction program ih => exact (failsLocally_step stack instruction).bind fun _ _ => ih _

theorem failsLocally_execute (program : Program) : FailsLocally program.execute := by
  refine (failsLocally_run [] program).bind fun stack _ => ?_
  unfold result
  split
  · exact .ok _
  · exact .error rfl
  · exact .error rfl

end Program

theorem Arithmetic.failsLocally_requireFinite (value : Float) :
    FailsLocally (requireFinite value) := by
  unfold requireFinite
  split
  · exact .ok _
  · exact .error rfl

theorem Arithmetic.fault_of_evaluate {text : Text} {fault : Fault}
    (failed : evaluate text = .error fault) :
    fault = .unbalancedParentheses ∨ fault.isLocal = true := by
  rcases cases_of_bind_eq_error failed with unread | ⟨tokens, _, failed⟩
  · exact .inr (Token.failsLocally_scan [] text fault unread)
  · rcases cases_of_bind_eq_error failed with unordered | ⟨program, _, failed⟩
    · exact .inl (Program.fault_of_order unordered)
    · exact .inr ((program.failsLocally_execute.bind fun value _ =>
        failsLocally_requireFinite value) fault failed)

/-! ### Functions -/

theorem Calculation.failsLocally_apply (c : Calculation) (values : List Float) :
    FailsLocally (c.apply values) := by
  unfold apply root trusses
  split <;> (try split) <;> first | exact .ok _ | exact .error rfl

theorem Call.failsLocally_splitArguments (arguments : Text) :
    FailsLocally (splitArguments arguments) := by
  unfold splitArguments
  split
  · exact .ok _
  · dsimp only
    split
    · exact .error rfl
    · exact .ok _

theorem Call.fault_of_next? {text : Text} {fault : Fault} (failed : next? text = .error fault) :
    fault = .unbalancedParentheses := by
  unfold next? at failed
  split at failed
  · unfold ofHead at failed
    split at failed <;> cases failed
    rfl
  · cases failed

end QuantityFormula
