import QuantityFormula.Arithmetic.Executor
import QuantityFormula.Proofs.ArithmeticValue
import QuantityFormula.Proofs.Placement

/-!
The programs with a value are the postorder listings of trees with that value. Any program that runs
to its end lists trees one after another whose values are the stack, and any other stops at a step
that lacks an operand or has a zero divisor. It is the same on a machine that ran other programs
before, however these ended.
-/

set_option autoImplicit false

namespace QuantityFormula

/-! ### Trees -/

inductive ExpressionTree where
  | number (value : Float)
  | node (operator : Operator) (left right : ExpressionTree)

namespace ExpressionTree

def listing : ExpressionTree → Program
  | number value => [.push value]
  | node operator left right => left.listing ++ (right.listing ++ [.apply operator])

def value : ExpressionTree → Except Fault Float
  | number value => .ok value
  | node operator left right => do
    let leftValue ← left.value
    let rightValue ← right.value
    operator.apply leftValue rightValue

/-- A tree and what stands in front of it are recovered from the steps of both. -/
theorem eq_of_append_listing {tree other : ExpressionTree} {before otherBefore : Program}
    (same : before ++ tree.listing = otherBefore ++ other.listing) :
    before = otherBefore ∧ tree = other := by
  induction tree generalizing other before otherBefore with
  | number value =>
      cases other with
      | number otherValue =>
          obtain ⟨sameBefore, samePush⟩ := List.append_inj' same rfl
          cases samePush
          exact ⟨sameBefore, rfl⟩
      | node operator left right =>
          rw [listing, listing, ← List.append_assoc, ← List.append_assoc] at same
          cases (List.append_inj' same rfl).2
  | node operator left right ihLeft ihRight =>
      cases other with
      | number otherValue =>
          rw [listing, listing, ← List.append_assoc, ← List.append_assoc] at same
          cases (List.append_inj' same rfl).2
      | node otherOperator otherLeft otherRight =>
          rw [listing, listing, ← List.append_assoc, ← List.append_assoc, ← List.append_assoc,
            ← List.append_assoc] at same
          obtain ⟨sameParts, sameApply⟩ := List.append_inj' same rfl
          cases sameApply
          obtain ⟨sameFront, rfl⟩ := ihRight sameParts
          obtain ⟨sameBefore, rfl⟩ := ihLeft sameFront
          exact ⟨sameBefore, rfl⟩

private theorem listing_injective : Function.Injective listing := by
  intro tree other same
  have whole : [] ++ tree.listing = [] ++ other.listing := same
  exact (eq_of_append_listing whole).2

end ExpressionTree

namespace Program

/-! ### Runs -/

private theorem run_listing (tree : ExpressionTree) (stack : List Float) (rest : Program) :
    run stack (tree.listing ++ rest) = tree.value >>= fun value => run (value :: stack) rest := by
  induction tree generalizing stack rest with
  | number value => rfl
  | node operator left right ihLeft ihRight => exact run_operands ihLeft ihRight operator stack rest

/-- A program that lists trees with values one after another, and their values, the latest first. -/
inductive Leaves : Program → List Float → Prop
  | nothing : Leaves [] []
  | more {program : Program} {stack : List Float} {value : Float} (before : Leaves program stack)
      (tree : ExpressionTree)
      (valued : tree.value = .ok value) : Leaves (program ++ tree.listing) (value :: stack)

theorem Leaves.run {program : Program} {stack : List Float} (leaves : Leaves program stack) :
    run [] program = .ok stack := by
  induction leaves with
  | nothing => rfl
  | @more program stack value before tree valued ih =>
      have last := run_listing tree stack []
      rw [List.append_nil, valued] at last
      rw [run_append, ih]
      exact last

private theorem Leaves.exists_tree {program : Program} {value : Float}
    (leaves : Leaves program [value]) :
    ∃ tree : ExpressionTree, tree.listing = program ∧ tree.value = .ok value := by
  cases leaves with
  | more before tree valued =>
      cases before with
      | nothing => exact ⟨tree, rfl, valued⟩

/-- Each step that can be done completes one more tree. -/
theorem Leaves.step {program : Program} {stack next : List Float} {instruction : Instruction}
    (leaves : Leaves program stack) (stepped : step stack instruction = .ok next) :
    Leaves (program ++ [instruction]) next := by
  cases instruction with
  | push value =>
      cases stepped
      exact leaves.more (.number value) rfl
  | apply operator =>
      match stack, leaves, stepped with
      | [], _, stepped | [_], _, stepped => cases stepped
      | right :: left :: below, .more (.more before leftTree leftValued) rightTree rightValued,
          stepped =>
          obtain ⟨value, applied, same⟩ := exists_of_bind_eq_ok stepped
          cases same
          have valued : (ExpressionTree.node operator leftTree rightTree).value = .ok value := by
            rw [ExpressionTree.value, leftValued, rightValued]
            exact applied
          have whole := before.more (.node operator leftTree rightTree) valued
          rw [ExpressionTree.listing] at whole
          simpa only [List.append_assoc] using whole

private theorem leaves_iff {program : Program} {stack : List Float} :
    Leaves program stack ↔ run [] program = .ok stack := by
  constructor
  · exact Leaves.run
  · intro ran
    induction program using List.reverseRecOn generalizing stack with
    | nil =>
        cases ran
        exact .nothing
    | append_singleton program instruction ih =>
        rw [run_append] at ran
        obtain ⟨middle, ranBefore, stepped⟩ := exists_of_bind_eq_ok ran
        obtain ⟨next, done, same⟩ := exists_of_bind_eq_ok stepped
        cases same
        exact (ih ranBefore).step done

end Program

/-! ### Steps that cannot be done -/

private theorem Operator.apply_eq_error_iff {operator : Operator}
    {left right : Float} {fault : Fault} :
    operator.apply left right = .error fault ↔
      (operator = .divide ∨ operator = .modulo) ∧ (right == 0) = true ∧
        fault = .divisionByZero := by
  constructor
  · intro failed
    cases operator with
    | add | subtract | multiply | power => cases failed
    | divide | modulo =>
        by_cases zero : (right == 0) = true
        · rw [apply, if_pos zero] at failed
          cases failed
          exact ⟨by simp, zero, rfl⟩
        · rw [apply, if_neg zero] at failed
          cases failed
  · rintro ⟨rfl | rfl, zero, rfl⟩
    · exact if_pos zero
    · exact if_pos zero

namespace Program

private theorem step_eq_error_iff {stack : List Float} {instruction : Instruction} {fault : Fault} :
    step stack instruction = .error fault ↔ ∃ operator, instruction = .apply operator ∧
      (stack.length < 2 ∧ fault = .malformed (.missingOperand operator) ∨
        ∃ right left below, stack = right :: left :: below ∧
          (operator = .divide ∨ operator = .modulo) ∧
          (right == 0) = true ∧ fault = .divisionByZero) := by
  constructor
  · intro failed
    cases instruction with
    | push value => cases failed
    | apply operator =>
        refine ⟨operator, rfl, ?_⟩
        match stack, failed with
        | [], failed | [_], failed =>
            cases failed
            exact .inl ⟨by simp, rfl⟩
        | right :: left :: below, failed =>
            rcases cases_of_bind_eq_error failed with refused | ⟨value, _, impossible⟩
            · exact .inr ⟨right, left, below, rfl, Operator.apply_eq_error_iff.mp refused⟩
            · cases impossible
  · rintro ⟨operator, rfl, ⟨few, rfl⟩ | ⟨right, left, below, rfl, refused⟩⟩
    · match stack, few with
      | [], _ | [_], _ => rfl
    · rw [step, Operator.apply_eq_error_iff.mpr refused]
      rfl

/-- A run fails at its first step that cannot be done. -/
theorem run_eq_error_iff {stack : List Float} {program : Program} {fault : Fault} :
    run stack program = .error fault ↔
      ∃ earlier instruction later middle, program = earlier ++ instruction :: later ∧
        run stack earlier = .ok middle ∧ step middle instruction = .error fault := by
  constructor
  · intro failed
    induction program generalizing stack with
    | nil => cases failed
    | cons instruction program ih =>
        rcases cases_of_bind_eq_error failed with refused | ⟨next, stepped, failedRest⟩
        · exact ⟨[], instruction, program, stack, rfl, rfl, refused⟩
        · obtain ⟨earlier, last, later, middle, rfl, ran, refused⟩ := ih failedRest
          refine ⟨instruction :: earlier, last, later, middle, rfl, ?_, refused⟩
          rw [← ran]
          change step stack instruction >>= _ = _
          rw [stepped]
          rfl
  · rintro ⟨earlier, instruction, later, middle, rfl, ran, refused⟩
    rw [run_append, ran]
    change step middle instruction >>= _ = _
    rw [refused]
    rfl

/-- Why a program has no value: the first step that cannot be done lacks an operand or has a zero
divisor, or all steps are done and no value or more than one is left. -/
inductive Fails (program : Program) : Fault → Prop
  | missingOperand {earlier later : Program} {operator : Operator} {stack : List Float}
      (whole : program = earlier ++ .apply operator :: later) (leaves : Leaves earlier stack)
        (few : stack.length < 2) :
      Fails program (.malformed (.missingOperand operator))
  | zeroDivisor {earlier later : Program} {operator : Operator} {right left : Float}
      {below : List Float}
      (whole : program = earlier ++ .apply operator :: later)
        (leaves : Leaves earlier (right :: left :: below))
      (divides : operator = .divide ∨ operator = .modulo) (zero : (right == 0) = true) :
        Fails program .divisionByZero
  | noValue (leaves : Leaves program []) : Fails program (.malformed .noValue)
  | leftover {stack : List Float} (leaves : Leaves program stack) (several : 2 ≤ stack.length)
      (counted : program.countP Instruction.isPush =
        program.countP Instruction.isApply + stack.length) :
      Fails program (.malformed (.leftoverValues stack.length))

private theorem execute_eq_ok_iff {program : Program} {value : Float} :
    program.execute = .ok value ↔ ∃ tree : ExpressionTree, tree.listing = program ∧
      tree.value = .ok value := by
  constructor
  · intro executed
    obtain ⟨stack, ran, single⟩ := exists_of_bind_eq_ok executed
    match stack, single with
    | [], single | _ :: _ :: _, single => cases single
    | [_], single =>
        cases single
        exact (leaves_iff.mpr ran).exists_tree
  · rintro ⟨tree, rfl, valued⟩
    have ran := run_listing tree [] []
    rw [List.append_nil, valued] at ran
    rw [execute, ran]
    rfl

private theorem execute_eq_error_iff {program : Program} {fault : Fault} :
    program.execute = .error fault ↔ program.Fails fault := by
  constructor
  · intro failed
    rcases cases_of_bind_eq_error failed with stopped | ⟨stack, ran, refused⟩
    · obtain ⟨earlier, instruction, later, stack, whole, ran, refused⟩ :=
        run_eq_error_iff.mp stopped
      have leaves := leaves_iff.mpr ran
      obtain ⟨operator, rfl, ⟨few, rfl⟩ | ⟨right, left, below, rfl, divides, zero, rfl⟩⟩ :=
        step_eq_error_iff.mp refused
      · exact .missingOperand whole leaves few
      · exact .zeroDivisor whole leaves divides zero
    · have leaves := leaves_iff.mpr ran
      cases stack with
      | nil =>
          cases refused
          exact .noValue leaves
      | cons top below =>
          cases below with
          | nil => cases refused
          | cons second rest =>
              cases refused
              have heights := length_run ran
              rw [List.length_nil, zero_add] at heights
              exact .leftover leaves (by simp) (heights.trans (Nat.add_comm _ _))
  · intro fails
    rw [execute]
    cases fails with
    | missingOperand whole leaves few =>
        rw [run_eq_error_iff.mpr ⟨_, _, _, _, whole, leaves.run,
          step_eq_error_iff.mpr ⟨_, rfl, .inl ⟨few, rfl⟩⟩⟩]
        rfl
    | zeroDivisor whole leaves divides zero =>
        rw [run_eq_error_iff.mpr ⟨_, _, _, _, whole, leaves.run,
          step_eq_error_iff.mpr ⟨_, rfl, .inr ⟨_, _, _, rfl, divides, zero, rfl⟩⟩⟩]
        rfl
    | noValue leaves =>
        rw [leaves.run]
        rfl
    | @leftover stack leaves several counted =>
        rw [leaves.run]
        cases stack with
        | nil => cases several
        | cons top below =>
            cases below with
            | nil => exact absurd several (by simp)
            | cons second rest => rfl

end Program

/-! ### Machines that are used again -/

namespace Execution

variable {α β : Type}

theorem run_bind_ok {first : Execution α} {executor after : Executor} {value : α}
    (ran : first.run executor = (.ok value, after)) (following : α → Execution β) :
    (first >>= following).run executor = (following value).run after := by
  change ExceptT.bindCont following (first.run executor).1 (first.run executor).2 = _
  rw [ran]
  rfl

theorem run_bind_error {first : Execution α} {executor : Executor} {fault : Fault}
    (failed : (first.run executor).1 = .error fault) (following : α → Execution β) :
    ((first >>= following).run executor).1 = .error fault := by
  change (ExceptT.bindCont following (first.run executor).1 (first.run executor).2).1 = _
  rw [failed]
  rfl

end Execution

namespace Executor

private theorem run_perform_ok {stack next : List Float} {instruction : Instruction}
    (stepped : Program.step stack instruction = .ok next) :
    (perform instruction).run ⟨stack⟩ = (.ok (), ⟨next⟩) := by
  cases instruction with
  | push value =>
      cases stepped
      rfl
  | apply operator =>
      match stack, stepped with
      | [], stepped | [_], stepped => cases stepped
      | right :: left :: below, stepped =>
          obtain ⟨value, applied, same⟩ := exists_of_bind_eq_ok stepped
          cases same
          change (MonadExcept.ofExcept (operator.apply left right) >>= push : Execution Unit).run
            ⟨below⟩ = _
          rw [applied]
          rfl

private theorem run_perform_error {stack : List Float} {instruction : Instruction} {fault : Fault}
    (refused : Program.step stack instruction = .error fault) :
    ((perform instruction).run ⟨stack⟩).1 = .error fault := by
  cases instruction with
  | push value => cases refused
  | apply operator =>
      match stack, refused with
      | [], refused | [_], refused =>
          cases refused
          rfl
      | right :: left :: below, refused =>
          rcases cases_of_bind_eq_error refused with failed | ⟨value, _, impossible⟩
          · change ((MonadExcept.ofExcept (operator.apply left right) >>= push : Execution Unit).run
              ⟨below⟩).1 = _
            rw [failed]
            rfl
          · cases impossible

private theorem run_forM_ok {stack final : List Float} {program : Program}
    (ran : program.run stack = .ok final) :
    (program.forM perform).run ⟨stack⟩ = (.ok (), ⟨final⟩) := by
  induction program generalizing stack with
  | nil =>
      cases ran
      rfl
  | cons instruction program ih =>
      obtain ⟨next, stepped, ran⟩ := exists_of_bind_eq_ok ran
      exact (Execution.run_bind_ok (run_perform_ok stepped) _).trans (ih ran)

private theorem run_forM_error {stack : List Float} {program : Program} {fault : Fault}
    (failed : program.run stack = .error fault) :
    ((program.forM perform).run ⟨stack⟩).1 = .error fault := by
  induction program generalizing stack with
  | nil => cases failed
  | cons instruction program ih =>
      rcases cases_of_bind_eq_error failed with refused | ⟨next, stepped, failed⟩
      · exact Execution.run_bind_error (run_perform_error refused) _
      · have later := Execution.run_bind_ok (run_perform_ok stepped) fun _ => program.forM perform
        exact (congrArg Prod.fst later).trans (ih failed)

private theorem run_takeResult (executor : Executor) :
    (takeResult.run executor).1 = Program.result executor.stack := by
  change ((MonadExcept.ofExcept (Program.result executor.stack) >>= fun value => do
    modify fun executor => ⟨executor.stack.tail⟩
    return value : Execution Float).run executor).1 = _
  cases Program.result executor.stack <;> rfl

/-- An outcome is that of the program alone, whatever is on the stack before. -/
theorem run_execute (program : Program) (executor : Executor) :
    ((execute program).run executor).1 = program.execute := by
  change ((program.forM perform >>= fun _ => takeResult).run ⟨[]⟩).1 = _
  rw [Program.execute]
  cases outcome : program.run [] with
  | ok final =>
      rw [Execution.run_bind_ok (run_forM_ok outcome)]
      exact run_takeResult ⟨final⟩
  | error fault => exact Execution.run_bind_error (run_forM_error outcome) _

def after (executor : Executor) (history : List Program) : Executor :=
  history.foldl (fun executor program => ((execute program).run executor).2) executor

/-- Whatever a machine ran before, it has a value for exactly the postorder listings of trees with
that value, which belong to one tree only, and fails for the first step that cannot be done, or for
what is left behind the last. -/
theorem executes_postorder (history : List Program) (program : Program) :
    (∀ value, ((execute program).run (fresh.after history)).1 = .ok value ↔
      ∃ tree : ExpressionTree, tree.listing = program ∧ tree.value = .ok value) ∧
    (∀ tree other : ExpressionTree, tree.listing = program →
      other.listing = program → tree = other) ∧
    (∀ fault, ((execute program).run (fresh.after history)).1 = .error fault ↔
      program.Fails fault) ∧
    (∀ operator, Malformation.message (.missingOperand operator) =
      "insufficient operands for '" ++ operator.symbol.toString ++ "'") ∧
    Malformation.message .noValue = "empty expression" ∧
    ∀ count, Malformation.message (.leftoverValues count) =
      toString count ++ " values left without an operator" := by
  simp only [run_execute]
  refine ⟨fun value => Program.execute_eq_ok_iff, ?_,
    fun fault => Program.execute_eq_error_iff, ?_, rfl, ?_⟩
  · rintro tree other rfl same
    exact (ExpressionTree.listing_injective same).symm
  · intro operator
    cases operator <;> rfl
  · intro count
    rfl

def failedPrograms : List Program :=
  [[.push 1, .push 2], [.push 3, .apply .add]]

def difference : ExpressionTree :=
  .node .subtract (.number 10) (.number 4)

theorem executes_postorder_behindFailures :
    ((execute difference.listing).run (fresh.after failedPrograms)).1 = .ok 6 ∧
      (∀ other : ExpressionTree, other.listing = difference.listing → difference = other) ∧
      ((execute [.push 8, .push 0, .apply .divide, .apply .add]).run
        (fresh.after failedPrograms)).1 = .error .divisionByZero := by
  obtain ⟨valued, unique, _⟩ := executes_postorder failedPrograms difference.listing
  refine ⟨(valued 6).mpr ⟨difference, rfl, ?_⟩,
    fun other same => unique difference other rfl same, ?_⟩
  · exact congrArg Except.ok (by decide +kernel : (10 : Float) - 4 = 6)
  · have divided : Program.Leaves [.push 8, .push 0] [0, 8] :=
      (Program.Leaves.nothing.more (.number 8) rfl).more (.number 0) rfl
    exact ((executes_postorder failedPrograms _).2.2.1 _).mpr
      (.zeroDivisor rfl divided (.inl rfl) (by decide +kernel))

end Executor

end QuantityFormula
