import QuantityFormula.Arithmetic.Postfix

/-!
Runs postfix programs on a stack that is kept from one program to the next. Each program starts with
the stack empty, whatever an earlier one left on it.
-/

set_option autoImplicit false

namespace QuantityFormula

structure Executor where
  stack : List Float
  deriving DecidableEq

/-- A step of an execution. What it took from the stack is gone if it fails. -/
abbrev Execution := ExceptT Fault (StateM Executor)

namespace Executor

def fresh : Executor :=
  ⟨[]⟩

def clear : Execution Unit :=
  set fresh

def push (value : Float) : Execution Unit :=
  modify fun executor => ⟨value :: executor.stack⟩

def popOperand (operator : Operator) : Execution Float := do
  match (← get).stack with
  | [] => throw (.malformed (.missingOperand operator))
  | value :: below =>
    set (Executor.mk below)
    return value

def perform : Instruction → Execution Unit
  | .push value => push value
  | .apply operator => do
    let right ← popOperand operator
    let left ← popOperand operator
    push (← MonadExcept.ofExcept (operator.apply left right))

def takeResult : Execution Float := do
  let value ← MonadExcept.ofExcept (Program.result (← get).stack)
  modify fun executor => ⟨executor.stack.tail⟩
  return value

def execute (program : Program) : Execution Float := do
  clear
  program.forM perform
  takeResult

end Executor

end QuantityFormula
