import QuantityFormula.Arithmetic.Token
import QuantityFormula.Number.Remainder

/-!
Postfix programs: the steps that compute an arithmetic expression on one stack of numbers.
`Program.ofTokens` orders the tokens of an expression into such a program, and
`Program.execute` runs it.
-/

set_option autoImplicit false

namespace QuantityFormula

inductive Instruction where
  | push (value : Float)
  | apply (operator : Operator)
  deriving DecidableEq

/-- The value of an operator on two operands. A zero divisor of either sign is refused; any other
outcome, infinite or no number, stands. -/
def Operator.apply (operator : Operator) (left right : Float) : Except Fault Float :=
  match operator with
  | .add => .ok (left + right)
  | .subtract => .ok (left - right)
  | .multiply => .ok (left * right)
  | .divide => if right == 0 then .error .divisionByZero else .ok (left / right)
  | .modulo => if right == 0 then .error .divisionByZero else .ok (remainder left right)
  | .power => .ok (left ^ right)

abbrev Program := List Instruction

namespace Program

/-- Orders the tokens that are left into steps. `waiting` holds the operators of the
innermost open group that still wait for their right operand, the latest first, and `outer`
those of the groups around it. -/
def order : (waiting : List Operator) → (outer : List (List Operator)) → List Token →
    Except Fault Program
  | waiting, [], [] => .ok (waiting.map .apply)
  | _, _ :: _, [] => .error .unbalancedParentheses
  | waiting, outer, .number value :: tokens => return .push value :: (← order waiting outer tokens)
  | waiting, outer, .leftParen :: tokens => order [] (waiting :: outer) tokens
  | _, [], .rightParen :: _ => .error .unbalancedParentheses
  | waiting, enclosing :: outer, .rightParen :: tokens =>
    return waiting.map .apply ++ (← order enclosing outer tokens)
  | waiting, outer, .operator next :: tokens =>
    let ready := waiting.takeWhile (·.bindsBefore next)
    let still := waiting.dropWhile (·.bindsBefore next)
    return ready.map .apply ++ (← order (next :: still) outer tokens)

/-- The program of an expression. Operands keep their order, and an operator
follows both of its own. -/
def ofTokens (tokens : List Token) : Except Fault Program :=
  order [] [] tokens

/-- The stack after one step, its top first. The right operand is the top of the stack. -/
def step (stack : List Float) : Instruction → Except Fault (List Float)
  | .push value => .ok (value :: stack)
  | .apply operator =>
    match stack with
    | right :: left :: below => return (← operator.apply left right) :: below
    | _ => .error (.malformed (.missingOperand operator))

def run (stack : List Float) (program : Program) : Except Fault (List Float) :=
  program.foldlM step stack

def result : List Float → Except Fault Float
  | [value] => .ok value
  | [] => .error (.malformed .noValue)
  | stack => .error (.malformed (.leftoverValues stack.length))

def execute (program : Program) : Except Fault Float := do
  result (← run [] program)

end Program

end QuantityFormula
