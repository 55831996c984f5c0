import QuantityFormula.Function.Arity
import QuantityFormula.Number.Decimal
import QuantityFormula.Operator

/-!
Why a formula has no value. A fault is a cause with the parts of the formula it concerns;
`Fault.message` puts it into the words shown to whoever edits the formula.
-/

set_option autoImplicit false

namespace QuantityFormula

inductive Malformation where
  | blank
  | noValue
  /-- More than one value is left after the evaluation. -/
  | leftoverValues (count : Nat)
  | missingOperand (operator : Operator)
  | unexpectedCharacter (character : Char)
  | invalidNumber (text : Text)
  | unknownOperator (text : Text)
  /-- A blank between the commas of an argument list. -/
  | emptyArgument (arguments : Text)
  deriving DecidableEq

inductive Fault where
  /-- References without a value, in the order of the formula. -/
  | undefinedVariables (names : List Text)
  | unknownFunction (name : Text)
  | unbalancedParentheses
  | malformed (reason : Malformation)
  | divisionByZero
  /-- A value that is infinite or no number. -/
  | invalidResult
  /-- A call with a number of arguments that the function does not take. -/
  | argumentCount (function : String) (arity : Arity) (count : Nat)
  | negativeRoot (value : Float)
  /-- A limit on the resolution of calls was passed: that of the passes or that of the nesting. -/
  | tooComplex (limit : Nat)
  deriving DecidableEq

def Malformation.message : Malformation → String
  | .blank => "expression is empty"
  | .noValue => "empty expression"
  | .leftoverValues count => s!"{count} values left without an operator"
  | .missingOperand operator => s!"insufficient operands for '{operator.symbol}'"
  | .unexpectedCharacter character => s!"unexpected character '{character}'"
  | .invalidNumber text => "invalid number '" ++ String.ofList text ++ "'"
  | .unknownOperator text => "unknown operator '" ++ String.ofList text ++ "'"
  | .emptyArgument arguments => "empty argument in '(" ++ String.ofList arguments ++ ")'"

def Fault.message : Fault → String
  | .undefinedVariables names =>
    "Undefined variable: " ++ ", ".intercalate (names.map String.ofList)
  | .unknownFunction name => "Unknown function: " ++ String.ofList name
  | .unbalancedParentheses => "Unbalanced parentheses"
  | .malformed reason => "Malformed expression: " ++ reason.message
  | .divisionByZero => "Division by zero"
  | .invalidResult => "Formula evaluation resulted in invalid value"
  | .argumentCount function arity count =>
    s!"Function {function} error: {arity.description}, got {count}"
  | .negativeRoot value =>
    "Function SQRT error: cannot take the square root of negative value " ++ String.ofList
      (Decimal.write value)
  | .tooComplex limit => s!"Expression too complex: function resolution limit of {limit} exceeded"

end QuantityFormula
