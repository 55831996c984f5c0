import QuantityFormula.Arithmetic.Postfix

/-!
Arithmetic expressions: text of numbers, operators and parentheses, and its value.
-/

set_option autoImplicit false

namespace QuantityFormula.Arithmetic

/-- Gives a minus without a left operand, at the start or behind an opening parenthesis, a zero to
subtract from. The flag says whether a left operand is still missing. -/
def completeMinus : (opening : Bool) → List Token → List Token
  | _, [] => []
  | true, .operator .subtract :: tokens =>
    .number 0 :: .operator .subtract :: completeMinus false tokens
  | _, .leftParen :: tokens => .leftParen :: completeMinus true tokens
  | _, token :: tokens => token :: completeMinus false tokens

def requireFinite (value : Float) : Except Fault Float :=
  if value.isFinite then .ok value else .error .invalidResult

def evaluate (text : Text) : Except Fault Float := do
  let tokens ← Token.ofText text
  let program ← Program.ofTokens (completeMinus true tokens)
  requireFinite (← program.execute)

end QuantityFormula.Arithmetic
