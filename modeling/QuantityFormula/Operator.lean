import QuantityFormula.Text.Basic

/-!
The binary operators of formulas: their signs, how tightly they bind, and the
side to which they group.
-/

set_option autoImplicit false

namespace QuantityFormula

inductive Operator where
  | add
  | subtract
  | multiply
  | divide
  | modulo
  | power
  deriving DecidableEq, Repr, Inhabited

namespace Operator

def symbol : Operator → Char
  | add => '+'
  | subtract => '-'
  | multiply => '*'
  | divide => '/'
  | modulo => '%'
  | power => '^'

def ofSymbol? : Char → Option Operator
  | '+' => some add
  | '-' => some subtract
  | '*' => some multiply
  | '/' => some divide
  | '%' => some modulo
  | '^' => some power
  | _ => none

/-- The operator of a written sign; a power may also be written with two asterisks. -/
def ofText? : Text → Option Operator
  | [sign] => ofSymbol? sign
  | ['*', '*'] => some power
  | _ => none

def precedence : Operator → Nat
  | add | subtract => 1
  | multiply | divide | modulo => 2
  | power => 3

def isRightAssociative : Operator → Bool
  | power => true
  | _ => false

/-- Whether an operator waiting for its right operand takes it before the
operator that comes next. -/
def bindsBefore (waiting next : Operator) : Bool :=
  next.precedence < waiting.precedence ||
    (waiting.precedence == next.precedence && !next.isRightAssociative)

theorem ofSymbol?_symbol (operator : Operator) : ofSymbol? operator.symbol = some operator := by
  cases operator <;> rfl

end Operator

end QuantityFormula
