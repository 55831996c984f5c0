import QuantityFormula.Fault

/-!
The values that a caller gives to the names of a formula, and the text that
stands for a value in it.
-/

set_option autoImplicit false

namespace QuantityFormula

/-- What a name may stand for. A text can be given to any name; arithmetic
on it is refused later. -/
inductive Value where
  | number (value : Float)
  | text (content : Text)
  deriving DecidableEq

/-- Text of a number inside a formula. A negative one stands in parentheses, so that it may follow
an operator, and both zeros are `0`. -/
def inlineNumber (x : Float) : Text :=
  if x < 0 then
    '(' :: Decimal.write x ++ [')']
  else if x == 0 then
    ['0']
  else
    Decimal.write x

def inlineFinite (x : Float) : Except Fault Text :=
  if x.isFinite then .ok (inlineNumber x) else .error .invalidResult

namespace Value

def number? : Value → Option Float
  | number value => some value
  | text _ => none

/-- Text that stands for a value inside a formula. A text stands in double quotes, which no
arithmetic expression holds. -/
def inline : Value → Except Fault Text
  | number value => inlineFinite value
  | text content => .ok ('"' :: content ++ ['"'])

end Value

/-- Values by name. A name bound more than once has the value it was bound to last. -/
structure Bindings where
  entries : List (Text × Value)

namespace Bindings

def empty : Bindings :=
  ⟨[]⟩

def bind (bindings : Bindings) (name : Text) (value : Value) : Bindings :=
  ⟨(name, value) :: bindings.entries⟩

def get? (bindings : Bindings) (name : Text) : Option Value :=
  bindings.entries.lookup name

def contains (bindings : Bindings) (name : Text) : Bool :=
  (bindings.get? name).isSome

def number? (bindings : Bindings) (name : Text) : Option Float :=
  (bindings.get? name).bind Value.number?

end Bindings

end QuantityFormula
