/-!
How many arguments a function takes: a least number and, unless it takes any
number more, a greatest one.
-/

set_option autoImplicit false

namespace QuantityFormula

/-- A range of argument counts. Without a greatest count the function takes any
number from the least on. -/
structure Arity where
  least : Nat
  most : Option Nat
  deriving DecidableEq, Repr

namespace Arity

def exactly (count : Nat) : Arity :=
  ⟨count, some count⟩

def accepts (arity : Arity) (count : Nat) : Bool :=
  arity.least ≤ count &&
    match arity.most with
    | some most => count ≤ most
    | none => true

def description (arity : Arity) : String :=
  match arity.most with
  | none => s!"expected at least {arity.least} argument(s)"
  | some most =>
    if most = arity.least then
      s!"expected {arity.least} argument(s)"
    else
      s!"expected {arity.least} to {most} arguments"

end Arity

end QuantityFormula
