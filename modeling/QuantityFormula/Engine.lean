import QuantityFormula.Constant
import QuantityFormula.Resolver
import QuantityFormula.Substitution

/-!
Evaluates formulas and checks them before use. An engine holds nothing but its limit, so every
call of it stands for itself.
-/

set_option autoImplicit false

namespace QuantityFormula

structure Engine where
  maxPasses : Nat
  deriving DecidableEq, Repr

namespace Engine

def standard : Engine :=
  ⟨Resolver.defaultMaxPasses⟩

def evaluate (engine : Engine) (formula : Text) (bindings : Bindings) : Except Fault Float := do
  if Text.isBlank formula then
    throw (.malformed .blank)
  let text := substituteConstants (← substituteVariables formula bindings)
  Resolver.runFresh engine.maxPasses (Resolver.evaluate text)

/-- Checks a formula. The first of these wins: it is blank, its parentheses do not balance as
written, some of its references have no value, it cannot be evaluated. -/
def validate (engine : Engine) (formula : Text) (bindings : Bindings) : Except Fault Unit := do
  if Text.isBlank formula then
    throw (.malformed .blank)
  if !Text.isBalanced formula then
    throw .unbalancedParentheses
  let missing := (referencedNames formula).filter fun name => !bindings.contains name
  if !missing.isEmpty then
    throw (.undefinedVariables missing)
  let _ ← engine.evaluate formula bindings

def evaluateAll (engine : Engine) (formulas : List Text) (bindings : Bindings) :
    List (Except Fault Float) :=
  formulas.map fun formula => engine.evaluate formula bindings

end Engine

end QuantityFormula
