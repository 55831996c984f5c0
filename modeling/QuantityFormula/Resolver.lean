import QuantityFormula.Arithmetic.Expression
import QuantityFormula.Binding
import QuantityFormula.Call

/-!
Replaces the calls of a formula by their values, one in each pass, until none is left. A resolver
counts its passes, nested ones included, and refuses every pass beyond its limit. It can be used
again and goes on counting. Guarded calls evaluate their arguments inside of the pass that replaces
them, and may nest to a fixed depth.
-/

set_option autoImplicit false

namespace QuantityFormula

/-- Limit on the passes and the count so far, a refused pass included, and how many
guarded calls are open. -/
structure Resolver where
  maxPasses : Nat
  passes : Nat
  depth : Nat
  deriving DecidableEq, Repr

/-- A step of a resolution. It counts on the resolver, and the count stands if it fails. -/
abbrev Resolution := ExceptT Fault (StateM Resolver)

namespace Resolver

def defaultMaxPasses : Nat := 1000

def maxDepth : Nat := 64

def fresh (maxPasses : Nat) : Resolver :=
  ⟨maxPasses, 0, 0⟩

def countPass : Resolution Unit := do
  modify fun resolver => { resolver with passes := resolver.passes + 1 }
  let resolver ← get
  if resolver.maxPasses < resolver.passes then
    throw (.tooComplex resolver.maxPasses)

def refuse {α : Type} : Resolution α := do
  throw (.tooComplex (← get).maxPasses)

/-- Keeps a guarded call open while its arguments are evaluated, whether or not that fails. -/
def guarded {α : Type} (body : Resolution α) : Resolution α := fun resolver =>
  if maxDepth ≤ resolver.depth then
    (.error (.tooComplex maxDepth), resolver)
  else
    let (outcome, after) := body { resolver with depth := resolver.depth + 1 }
    (outcome, { after with depth := after.depth - 1 })

def applyBuiltin (evaluate : Text → Resolution Float) (arguments : List Text) :
    Builtin → Resolution Float
  | .calculation calculation => do
    let values ← arguments.mapM evaluate
    MonadExcept.ofExcept (calculation.apply values)
  | .ifError => guarded (ifError evaluate arguments)

def callValue (evaluate : Text → Resolution Float) (call : Call) : Resolution Float := do
  match Builtin.ofName? call.name with
  | none => throw (.unknownFunction call.name)
  | some builtin =>
    let arguments ← MonadExcept.ofExcept (Call.splitArguments call.arguments)
    let value ← applyBuiltin evaluate arguments builtin
    MonadExcept.ofExcept (Arithmetic.requireFinite value)

def pass (text : Text) (replace : Call → Resolution Text) : Resolution Text := do
  match ← MonadExcept.ofExcept (Call.next? text) with
  | none => return text
  | some call =>
    countPass
    replace call

/-- Replaces the calls of a text, in at most `fuel` passes one after another or inside of one
another. Every pass counts, so a resolver with no more than `fuel` passes left refuses the pass for
which the fuel is short. -/
def resolveWithin : (fuel : Nat) → Text → Resolution Text
  | 0, text => pass text fun _ => refuse
  | fuel + 1, text => pass text fun call => do
    let value ← callValue (fun argument => do
      MonadExcept.ofExcept (Arithmetic.evaluate (← resolveWithin fuel argument))) call
    resolveWithin fuel (call.replaceBy (inlineNumber value))

def resolve (text : Text) : Resolution Text := do
  let resolver ← get
  resolveWithin (resolver.maxPasses - resolver.passes) text

def evaluate (text : Text) : Resolution Float := do
  MonadExcept.ofExcept (Arithmetic.evaluate (← resolve text))

def runFresh {α : Type} (maxPasses : Nat) (resolution : Resolution α) : Except Fault α :=
  (resolution.run (fresh maxPasses)).1

end Resolver

end QuantityFormula
