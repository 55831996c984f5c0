import QuantityFormula.Binding
import QuantityFormula.Text.Cuts

/-!
Puts the values of names into a formula. A reference is a name in braces and has to have
a value. Outside references a bare word that names a number is replaced too. What is put
in is never searched again.
-/

set_option autoImplicit false

namespace QuantityFormula

def isNameStart (c : Char) : Bool :=
  c.isAlpha || c == '_'

def isNameChar (c : Char) : Bool :=
  c.isAlphanum || c == '_' || c == '.'

def referenceRule : Text.PlaceRule Text := fun _ text =>
  match text with
  | '{' :: c :: inside =>
    let name := c :: inside.takeWhile isNameChar
    match isNameStart c, inside.dropWhile isNameChar with
    | true, '}' :: _ => some (name, name.length + 1)
    | _, _ => none
  | _ => none

def references (formula : Text) : Text.Cuts Text :=
  formula.cutsBy referenceRule

/-- The names that a formula refers to, each once, in the order of their first references. -/
def referencedNames (formula : Text) : List Text :=
  ((references formula).places.map Prod.snd).eraseDups

/-- A bare word: a name that does not continue a word and does not end with a dot. -/
def bareWordRule : Text.PlaceRule Text := fun afterWord text =>
  match text with
  | c :: following =>
    if !afterWord && isNameStart c then
      let further := ((following.takeWhile isNameChar).reverse.dropWhile (· == '.')).reverse
      some (c :: further, further.length)
    else
      none
  | [] => none

def inlineWord (bindings : Bindings) (word : Text) : Except Fault Text :=
  match bindings.number? word with
  | some value => inlineFinite value
  | none => .ok word

def substituteWords (bindings : Bindings) (text : Text) : Except Fault Text := do
  let words := text.cutsBy bareWordRule
  let parts ← words.places.mapM fun (before, word) => return before ++ (← inlineWord bindings word)
  return parts.flatten ++ words.rest

def substituteReference (bindings : Bindings) (before name : Text) : Except Fault Text := do
  match bindings.get? name with
  | none => throw (.undefinedVariables [name])
  | some value => return (← substituteWords bindings before) ++ (← value.inline)

/-- The formula with the values of its names in place. The first reference without a value is a
fault, and so is a number in use that is not finite. -/
def substituteVariables (formula : Text) (bindings : Bindings) : Except Fault Text := do
  let cuts := references formula
  let parts ← cuts.places.mapM fun (before, name) => substituteReference bindings before name
  return parts.flatten ++ (← substituteWords bindings cuts.rest)

end QuantityFormula
