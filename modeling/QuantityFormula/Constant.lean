import QuantityFormula.Number.Decimal
import QuantityFormula.Text.Cuts

/-!
Names that always stand for a fixed number. They are replaced in a formula where
they stand as whole words.
-/

set_option autoImplicit false

namespace QuantityFormula

structure Constant where
  name : String
  value : Float
  description : String

namespace Constant

def all : List Constant :=
  [⟨"PI", 3.141592653589793, "Mathematical constant π"⟩,
   ⟨"E", 2.718281828459045, "Mathematical constant e"⟩,
   ⟨"TIMBER_WASTAGE", 1.1, "Standard timber wastage factor (10%)"⟩,
   ⟨"STANDARD_SPACING", 600, "Standard truss spacing (600mm)"⟩,
   ⟨"SAFETY_FACTOR", 1.2, "Safety factor for calculations"⟩]

def wholeWordRule (name : Text) : Text.PlaceRule Unit := fun afterWord text =>
  if !afterWord && name.isPrefixOf text && !Text.startsWithWord (text.drop name.length) then
    some ((), name.length - 1)
  else
    none

def substitute (constant : Constant) (text : Text) : Text :=
  (text.cutsBy (wholeWordRule constant.name.toList)).fill fun _ => Decimal.write constant.value

def substituteEach (constants : List Constant) (text : Text) : Text :=
  constants.foldl (fun text constant => constant.substitute text) text

end Constant

def substituteConstants (text : Text) : Text :=
  Constant.substituteEach Constant.all text

end QuantityFormula
