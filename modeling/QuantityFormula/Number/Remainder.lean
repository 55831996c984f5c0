import QuantityFormula.Number.Magnitude

/-!
The remainder of two doubles. It is exact: the remainder of the two magnitudes as whole numbers of
steps, with the sign of the dividend.
-/

set_option autoImplicit false

namespace QuantityFormula

/-- The remainder of `dividend` after division by `divisor`, truncated toward zero. It is
no number where the dividend is infinite or the divisor zero, and the dividend itself where
the divisor is infinite. -/
def remainder (dividend divisor : Float) : Float :=
  if dividend.isNaN || divisor.isNaN || dividend.isInf || divisor == 0 then
    0 / 0
  else if divisor.isInf then
    dividend
  else
    Magnitude.nearest (Magnitude.isNegative dividend)
      (Magnitude.ofFloat dividend % Magnitude.ofFloat divisor) 1

end QuantityFormula
