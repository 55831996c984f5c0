import QuantityFormula.Fault

/-!
The functions that compute a number from numbers. Their arguments are values, evaluated
before the call, so each is a partial function on lists of numbers, and a list of another
length than it takes is a fault.
-/

set_option autoImplicit false

namespace QuantityFormula

inductive Calculation where
  | round
  | ceil
  | floor
  | abs
  | max
  | min
  | sqrt
  | pow
  | trussCount
  | linearMeters
  | boardFeet
  | cubicMeters
  | choose
  deriving DecidableEq, Repr

namespace Calculation

def name : Calculation → String
  | round => "ROUND"
  | ceil => "CEIL"
  | floor => "FLOOR"
  | abs => "ABS"
  | max => "MAX"
  | min => "MIN"
  | sqrt => "SQRT"
  | pow => "POW"
  | trussCount => "TRUSS_COUNT"
  | linearMeters => "LINEAR_METERS"
  | boardFeet => "BOARD_FEET"
  | cubicMeters => "CUBIC_METERS"
  | choose => "IF"

def arity : Calculation → Arity
  | round => ⟨1, some 2⟩
  | ceil | floor | abs | sqrt => .exactly 1
  | max | min => ⟨1, none⟩
  | pow | trussCount | linearMeters => .exactly 2
  | boardFeet | cubicMeters => .exactly 4
  | choose => .exactly 3

/-- Rounds at a decimal place, half away from zero; places before the point are negative. -/
def roundAt (value places : Float) : Float :=
  let factor := (10 : Float) ^ places
  (value * factor).round / factor

/-- The larger of two numbers, the first if neither is. A value that is no
number is never larger. -/
def larger (x y : Float) : Float :=
  if x < y then y else x

def smaller (x y : Float) : Float :=
  if y < x then y else x

def largest (values : List Float) : Float :=
  values.foldl larger (-1 / 0)

def smallest (values : List Float) : Float :=
  values.foldl smaller (1 / 0)

def root (value : Float) : Except Fault Float :=
  if value < 0 then .error (.negativeRoot value) else .ok value.sqrt

/-- Trusses for a span: one for every spacing begun, and the closing one. -/
def trusses (span spacing : Float) : Except Fault Float :=
  if spacing == 0 then .error .divisionByZero else .ok ((span / spacing).ceil + 1)

/-- Computes the function. Board feet are counted from inches, cubic meters from millimeters. The
choice takes its second argument if the first is not zero. -/
def apply : Calculation → List Float → Except Fault Float
  | round, [value] => .ok (roundAt value 0)
  | round, [value, places] => .ok (roundAt value places)
  | ceil, [value] => .ok value.ceil
  | floor, [value] => .ok value.floor
  | abs, [value] => .ok value.abs
  | max, value :: values => .ok (largest (value :: values))
  | min, value :: values => .ok (smallest (value :: values))
  | sqrt, [value] => root value
  | pow, [base, exponent] => .ok (base ^ exponent)
  | trussCount, [span, spacing] => trusses span spacing
  | linearMeters, [pieces, length] => .ok (pieces * length)
  | boardFeet, [pieces, width, thickness, length] => .ok (pieces * width * thickness * length / 144)
  | cubicMeters, [pieces, width, thickness, length] =>
    .ok (pieces * (width / 1000) * (thickness / 1000) * (length / 1000))
  | choose, [condition, whenTrue, whenFalse] => .ok (if condition != 0 then whenTrue else whenFalse)
  | calculation, arguments =>
    .error (.argumentCount calculation.name calculation.arity arguments.length)

end Calculation

end QuantityFormula
