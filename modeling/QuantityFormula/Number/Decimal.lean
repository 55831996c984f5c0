import QuantityFormula.Number.Magnitude

/-!
Decimal text of doubles. `read?` takes digits with at most one point to the nearest double. `write`
gives the shortest digits that `read?` takes back to the same double, positional at every size; of
several shortest the closest, and the larger of two equally close ones.

A double is a whole number of units of `10 ^ (-1074)`, since `2 ^ (-1074) = 5 ^ 1074 * 10 ^
(-1074)`. The search for its text goes over the grids of multiples of `10 ^ step` such units,
from the coarsest down. The grid of step zero holds the double itself, so the search always ends
with a text that reads back.
-/

set_option autoImplicit false

namespace QuantityFormula.Decimal

-- Powers of natural numbers are those of the core library in every module.
attribute [local instance(2000)] instPowNat

/-- Decimal places of the unit in which every double is whole. -/
@[irreducible]
def unitPlaces : Nat := 1074

@[irreducible]
def unitsPerStep : Nat := 5 ^ unitPlaces

def nearest (digits places : Nat) : Float :=
  Magnitude.nearest false (digits * 2 ^ unitPlaces) (10 ^ places)

/-- The double that a text of digits with at most one point and at least one digit denotes. -/
def read? (text : List Char) : Option Float :=
  let whole := text.takeWhile Char.isDigit
  match text.dropWhile Char.isDigit with
  | [] => if whole.isEmpty then none else some (nearest (Nat.ofDigitChars 10 whole 0) 0)
  | point :: fraction =>
    if point == '.' && fraction.all Char.isDigit && !(whole.isEmpty && fraction.isEmpty) then
      some (nearest (Nat.ofDigitChars 10 (whole ++ fraction) 0) fraction.length)
    else
      none

def readsBack (code count step : Nat) : Bool :=
  Magnitude.nearestCode (count * 10 ^ step) unitsPerStep == code

/-- The multiple of `grid` next to `amount` that is accepted, the closer one if both are. -/
def neighbour? (accepts : Nat → Bool) (amount grid : Nat) : Option Nat :=
  let below := amount / grid
  match accepts below, accepts (below + 1) with
  | true, true => some (if 2 * (amount % grid) < grid then below else below + 1)
  | true, false => some below
  | false, true => some (below + 1)
  | false, false => none

/-- The accepted multiple `count * 10 ^ step` next to `amount` on the coarsest grid from the given
step down. It is given as `(count, step)`; on the grid of step zero it is the amount itself. -/
def shorten (accepts : (count step : Nat) → Bool) (amount : Nat) : (step : Nat) → Nat × Nat
  | 0 => (amount, 0)
  | step + 1 =>
    match neighbour? (accepts · (step + 1)) amount (10 ^ (step + 1)) with
    | some count => (count, step + 1)
    | none => shorten accepts amount step

def lastDigits : (places n : Nat) → (tail : List Char) → List Char
  | 0, _, tail => tail
  | places + 1, n, tail => lastDigits places (n / 10) ((n % 10).digitChar :: tail)

/-- Text of `count * 10 ^ step` units: the whole part, and a point and the places of
the grid if it has any. -/
def gridText (count step : Nat) : List Char :=
  let places := unitPlaces - step
  let amount := count * 10 ^ (step - unitPlaces)
  Nat.toDigits 10 (amount / 10 ^ places) ++
    if places = 0 then [] else '.' :: lastDigits places amount []

/-- As many decimal digits as a number may have by the count of its binary ones. The factor is a
little over the decimal logarithm of two, so `n < 10 ^ widthBound n`. -/
def widthBound (n : Nat) : Nat :=
  (n.log2 + 1) * 302 / 1000 + 1

def magnitudeText (code : Nat) : List Char :=
  let amount := Magnitude.ofCode code * unitsPerStep
  if amount = 0 then
    ['0']
  else
    let point := shorten (readsBack code) amount (widthBound amount)
    gridText point.1 point.2

/-- Text of a double. A sign is written for every negative one, `-0`
included, and none for a NaN. -/
def write (x : Float) : List Char :=
  if x.isNaN then
    ['N', 'a', 'N']
  else
    let size := if x.isInf then ['i', 'n', 'f'] else magnitudeText (Magnitude.codeOf x)
    if Magnitude.isNegative x then '-' :: size else size

def readSigned? (text : List Char) : Option Float :=
  let size? (digits : List Char) : Option Float :=
    if digits = ['i', 'n', 'f'] then
      some (Magnitude.toFloat false Magnitude.infinityCode)
    else
      read? digits
  match text with
  | ['N', 'a', 'N'] => some (0 / 0)
  | '-' :: digits => (size? digits).map fun x => -x
  | digits => size? digits

end QuantityFormula.Decimal
