/-!
Magnitudes of doubles, counted in steps of `2 ^ (-1074)`, the smallest positive double. Every finite
double is a whole number of these steps, so its size is a natural number and arithmetic on it is
exact. `ofFloat` gives that number; `nearest` goes back from an exact quotient to the closest
double, a tie to the even significand and a quotient past the range to infinity. The laws of
rounding say that only the quotient counts, and that the steps of an encoding lead back to it.
-/

set_option autoImplicit false

namespace QuantityFormula.Magnitude

-- Powers of natural numbers are those of the core library in every module.
attribute [local instance(2000)] instPowNat

/-- Bits of a significand without its leading bit; also the place of the
exponent in the encoding. -/
def significandBits : Nat := 52

def signWeight : Nat := 2 ^ (63 : Nat)

/-- The encoding of positive infinity, one past that of the greatest finite double. -/
def infinityCode : Nat := 2047 * 2 ^ (52 : Nat)

/-- Steps of the double whose encoding, without the sign, is `code`. An encoding below `2 ^ 52` is
the number of steps itself; above, each further binade doubles the size of a significand's unit. -/
def ofCode (code : Nat) : Nat :=
  match code / 2 ^ significandBits with
  | 0 => code
  | shift + 1 => (2 ^ significandBits + code % 2 ^ significandBits) * 2 ^ shift

def codeOf (x : Float) : Nat :=
  x.toBits.toNat % signWeight

/-- Whether the sign bit is set; true of `-0`. -/
def isNegative (x : Float) : Bool :=
  signWeight ≤ x.toBits.toNat

/-- The size of a finite double in steps of `2 ^ (-1074)`. -/
def ofFloat (x : Float) : Nat :=
  ofCode (codeOf x)

def roundHalfEven (count unit : Nat) : Nat :=
  let quotient := count / unit
  let excess := 2 * (count % unit)
  if unit < excess ∨ (unit = excess ∧ quotient % 2 = 1) then quotient + 1 else quotient

/-- Encoding of the double closest to `count / unit` steps, unbounded above. The significand
and the shift add up to the encoding, so a significand that rounds up to `2 ^ 53` carries into
the next binade by itself. -/
def nearestCode (count unit : Nat) : Nat :=
  let shift := (count / unit).log2 - significandBits
  shift * 2 ^ significandBits + roundHalfEven count (unit * 2 ^ shift)

def toFloat (negative : Bool) (code : Nat) : Float :=
  Float.ofBits (UInt64.ofNat (code + if negative then signWeight else 0))

def nearest (negative : Bool) (count unit : Nat) : Float :=
  toFloat negative (min (nearestCode count unit) infinityCode)

/-! ### Laws of rounding -/

private theorem roundHalfEven_mul (count unit : Nat) (positive : 0 < unit) :
    roundHalfEven (count * unit) unit = count := by
  have noExcess : ¬ unit < 0 := Nat.not_lt_zero unit
  simp [roundHalfEven, Nat.mul_div_cancel count positive, Nat.mul_mod_left]
  omega

private theorem log2_significand (significand shift : Nat)
    (least : 2 ^ significandBits ≤ significand) (most : significand < 2 ^ (significandBits + 1)) :
    (significand * 2 ^ shift).log2 = significandBits + shift := by
  have positive : 0 < significand := Nat.lt_of_lt_of_le (Nat.two_pow_pos significandBits) least
  have nonzero : significand * 2 ^ shift ≠ 0 :=
    Nat.ne_of_gt (Nat.mul_pos positive (Nat.two_pow_pos shift))
  rw [Nat.log2_eq_iff nonzero]
  constructor
  · rw [Nat.pow_add]
    exact Nat.mul_le_mul_right _ least
  · rw [show significandBits + shift + 1 = (significandBits + 1) + shift by omega, Nat.pow_add]
    exact Nat.mul_lt_mul_of_pos_right most (Nat.two_pow_pos shift)

theorem nearestCode_ofCode (code unit : Nat) (positive : 0 < unit) :
    nearestCode (ofCode code * unit) unit = code := by
  unfold nearestCode
  rw [Nat.mul_div_cancel _ positive]
  unfold ofCode
  split
  case h_1 binade =>
    have small : code < 2 ^ significandBits :=
      (Nat.div_eq_zero_iff_lt (Nat.two_pow_pos _)).1 binade
    have noShift : code.log2 - significandBits = 0 := by
      by_cases zero : code = 0
      · simp [zero]
      · have := (Nat.log2_lt zero).2 small
        omega
    simp only [noShift, Nat.zero_mul, Nat.pow_zero, Nat.mul_one, Nat.zero_add]
    exact roundHalfEven_mul code unit positive
  case h_2 shift binade =>
    have rest : code % 2 ^ significandBits < 2 ^ significandBits := Nat.mod_lt _ (Nat.two_pow_pos _)
    have width := log2_significand (2 ^ significandBits + code % 2 ^ significandBits) shift
      (by omega) (by rw [Nat.pow_succ]; omega)
    rw [width, Nat.add_sub_cancel_left, Nat.mul_assoc, Nat.mul_comm (2 ^ shift) unit]
    dsimp only
    rw [roundHalfEven_mul _ _ (Nat.mul_pos positive (Nat.two_pow_pos shift))]
    have parts := Nat.div_add_mod code (2 ^ significandBits)
    rw [binade, Nat.succ_eq_add_one, Nat.mul_add, Nat.mul_one, Nat.mul_comm] at parts
    omega

/-- Rounding depends on the quotient alone. -/
theorem roundHalfEven_scale (count unit scale : Nat) (positive : 0 < scale) :
    roundHalfEven (count * scale) (unit * scale) = roundHalfEven count unit := by
  unfold roundHalfEven
  rw [Nat.mul_div_mul_right _ _ positive, Nat.mul_mod_mul_right, ← Nat.mul_assoc]
  have same : unit * scale = 2 * (count % unit) * scale ↔ unit = 2 * (count % unit) :=
    ⟨Nat.eq_of_mul_eq_mul_right positive, fun equal => by rw [← equal]⟩
  simp only [same, Nat.mul_lt_mul_right positive]

/-- The closest double depends on the quotient alone. -/
theorem nearestCode_scale (count unit scale : Nat) (positive : 0 < scale) :
    nearestCode (count * scale) (unit * scale) = nearestCode count unit := by
  unfold nearestCode
  rw [Nat.mul_div_mul_right _ _ positive]
  dsimp only
  rw [Nat.mul_right_comm, roundHalfEven_scale _ _ _ positive]

theorem nearestCode_congr {count unit count' unit' : Nat} (positive : 0 < unit)
    (positive' : 0 < unit')
    (same : count * unit' = count' * unit) : nearestCode count unit = nearestCode count' unit' := by
  rw [← nearestCode_scale count unit unit' positive',
    ← nearestCode_scale count' unit' unit positive, same, Nat.mul_comm unit unit']

end QuantityFormula.Magnitude
