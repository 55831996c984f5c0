import Mathlib
import QuantityFormula.Number.Encoding

/-!
The sign of a double. A finite double below zero is what remains when its magnitude is taken from
zero, and both zeros have the magnitude zero.
-/

set_option autoImplicit false

namespace QuantityFormula.Magnitude

open Float.Model (Format UnpackedFloat)
open Float.Model.UnpackedFloat (Sign unpack unpackSign unpackExponent unpackMantissa)

private theorem toNat_unpackMantissa (b : BitVec Format.binary64.numBits) :
    (unpackMantissa b).toNat = b.toNat % 2 ^ significandBits := by
  simp [unpackMantissa, significandBits, BitVec.extractLsb]

private theorem toNat_unpackSign (b : BitVec Format.binary64.numBits) :
    (unpackSign b).toNat = b.toNat / signWeight % 2 := by
  simp [unpackSign, signWeight, BitVec.extractLsb, Nat.shiftRight_eq_div_pow]

private theorem lt_zero_iff (x : Float) : x < 0 ↔ x.toModel.unpack.lt (.zero .positive) = true := by
  change decide (x.toModel < (0 : Float).toModel) = true ↔ _
  rw [decide_eq_true_iff]
  rfl

private theorem ofBitVec_unpackSign (x : Float) :
    Sign.ofBitVec (@unpackSign Format.binary64 x.toBits.toBitVec) =
      if isNegative x then .negative else .positive := by
  have bit := toNat_unpackSign x.toBits.toBitVec
  have bound : x.toBits.toNat < 2 ^ 64 := x.toBits.toNat_lt
  change _ = x.toBits.toNat / signWeight % 2 at bit
  unfold Sign.ofBitVec isNegative
  by_cases negative : signWeight ≤ x.toBits.toNat
  · rw [decide_eq_true negative, if_pos rfl, if_neg]
    intro zero
    rw [zero] at bit
    unfold signWeight at *
    simp at bit
    omega
  · rw [decide_eq_false negative, if_neg Bool.false_ne_true, if_pos]
    apply BitVec.eq_of_toNat_eq
    rw [bit, Nat.div_eq_of_lt (Nat.lt_of_not_le negative)]
    rfl

/-- Two encodings that differ in their sign bits only unpack to values that
differ in their signs only. -/
theorem unpack_eq_neg {b b' : BitVec Format.binary64.numBits}
    (exponent : unpackExponent b = unpackExponent b')
    (mantissa : unpackMantissa b = unpackMantissa b')
    (sign : Sign.ofBitVec (unpackSign b) = -Sign.ofBitVec (unpackSign b')) :
    unpack Format.binary64 b = (unpack Format.binary64 b').neg := by
  unfold unpack
  dsimp only
  simp only [exponent, mantissa, sign]
  split
  · split <;> rfl
  · split
    · split <;> rfl
    · rfl

private theorem toBits_toFloat {code : Nat} (small : code < infinityCode) :
    (toFloat false code).toBits = UInt64.ofNat code := by
  have narrow : code < 2 ^ 64 := Nat.lt_trans small (by decide)
  have valid : Format.binary64.Valid (UInt64.ofNat code).toBitVec := by
    constructor
    intro ones
    have field := toNat_unpackExponent (UInt64.ofNat code).toBitVec
    rw [ones] at field
    have same : (UInt64.ofNat code).toBitVec.toNat = code := by
      simp
      omega
    rw [same] at field
    unfold infinityCode at small
    unfold significandBits at field
    simp at field
    omega
  unfold toFloat
  rw [if_neg Bool.false_ne_true, Nat.add_zero]
  simp only [Float.ofBits, Float.toBits, Float.Model.ofBits, Float.Model.pack]
  rw [pack_unpack _ valid]

private theorem sign_of_unpack_finite {b : BitVec Format.binary64.numBits} {sign : Sign}
    {mantissa : Nat} {exponent : Int} {positive : 0 < mantissa}
    (unpacked : unpack Format.binary64 b = .finite sign mantissa exponent positive) :
    sign = Sign.ofBitVec (unpackSign b) := by
  unfold unpack at unpacked
  dsimp only at unpacked
  split at unpacked
  · split at unpacked <;> cases unpacked
  · split at unpacked
    · split at unpacked
      · cases unpacked
      · cases unpacked
        rfl
    · cases unpacked
      rfl

/-- A finite double is a zero of either sign, or has a sign that its comparison with zero shows. -/
theorem unpack_finite_cases {x : Float} (finite : x.isFinite = true) :
    (∃ sign, x.toModel.unpack = .zero sign) ∨
      ∃ mantissa exponent positive,
        x.toModel.unpack = .finite (if isNegative x then .negative
          else .positive) mantissa exponent positive := by
  change x.toModel.unpack.isFinite = true at finite
  cases parts : x.toModel.unpack with
  | infinity sign =>
      rw [parts] at finite
      cases finite
  | notANumber =>
      rw [parts] at finite
      cases finite
  | zero sign => exact .inl ⟨sign, rfl⟩
  | finite sign mantissa exponent positive =>
      have read := sign_of_unpack_finite parts
      rw [show x.toModel.toBits.toBitVec = x.toBits.toBitVec from rfl, ofBitVec_unpackSign] at read
      exact .inr ⟨mantissa, exponent, positive, by rw [read]⟩

theorem isNegative_of_lt_zero {x : Float} (finite : x.isFinite = true) (negative : x < 0) :
    isNegative x = true := by
  rw [lt_zero_iff] at negative
  rcases unpack_finite_cases finite with ⟨sign, zero⟩ | ⟨mantissa, exponent, positive, parts⟩
  · rw [zero] at negative
    cases negative
  · rw [parts] at negative
    by_cases signed : isNegative x = true
    · exact signed
    · rw [if_neg signed] at negative
      cases negative

theorem beq_zero_of_lt_zero {x : Float} (finite : x.isFinite = true)
    (negative : x < 0) : (x == 0) = false := by
  rw [lt_zero_iff] at negative
  change x.toModel.unpack.beq (.zero .positive) = false
  rcases unpack_finite_cases finite with ⟨sign, zero⟩ | ⟨mantissa, exponent, positive, parts⟩
  · rw [zero] at negative
    cases negative
  · rw [parts]
    cases isNegative x <;> rfl

theorem isNegative_of_zero_lt {x : Float} (finite : x.isFinite = true) (notBelow : ¬x < 0)
    (nonzero : (x == 0) = false) : isNegative x = false := by
  rw [lt_zero_iff] at notBelow
  change x.toModel.unpack.beq (.zero .positive) = false at nonzero
  rcases unpack_finite_cases finite with ⟨sign, zero⟩ | ⟨mantissa, exponent, positive, parts⟩
  · rw [zero] at nonzero
    cases nonzero
  · by_cases signed : isNegative x = true
    · rw [parts, if_pos signed] at notBelow
      exact absurd rfl notBelow
    · exact Bool.eq_false_iff.mpr signed

private theorem toNat_toBits_magnitude {x : Float} (finite : x.isFinite = true) :
    (toFloat false (codeOf x)).toBits.toNat = codeOf x := by
  have small := codeOf_lt_infinityCode finite
  rw [toBits_toFloat small]
  unfold infinityCode at small
  simp
  omega

private theorem isNegative_magnitude {x : Float} (finite : x.isFinite = true) :
    isNegative (toFloat false (codeOf x)) = false := by
  have small := codeOf_lt_infinityCode finite
  unfold infinityCode at small
  unfold isNegative
  rw [toNat_toBits_magnitude finite]
  unfold signWeight
  exact decide_eq_false (by omega)

/-- A double with its sign bit set is the negation of its magnitude. -/
theorem unpack_eq_neg_magnitude {x : Float} (finite : x.isFinite = true)
    (signed : isNegative x = true) :
    x.toModel.unpack = (toFloat false (codeOf x)).toModel.unpack.neg := by
  have whole : x.toBits.toNat = codeOf x + signWeight := by
    have bound : x.toBits.toNat < 2 ^ 64 := x.toBits.toNat_lt
    have high : signWeight ≤ x.toBits.toNat := of_decide_eq_true signed
    unfold codeOf
    unfold signWeight at *
    omega
  have code := toNat_toBits_magnitude finite
  apply unpack_eq_neg
  · apply BitVec.eq_of_toNat_eq
    rw [toNat_unpackExponent, toNat_unpackExponent]
    change x.toBits.toNat / _ % _ = (toFloat false (codeOf x)).toBits.toNat / _ % _
    rw [whole, code]
    unfold signWeight significandBits
    omega
  · apply BitVec.eq_of_toNat_eq
    rw [toNat_unpackMantissa, toNat_unpackMantissa]
    change x.toBits.toNat % _ = (toFloat false (codeOf x)).toBits.toNat % _
    rw [whole, code]
    unfold signWeight significandBits
    omega
  · have left := ofBitVec_unpackSign x
    have right := ofBitVec_unpackSign (toFloat false (codeOf x))
    rw [signed] at left
    rw [isNegative_magnitude finite] at right
    exact left.trans (congrArg Neg.neg right.symm)

private theorem exists_unpack_magnitude {x : Float} (finite : x.isFinite = true)
    (negative : x < 0) :
    ∃ mantissa exponent nonzero,
      (toFloat false (codeOf x)).toModel.unpack = .finite .positive mantissa exponent nonzero := by
  have signed := isNegative_of_lt_zero finite negative
  have opposite := unpack_eq_neg_magnitude finite signed
  rw [lt_zero_iff] at negative
  rcases unpack_finite_cases finite with ⟨sign, zero⟩ | ⟨mantissa, exponent, nonzero, parts⟩
  · rw [zero] at negative
    cases negative
  · rw [if_pos signed] at parts
    rw [parts] at opposite
    cases magnitude : (toFloat false (codeOf x)).toModel.unpack with
    | finite sign mantissa' exponent' nonzero' =>
        rw [magnitude] at opposite
        cases sign with
        | positive => exact ⟨mantissa', exponent', nonzero', rfl⟩
        | negative => cases opposite
    | notANumber | infinity | zero =>
        rw [magnitude] at opposite
        cases opposite

theorem zero_sub_magnitude {x : Float} (finite : x.isFinite = true) (negative : x < 0) :
    0 - toFloat false (codeOf x) = x := by
  have opposite := unpack_eq_neg_magnitude finite (isNegative_of_lt_zero finite negative)
  obtain ⟨mantissa, exponent, nonzero, parts⟩ := exists_unpack_magnitude finite negative
  -- Nothing is rounded: zero minus a finite value flips the sign of the unpacked value.
  have subtracted : UnpackedFloat.sub Format.binary64 (.zero .positive)
      (toFloat false (codeOf x)).toModel.unpack = x.toModel.unpack := by
    rw [opposite, parts]
    rfl
  change Float.ofModel (Float.Model.pack (UnpackedFloat.sub Format.binary64 (.zero .positive)
    (toFloat false (codeOf x)).toModel.unpack)) = x
  rw [subtracted]
  exact ofBits_toBits x

end QuantityFormula.Magnitude
