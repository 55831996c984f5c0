import Mathlib
import QuantityFormula.Number.Magnitude

/-!
A double and its encoding determine each other: taking a double apart into sign and
magnitude code and putting it together again gives the same double, and the code of a finite
one lies below that of infinity.
-/

set_option autoImplicit false

namespace QuantityFormula.Magnitude

-- Powers of natural numbers are those of the core library in every module.
attribute [local instance(2000)] instPowNat

open Float.Model (Format UnpackedFloat)
open Float.Model.UnpackedFloat
  (Sign pack packComponents packedInfinity packedZero unpackSign unpackExponent
  unpackMantissa)

private theorem packComponents_unpack (b : BitVec Format.binary64.numBits) :
    packComponents Format.binary64 (Sign.ofBitVec (unpackSign b)) (unpackExponent b)
      (unpackMantissa b) = b := by
  have sign : (Sign.ofBitVec (unpackSign b)).toBitVec = unpackSign b := by
    generalize unpackSign b = bit
    revert bit
    decide
  unfold packComponents
  rw [sign]
  apply BitVec.eq_of_getLsbD_eq
  intro i hi
  simp only [unpackSign, unpackExponent, unpackMantissa, BitVec.getLsbD_append, BitVec.getLsbD_cast,
    BitVec.getLsbD_extractLsb]
  by_cases low : i < 52
  · simp [low]
  · by_cases middle : i < 63
    · simp [low, show i - 52 < 11 by omega, show 52 + (i - 52) = i by omega]
    · have top : i = 63 := by
        simp at hi
        omega
      subst top
      simp
      exact BitVec.getLsbD_eq_getElem _

private theorem toNat_leadingBit (b : BitVec Format.binary64.numBits) :
    (1#1 ++ unpackMantissa b).toNat = 2 ^ (52 : Nat) + (unpackMantissa b).toNat := by
  have small : (unpackMantissa b).toNat < 2 ^ 52 := (unpackMantissa b).isLt
  rw [BitVec.toNat_append]
  simp only [BitVec.toNat_ofNat]
  rw [← Nat.shiftLeft_add_eq_or_of_lt small]
  simp [Nat.shiftLeft_eq]

/-- An encoding that a double can have is the encoding of its value. -/
theorem pack_unpack (b : BitVec Format.binary64.numBits) (valid : Format.binary64.Valid b) :
    pack Format.binary64 (UnpackedFloat.unpack Format.binary64 b) = b := by
  have parts := packComponents_unpack b
  unfold UnpackedFloat.unpack
  dsimp only
  split
  case isTrue allOnes =>
    split
    case isTrue zero =>
      rw [pack, packedInfinity, ← allOnes]
      rw [zero] at parts
      exact parts
    case isFalse payload => exact (valid.eq_packedNaN allOnes payload).symm
  case isFalse notOnes =>
    split
    case isTrue noExponent =>
      split
      case isTrue zero =>
        rw [pack, packedZero]
        rw [zero, noExponent] at parts
        exact parts
      case isFalse nonzero =>
        have small : (unpackMantissa b).toNat < 2 ^ 52 := (unpackMantissa b).isLt
        have positive : (unpackMantissa b).toNat ≠ 0 := by
          intro same
          exact nonzero (BitVec.eq_of_toNat_eq (by simpa using same))
        have width : (unpackMantissa b).toNat.log2 < 52 := (Nat.log2_lt positive).2 small
        rw [pack]
        dsimp only
        rw [noExponent]
        rw [if_neg (by simp [Format.exponentBias]), if_neg (by simp [Format.mantissaBits]; omega)]
        rw [noExponent] at parts
        simpa using parts
    case isFalse normal =>
      have small : (unpackMantissa b).toNat < 2 ^ 52 := (unpackMantissa b).isLt
      have short : (unpackExponent b).toNat < 2047 := by
        have bound : (unpackExponent b).toNat < 2 ^ 11 := (unpackExponent b).isLt
        have different : (unpackExponent b).toNat ≠ 2047 := by
          intro same
          exact notOnes (BitVec.eq_of_toNat_eq (by simpa using same))
        omega
      have value := toNat_leadingBit b
      have width : (1#1 ++ unpackMantissa b).toNat.log2 = 52 := by
        rw [value, Nat.log2_eq_iff (by omega)]
        omega
      rw [pack]
      dsimp only
      rw [if_neg (by simp [Format.exponentBias]; omega), if_pos (by rw [width]; rfl)]
      have exponent : (((unpackExponent b).toNat : Int) -
          (Format.binary64.exponentBias + Format.binary64.mantissaBitsWithoutImplicit) +
          Format.binary64.exponentBias + Format.binary64.mantissaBitsWithoutImplicit).toNat =
          (unpackExponent b).toNat := by omega
      rw [exponent, value]
      have low : BitVec.ofNat 52 (2 ^ 52 + (unpackMantissa b).toNat) = unpackMantissa b := by
        apply BitVec.eq_of_toNat_eq
        simp only [BitVec.toNat_ofNat]
        omega
      rw [low]
      simpa using parts

/-- A double is what its encoding says. -/
theorem ofBits_toBits (x : Float) : Float.ofBits x.toBits = x := by
  obtain ⟨⟨bits, valid⟩⟩ := x
  have same := pack_unpack bits.toBitVec valid
  simp only [Float.ofBits, Float.toBits, Float.Model.ofBits, Float.Model.pack]
  congr

theorem toNat_unpackExponent (b : BitVec Format.binary64.numBits) :
    (unpackExponent b).toNat = b.toNat / 2 ^ significandBits % 2 ^ (11 : Nat) := by
  simp [unpackExponent, significandBits, BitVec.extractLsb, Nat.shiftRight_eq_div_pow]

theorem codeOf_lt_infinityCode {x : Float} (finite : x.isFinite = true) :
    codeOf x < infinityCode := by
  obtain ⟨⟨bits, valid⟩⟩ := x
  have notOnes : @unpackExponent Format.binary64 bits.toBitVec ≠
      -BitVec.ofNat Format.binary64.exponentBits 1 := by
    intro ones
    have shape : Float.isFinite ⟨⟨bits, valid⟩⟩ =
      (UnpackedFloat.unpack Format.binary64 bits.toBitVec).isFinite := rfl
    rw [shape, UnpackedFloat.unpack] at finite
    dsimp only at finite
    rw [if_pos ones] at finite
    split at finite <;> cases finite
  have small : (@unpackExponent Format.binary64 bits.toBitVec).toNat ≠ 2047 :=
    fun same => notOnes (BitVec.eq_of_toNat_eq same)
  rw [toNat_unpackExponent] at small
  unfold codeOf infinityCode signWeight
  have shape : (Float.toBits ⟨⟨bits, valid⟩⟩).toNat = bits.toBitVec.toNat := rfl
  rw [shape]
  unfold significandBits at small
  have := Nat.mod_lt (bits.toBitVec.toNat / 2 ^ 52) (show 0 < 2 ^ 11 by decide)
  omega

theorem toFloat_codeOf (x : Float) : toFloat (isNegative x) (codeOf x) = x := by
  have whole : codeOf x + (if isNegative x then signWeight else 0) = x.toBits.toNat := by
    have bound : x.toBits.toNat < 2 ^ 64 := x.toBits.toNat_lt
    unfold codeOf isNegative signWeight
    split
    case isTrue negative =>
      have := of_decide_eq_true negative
      omega
    case isFalse positive =>
      have := of_decide_eq_false (Bool.eq_false_iff.2 positive)
      omega
  unfold toFloat
  rw [whole, UInt64.ofNat_toNat, ofBits_toBits]

end QuantityFormula.Magnitude
