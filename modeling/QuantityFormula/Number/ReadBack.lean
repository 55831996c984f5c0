import QuantityFormula.Number.Decimal
import QuantityFormula.Number.Encoding

/-!
Decimal text reads back. The main statement is `read?_write`: the text written for a finite double
without a sign is digits with at most one point, and reading it gives the same double.
-/

set_option autoImplicit false

namespace QuantityFormula.Decimal

-- Powers of natural numbers are those of the core library in every module.
attribute [local instance(2000)] instPowNat

private theorem ofDigitChars_lastDigits (places n init : Nat) (tail : List Char) :
    Nat.ofDigitChars 10 (lastDigits places n tail) init =
      Nat.ofDigitChars 10 tail (init * 10 ^ places + n % 10 ^ places) := by
  induction places generalizing n tail with
  | zero => simp [lastDigits, Nat.mod_one]
  | succ places ih =>
    rw [lastDigits, ih, Nat.ofDigitChars_cons_digitChar_of_lt_ten (Nat.mod_lt _ (by decide))]
    congr 1
    rw [Nat.pow_succ, Nat.mul_comm (10 ^ places) 10, Nat.mod_mul, Nat.mul_add, Nat.mul_left_comm]
    omega

private theorem isDigit_digitChar {n : Nat} (single : n < 10) : n.digitChar.isDigit = true := by
  have all : ∀ m < 10, m.digitChar.isDigit = true := by decide
  exact all n single

private theorem all_lastDigits (places n : Nat) (tail : List Char) :
    (lastDigits places n tail).all Char.isDigit = tail.all Char.isDigit := by
  induction places generalizing n tail with
  | zero => rfl
  | succ places ih =>
    rw [lastDigits, ih, List.all_cons, isDigit_digitChar (Nat.mod_lt _ (by decide)), Bool.true_and]

private theorem length_lastDigits (places n : Nat) (tail : List Char) :
    (lastDigits places n tail).length = places + tail.length := by
  induction places generalizing n tail with
  | zero => simp [lastDigits]
  | succ places ih => rw [lastDigits, ih, List.length_cons]; omega

private theorem takeWhile_digits (n : Nat) (rest : List Char)
    (stop : rest.head?.any Char.isDigit = false) :
    (Nat.toDigits 10 n ++ rest).takeWhile Char.isDigit = Nat.toDigits 10 n ∧
      (Nat.toDigits 10 n ++ rest).dropWhile Char.isDigit = rest := by
  have digits : ∀ c ∈ Nat.toDigits 10 n, c.isDigit = true :=
    fun c inside => Nat.isDigit_of_mem_toDigits (by decide) (by decide) inside
  constructor
  · rw [List.takeWhile_append_of_pos digits]
    cases rest with
    | nil => simp
    | cons c rest => simp at stop; simp [stop]
  · rw [List.dropWhile_append_of_pos digits]
    cases rest with
    | nil => simp
    | cons c rest => simp at stop; simp [stop]

/-- A multiple on a grid is the same quotient whether counted in places or in units. -/
private theorem nearest_grid (count step : Nat) :
    nearest (count * 10 ^ (step - unitPlaces)) (unitPlaces - step) =
      Magnitude.nearest false (count * 10 ^ step) unitsPerStep := by
  have cross : count * 10 ^ (step - unitPlaces) * 2 ^ unitPlaces * unitsPerStep =
      count * 10 ^ step * 10 ^ (unitPlaces - step) := by
    rw [unitsPerStep, Nat.mul_assoc, ← Nat.mul_pow, Nat.mul_assoc, Nat.mul_assoc, ← Nat.pow_add,
      ← Nat.pow_add, show step - unitPlaces + unitPlaces = step + (unitPlaces - step) by omega]
  have positive : 0 < unitsPerStep := by
    rw [unitsPerStep]; exact Nat.pow_pos (by decide)
  unfold nearest Magnitude.nearest
  rw [Magnitude.nearestCode_congr (Nat.pow_pos (by decide)) positive cross]

/-- The text of any multiple on any grid reads as the double closest to it. -/
theorem read?_gridText (count step : Nat) :
    read? (gridText count step) =
      some (Magnitude.nearest false (count * 10 ^ step) unitsPerStep) := by
  rw [← nearest_grid]
  unfold gridText
  dsimp only
  generalize count * 10 ^ (step - unitPlaces) = amount
  generalize unitPlaces - step = places
  by_cases whole : places = 0
  · subst whole
    have parts := takeWhile_digits amount [] rfl
    rw [List.append_nil] at parts
    rw [if_pos rfl, List.append_nil, Nat.pow_zero, Nat.div_one]
    unfold read?
    rw [parts.1, parts.2]
    dsimp only
    rw [Nat.ofDigitChars_ten_toDigits]
    simp
  · rw [if_neg whole]
    have parts := takeWhile_digits (amount / 10 ^ places) ('.' :: lastDigits places amount []) rfl
    unfold read?
    rw [parts.1, parts.2]
    dsimp only
    rw [Nat.ofDigitChars_append, Nat.ofDigitChars_ten_toDigits, ofDigitChars_lastDigits,
      Nat.ofDigitChars_nil, Nat.div_add_mod', length_lastDigits, all_lastDigits]
    simp

private theorem accepts_of_neighbour? {accepts : Nat → Bool} {amount grid count : Nat}
    (found : neighbour? accepts amount grid = some count) : accepts count = true := by
  unfold neighbour? at found
  dsimp only at found
  split at found
  case h_1 below above =>
    split at found
    · rw [← Option.some.inj found]; exact below
    · rw [← Option.some.inj found]; exact above
  case h_2 below _ => rw [← Option.some.inj found]; exact below
  case h_3 _ above => rw [← Option.some.inj found]; exact above
  case h_4 => cases found

private theorem accepts_shorten (accepts : Nat → Nat → Bool) (amount step : Nat)
    (reads : accepts amount 0 = true) :
    accepts (shorten accepts amount step).1 (shorten accepts amount step).2 = true := by
  induction step with
  | zero => exact reads
  | succ step ih =>
    rw [shorten]
    split
    case h_1 count found =>
      exact @accepts_of_neighbour? (accepts · (step + 1)) _ _ _ found
    case h_2 => exact ih

/-- Shortened or not, the text of a magnitude reads back; past the finite range it reads as
infinity. -/
theorem read?_magnitudeText (code : Nat) :
    read? (magnitudeText code) =
      some (Magnitude.toFloat false (min code Magnitude.infinityCode)) := by
  have positive : 0 < unitsPerStep := by
    rw [unitsPerStep]; exact Nat.pow_pos (by decide)
  have back := Magnitude.nearestCode_ofCode code unitsPerStep positive
  unfold magnitudeText
  dsimp only
  split
  case isTrue zero =>
    rw [zero] at back
    have plain : gridText 0 unitPlaces = ['0'] := by
      unfold gridText
      simp
    rw [← plain, read?_gridText, Nat.zero_mul]
    unfold Magnitude.nearest
    rw [back]
  case isFalse =>
    have itself : readsBack code (Magnitude.ofCode code * unitsPerStep) 0 = true := by
      unfold readsBack
      rw [Nat.pow_zero, Nat.mul_one, back]
      exact beq_self_eq_true code
    have reads := accepts_shorten _ _ (widthBound (Magnitude.ofCode code * unitsPerStep)) itself
    rw [read?_gridText]
    unfold Magnitude.nearest
    rw [eq_of_beq reads]

theorem isNaN_of_isFinite {x : Float} (finite : x.isFinite = true) : x.isNaN = false := by
  change x.toModel.unpack.isFinite = true at finite
  change x.toModel.unpack.isNaN = false
  generalize x.toModel.unpack = parts at finite ⊢
  cases parts with
  | notANumber => cases finite
  | infinity | zero | finite => rfl

theorem isInf_of_isFinite {x : Float} (finite : x.isFinite = true) : x.isInf = false := by
  change x.toModel.unpack.isFinite = true at finite
  change x.toModel.unpack.isInf = false
  generalize x.toModel.unpack = parts at finite ⊢
  cases parts with
  | infinity => cases finite
  | notANumber | zero | finite => rfl

theorem read?_write {x : Float} (finite : x.isFinite = true)
    (unsigned : Magnitude.isNegative x = false) :
    read? (write x) = some x := by
  have same := Magnitude.toFloat_codeOf x
  rw [unsigned] at same
  unfold write
  rw [isNaN_of_isFinite finite, isInf_of_isFinite finite, unsigned]
  dsimp only
  rw [if_neg Bool.false_ne_true, if_neg Bool.false_ne_true, if_neg Bool.false_ne_true,
    read?_magnitudeText, Nat.min_eq_left (Nat.le_of_lt (Magnitude.codeOf_lt_infinityCode finite)),
    same]

end QuantityFormula.Decimal
