import QuantityFormula.Binding
import QuantityFormula.Proofs.Sign
import QuantityFormula.Proofs.Writing

/-!
Numbers put into a formula. The text that stands for a finite number is that of an atom with
the number as its value: a numeral, or a numeral behind a minus in parentheses. Both zeros
are the one without a sign.
-/

set_option autoImplicit false

namespace QuantityFormula

def literal (x : Float) : Phrase Numeral .atom :=
  if x < 0 then
    .group (.minus (.factor (.base (.leaf (.ofMagnitude x)))))
  else if x == 0 then
    .leaf .zero
  else
    .leaf (.ofMagnitude x)

theorem callCount_literal (x : Float) : (literal x).callCount = 0 := by
  unfold literal
  split
  · simp [Phrase.callCount]
  · split <;> simp [Phrase.callCount]

theorem guardDepth_literal (x : Float) : (literal x).guardDepth = 0 := by
  unfold literal
  split
  · simp [Phrase.guardDepth]
  · split <;> simp [Phrase.guardDepth]

theorem value_literal {x : Float} (finite : x.isFinite = true) :
    (literal x).value = .ok (unsignedZero x) := by
  unfold literal
  split
  · rename_i negative
    -- The minus in the parentheses subtracts the magnitude from zero.
    have subtracted := Magnitude.zero_sub_magnitude finite negative
    rw [← Numeral.value_ofMagnitude finite] at subtracted
    simp only [Phrase.value]
    rw [unsignedZero, Magnitude.beq_zero_of_lt_zero finite negative, if_neg Bool.false_ne_true]
    exact congrArg Except.ok subtracted
  split
  · rename_i zero
    rw [Phrase.value, Numeral.value_zero, unsignedZero, if_pos zero]
  · rename_i notNegative notZero
    have nonzero := Bool.eq_false_iff.mpr notZero
    have same := Magnitude.toFloat_codeOf x
    rw [Magnitude.isNegative_of_zero_lt finite notNegative nonzero] at same
    rw [Phrase.value, Numeral.value_ofMagnitude finite, same, unsignedZero, nonzero,
      if_neg Bool.false_ne_true]

theorem write_of_finite {x : Float} (finite : x.isFinite = true) :
    Decimal.write x =
      if Magnitude.isNegative x then '-' :: (Numeral.ofMagnitude x).text
        else (Numeral.ofMagnitude x).text := by
  rw [Decimal.write, Decimal.isNaN_of_isFinite finite, if_neg Bool.false_ne_true,
    Decimal.isInf_of_isFinite finite, if_neg Bool.false_ne_true]
  rfl

private theorem written_negated (numeral : Numeral) :
    Written Numeral.text (Phrase.group (.minus (.factor (.base (.leaf numeral))))).lexemes
      ('(' :: '-' :: numeral.text ++ [')']) := by
  simp only [Phrase.lexemes]
  have closing : Written Numeral.text [.rightParen] [')'] := .of_spelled rfl
  have spelled : (Lexeme.leaf numeral).IsSpelled Numeral.text numeral.text := rfl
  have size := Written.cons_spelled numeral.text spelled closing
  exact .cons_spelled ['('] rfl (.cons_spelled ['-'] (.inl rfl) size)

/-- The text that stands for a finite number is a text of its atom. -/
theorem written_literal {x : Float} (finite : x.isFinite = true) :
    Written Numeral.text (literal x).lexemes (inlineNumber x) := by
  by_cases negative : x < 0
  · have signed := Magnitude.isNegative_of_lt_zero finite negative
    rw [literal, inlineNumber, if_pos negative, if_pos negative,
      write_of_finite finite, if_pos signed]
    exact written_negated (Numeral.ofMagnitude x)
  by_cases zero : (x == 0) = true
  · rw [literal, inlineNumber, if_neg negative, if_neg negative, if_pos zero,
      if_pos zero, Phrase.lexemes]
    exact .of_spelled rfl
  · have nonzero := Bool.eq_false_iff.mpr zero
    have unsigned := Magnitude.isNegative_of_zero_lt finite negative nonzero
    rw [literal, inlineNumber, if_neg negative, if_neg negative, nonzero, if_neg Bool.false_ne_true,
      if_neg Bool.false_ne_true, write_of_finite finite, unsigned,
      if_neg Bool.false_ne_true, Phrase.lexemes]
    generalize Numeral.ofMagnitude x = numeral
    exact .of_spelled rfl

end QuantityFormula
