import Mathlib
import QuantityFormula.Arithmetic.Token
import QuantityFormula.Number.ReadBack

/-!
Numbers as a formula writes them: digits with at most one dot and at least one digit. These are
exactly the texts that are read as a number.
-/

set_option autoImplicit false

namespace QuantityFormula

/-- Digits with at most one dot among them and at least one digit. -/
def IsNumeral (text : Text) : Prop :=
  (∀ c ∈ text, Token.isNumberChar c = true) ∧ text.count '.' ≤ 1 ∧ ∃ c ∈ text, c.isDigit = true

instance (text : Text) : Decidable (IsNumeral text) :=
  decidable_of_iff (text.all Token.isNumberChar = true ∧ text.count '.' ≤ 1 ∧
    text.any Char.isDigit = true)
    (by rw [IsNumeral, List.all_eq_true, List.any_eq_true])

private theorem count_dot_digits {text : Text} (digits : ∀ c ∈ text, c.isDigit = true) :
    text.count '.' = 0 := by
  apply List.count_eq_zero_of_not_mem
  intro dot
  exact absurd (digits '.' dot) (by decide)

private theorem isNumberChar_of_isDigit {c : Char} (digit : c.isDigit = true) :
    Token.isNumberChar c = true := by
  rw [Token.isNumberChar, digit, Bool.true_or]

theorem isNumeral_of_read? {text : Text} {value : Float} (read : Decimal.read? text = some value) :
    IsNumeral text := by
  have whole : ∀ c ∈ text.takeWhile Char.isDigit, c.isDigit = true :=
    fun c member => List.mem_takeWhile_imp member
  have parts := List.takeWhile_append_dropWhile (p := Char.isDigit) (l := text)
  unfold Decimal.read? at read
  dsimp only at read
  split at read
  · rename_i noFraction
    rw [noFraction, List.append_nil] at parts
    split at read
    · cases read
    · rename_i nonempty
      rw [parts] at whole nonempty
      refine ⟨fun c member => isNumberChar_of_isDigit (whole c member), ?_, ?_⟩
      · rw [count_dot_digits whole]
        exact Nat.zero_le 1
      · cases text with
        | nil => exact absurd rfl nonempty
        | cons c rest => exact ⟨c, List.mem_cons_self, whole c List.mem_cons_self⟩
  · rename_i point fraction withFraction
    rw [withFraction] at parts
    split at read
    · rename_i accepted
      simp only [Bool.and_eq_true, beq_iff_eq, List.all_eq_true] at accepted
      obtain ⟨⟨rfl, digits⟩, someDigit⟩ := accepted
      have member (c : Char) (inside : c ∈ text) :
          c ∈ text.takeWhile Char.isDigit ∨ c = '.' ∨ c ∈ fraction := by
        rw [← parts] at inside
        simpa using inside
      refine ⟨?_, ?_, ?_⟩
      · intro c inside
        rcases member c inside with before | rfl | after
        · exact isNumberChar_of_isDigit (whole c before)
        · rfl
        · exact isNumberChar_of_isDigit (digits c after)
      · rw [← parts, List.count_append, count_dot_digits whole, List.count_cons_self,
          count_dot_digits digits]
      · rw [← parts]
        cases before : text.takeWhile Char.isDigit with
        | cons c rest =>
            exact ⟨c, by simp, whole c (by rw [before]; exact List.mem_cons_self)⟩
        | nil =>
            cases fraction with
            | nil =>
                rw [before] at someDigit
                cases someDigit
            | cons c rest => exact ⟨c, by simp, digits c List.mem_cons_self⟩
    · cases read

theorem read?_of_isNumeral {text : Text} (numeral : IsNumeral text) :
    ∃ value, Decimal.read? text = some value := by
  obtain ⟨chars, dots, digit, inside, isDigit⟩ := numeral
  have parts := List.takeWhile_append_dropWhile (p := Char.isDigit) (l := text)
  unfold Decimal.read?
  dsimp only
  split
  · rename_i noFraction
    rw [noFraction, List.append_nil] at parts
    rw [parts]
    cases text with
    | nil => cases inside
    | cons c rest => exact ⟨_, rfl⟩
  · rename_i point fraction withFraction
    have notDigit : point.isDigit = false := by
      have stopped := List.head?_dropWhile_not Char.isDigit text
      rw [withFraction] at stopped
      exact stopped
    rw [withFraction] at parts
    have isPoint : point = '.' := by
      have allowed := chars point (by rw [← parts]; simp)
      rw [Token.isNumberChar, notDigit, Bool.false_or, beq_iff_eq] at allowed
      exact allowed
    subst isPoint
    have noDot : fraction.count '.' = 0 := by
      rw [← parts, List.count_append, List.count_cons_self] at dots
      omega
    have digits : fraction.all Char.isDigit = true := by
      rw [List.all_eq_true]
      intro c member
      have allowed := chars c (by rw [← parts]; simp [member])
      rw [Token.isNumberChar, Bool.or_eq_true, beq_iff_eq] at allowed
      rcases allowed with digit | rfl
      · exact digit
      · exact absurd member (List.count_eq_zero.mp noDot)
    -- Without a digit on either side of the dot there would be none in the text.
    have someDigit : ((text.takeWhile Char.isDigit).isEmpty && fraction.isEmpty) = false := by
      rw [← parts] at inside
      cases before : text.takeWhile Char.isDigit with
      | cons c rest => rfl
      | nil =>
          cases fraction with
          | cons c rest => rfl
          | nil =>
              rw [before] at inside
              simp only [List.nil_append, List.mem_singleton] at inside
              subst inside
              cases isDigit
    rw [digits, someDigit]
    exact ⟨_, rfl⟩

structure Numeral where
  text : Text
  isNumeral : IsNumeral text

namespace Numeral

def value (numeral : Numeral) : Float :=
  (Decimal.read? numeral.text).getD 0

theorem read?_text (numeral : Numeral) : Decimal.read? numeral.text = some numeral.value := by
  obtain ⟨value, read⟩ := read?_of_isNumeral numeral.isNumeral
  rw [Numeral.value, read]
  rfl

theorem text_ne_nil (numeral : Numeral) : numeral.text ≠ [] := by
  obtain ⟨c, member, _⟩ := numeral.isNumeral.2.2
  exact List.ne_nil_of_mem member

def zero : Numeral :=
  ⟨['0'], by decide⟩

theorem value_zero : zero.value = 0 := by
  decide +kernel

def ofMagnitude (x : Float) : Numeral :=
  ⟨Decimal.magnitudeText (Magnitude.codeOf x), isNumeral_of_read? (Decimal.read?_magnitudeText _)⟩

theorem value_ofMagnitude {x : Float} (finite : x.isFinite = true) :
    (ofMagnitude x).value = Magnitude.toFloat false (Magnitude.codeOf x) := by
  have small := Magnitude.codeOf_lt_infinityCode finite
  unfold value ofMagnitude
  rw [Decimal.read?_magnitudeText, Nat.min_eq_left (Nat.le_of_lt small)]
  rfl

end Numeral

end QuantityFormula
