import QuantityFormula.Proofs.Surroundings
import QuantityFormula.Proofs.Tokenizing

/-!
Blanks around a text. They are no part of any token and of any call, so a text has the value and the
calls it has without them.
-/

set_option autoImplicit false

namespace QuantityFormula

open Text

namespace Token

theorem scan_cons_blank {c : Char} (blank : isBlankChar c = true) (run text : Text) :
    scan run (c :: text) = (do
      let number ← ofRun run
      let tokens ← scan [] text
      return number ++ tokens) := by
  have notStar : c ≠ '*' := by
    rintro rfl
    cases blank
  rw [scan.eq_3 _ _ _ (fun _ star => absurd star notStar), (isBlankChar_separates blank).2.2.2.1,
    if_neg Bool.false_ne_true, if_pos blank]

private theorem scan_blank_append {gap : Text} (blank : isBlank gap = true) (text : Text) :
    scan [] (gap ++ text) = scan [] text := by
  induction gap with
  | nil => rfl
  | cons c gap ih =>
      rw [isBlank, List.all_cons, Bool.and_eq_true] at blank
      rw [List.cons_append, scan_cons_blank blank.1, ih blank.2]
      cases scan [] text <;> rfl

private theorem scan_append_blank {gap : Text} (blank : isBlank gap = true) (run text : Text) :
    scan run (text ++ gap) = scan run text := by
  fun_induction scan run text with
  | case1 run =>
      cases gap with
      | nil => rfl
      | cons c gap =>
          rw [isBlank, List.all_cons, Bool.and_eq_true] at blank
          have nothing : scan [] gap = .ok [] := by
            have alone := scan_blank_append blank.2 []
            rwa [List.append_nil] at alone
          rw [List.nil_append, scan_cons_blank blank.1, nothing]
          cases ofRun run with
          | error fault => rfl
          | ok number => exact congrArg Except.ok (List.append_nil number)
  | case2 run text ih =>
      rw [List.cons_append, List.cons_append, scan, ih]
  | case3 run c text notPower numeric ih =>
      have notPower' : ∀ rest, c = '*' → text ++ gap = '*' :: rest → False := by
        rintro rest rfl -
        cases numeric
      rw [List.cons_append, scan.eq_3 _ _ _ notPower', if_pos numeric, ih]
  | case4 run c text notPower notNumeric blankChar ih =>
      rw [List.cons_append, scan_cons_blank blankChar, ih]
  | case5 run c text notPower notNumeric notBlank token sign ih =>
      have notPower' : ∀ rest, c = '*' → text ++ gap = '*' :: rest → False := by
        rintro rest rfl same
        cases text with
        | nil =>
            rw [List.nil_append] at same
            rw [same] at blank
            cases blank
        | cons d text =>
            rw [List.cons_append] at same
            obtain ⟨rfl, -⟩ := List.cons.inj same
            exact notPower text rfl rfl
      rw [List.cons_append, scan.eq_3 _ _ _ notPower', if_neg notNumeric, if_neg notBlank, sign]
      dsimp only
      rw [ih]
  | case6 run c text notPower notNumeric notBlank unknown =>
      have notPower' : ∀ rest, c = '*' → text ++ gap = '*' :: rest → False := by
        rintro rest rfl -
        cases unknown
      rw [List.cons_append, scan.eq_3 _ _ _ notPower', if_neg notNumeric, if_neg notBlank, unknown]

end Token

theorem Arithmetic.evaluate_blanks {before after : Text} (beforeBlank : isBlank before = true)
    (afterBlank : isBlank after = true) (text : Text) :
    evaluate (before ++ (text ++ after)) = evaluate text := by
  unfold evaluate Token.ofText
  rw [Token.scan_blank_append beforeBlank, Token.scan_append_blank afterBlank]

theorem Head.all_blanks {before after : Text} (beforeBlank : isBlank before = true)
    (afterBlank : isBlank after = true) (text : Text) :
    all false (before ++ (text ++ after)) = (all false text).map fun head =>
      keepAll before (head.extend after) := by
  have nothing : all (continuesWord false text) after = [] := by
    have alone := all_append_of_notStart (notStart_of_isBlank afterBlank)
      (continuesWord false text) []
    rwa [List.append_nil] at alone
  rw [all_append_of_notStart (notStart_of_isBlank beforeBlank), continuesWord_blank beforeBlank,
    all_append (closes_blank afterBlank), nothing, List.map_nil, List.append_nil, List.map_map]
  rfl

theorem Call.pick_all_blanks {before after : Text} (beforeBlank : isBlank before = true)
    (afterBlank : isBlank after = true) (text : Text) :
    pick (Head.all false (before ++ (text ++ after))) =
      (pick (Head.all false text)).map fun head => Head.keepAll before (head.extend after) := by
  rw [Head.all_blanks beforeBlank afterBlank, pick_map]
  intro head
  rfl

end QuantityFormula
