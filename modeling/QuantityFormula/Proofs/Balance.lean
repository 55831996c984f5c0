import QuantityFormula.Arithmetic.Expression
import QuantityFormula.Proofs.Outcome
import QuantityFormula.Text.Parentheses

/-!
Balance of parentheses. A balanced piece of a text can be taken out of it or put into it without an
effect on the balance of the rest. Ordering the tokens of an expression checks their balance, so a
text that has a value balances.
-/

set_option autoImplicit false

namespace QuantityFormula

namespace Text

/-! ### Neutral pieces -/

/-- A piece that has no effect on the balance of any text it stands in. -/
def IsNeutral (piece : Text) : Prop :=
  ∀ depth rest, isBalancedFrom depth (piece ++ rest) = isBalancedFrom depth rest

private theorem isBalancedFrom_closed {piece : Text} {inside : Nat}
    (closed : isBalancedFrom inside piece = true) (depth : Nat) (rest : Text) :
    isBalancedFrom (depth + inside) (piece ++ rest) = isBalancedFrom depth rest := by
  induction piece generalizing inside with
  | nil =>
      have outermost : inside = 0 := by simpa [isBalancedFrom] using closed
      rw [outermost, List.nil_append, Nat.add_zero]
  | cons c piece ih =>
      by_cases unopened : inside = 0 ∧ c = ')'
      · obtain ⟨rfl, rfl⟩ := unopened
        cases closed
      rw [isBalancedFrom_cons _ _ _ unopened] at closed
      by_cases opening : c = '('
      · subst opening
        rw [if_pos rfl] at closed
        rw [List.cons_append, isBalancedFrom_cons _ _ _ (by simp), if_pos rfl, Nat.add_assoc]
        exact ih closed
      by_cases closing : c = ')'
      · subst closing
        cases inside with
        | zero => exact absurd ⟨rfl, rfl⟩ unopened
        | succ inside => exact ih closed
      · rw [if_neg opening, if_neg closing] at closed
        rw [List.cons_append, isBalancedFrom_cons _ _ _ (by simp [closing]),
          if_neg opening, if_neg closing]
        exact ih closed

theorem isNeutral_iff {piece : Text} : IsNeutral piece ↔ isBalanced piece = true := by
  constructor
  · intro neutral
    have alone := neutral 0 []
    rwa [List.append_nil] at alone
  · intro balanced depth rest
    exact isBalancedFrom_closed balanced depth rest

theorem isNeutral_nil : IsNeutral [] :=
  fun _ _ => rfl

theorem IsNeutral.append {left right : Text} (leftNeutral : IsNeutral left)
    (rightNeutral : IsNeutral right) :
    IsNeutral (left ++ right) := by
  intro depth rest
  rw [List.append_assoc, leftNeutral, rightNeutral]

theorem isNeutral_of_forall {piece : Text}
    (flat : ∀ c ∈ piece, c ≠ '(' ∧ c ≠ ')') : IsNeutral piece := by
  intro depth rest
  induction piece with
  | nil => rfl
  | cons c piece ih =>
      obtain ⟨notOpening, notClosing⟩ := flat c List.mem_cons_self
      rw [List.cons_append, isBalancedFrom_cons _ _ _ (by simp [notClosing]),
        if_neg notOpening, if_neg notClosing]
      exact ih fun c member => flat c (List.mem_cons_of_mem _ member)

theorem isNeutral_of_class (belongs : Char → Bool) (opening : belongs '(' = false)
    (closing : belongs ')' = false)
    {piece : Text} (members : piece.all belongs = true) : IsNeutral piece := by
  apply isNeutral_of_forall
  intro c member
  have inside := List.all_eq_true.mp members c member
  constructor
  · rintro rfl
    rw [opening] at inside
    cases inside
  · rintro rfl
    rw [closing] at inside
    cases inside

theorem isNeutral_singleton {c : Char} (notOpening : c ≠ '(')
    (notClosing : c ≠ ')') : IsNeutral [c] := by
  apply isNeutral_of_forall
  intro other member
  rw [List.mem_singleton.mp member]
  exact ⟨notOpening, notClosing⟩

theorem IsNeutral.group {inner : Text} (neutral : IsNeutral inner) :
    IsNeutral ('(' :: (inner ++ [')'])) := by
  intro depth rest
  rw [List.cons_append, List.append_assoc, isBalancedFrom, neutral,
    List.singleton_append, isBalancedFrom]

theorem isBalancedFrom_append_congr {left right : Text}
    (same : ∀ depth, isBalancedFrom depth left = isBalancedFrom depth right)
    (before : Text) (depth : Nat) :
    isBalancedFrom depth (before ++ left) = isBalancedFrom depth (before ++ right) := by
  induction before generalizing depth with
  | nil => exact same depth
  | cons c before ih =>
      by_cases unopened : depth = 0 ∧ c = ')'
      · obtain ⟨rfl, rfl⟩ := unopened
        rfl
      · rw [List.cons_append, List.cons_append, isBalancedFrom_cons _ _ _ unopened,
          isBalancedFrom_cons _ _ _ unopened]
        exact ih _

def SameBalance (left right : Text) : Prop :=
  ∀ depth rest, isBalancedFrom depth (left ++ rest) = isBalancedFrom depth (right ++ rest)

namespace SameBalance

theorem refl (text : Text) : SameBalance text text :=
  fun _ _ => rfl

theorem trans {first second third : Text} (before : SameBalance first second)
    (after : SameBalance second third) :
    SameBalance first third :=
  fun depth rest => (before depth rest).trans (after depth rest)

theorem append {left left' right right' : Text} (before : SameBalance left left')
    (after : SameBalance right right') : SameBalance (left ++ right) (left' ++ right') := by
  intro depth rest
  rw [List.append_assoc, List.append_assoc, before]
  exact isBalancedFrom_append_congr (fun depth => after depth rest) left' depth

theorem isBalanced_eq {left right : Text} (same : SameBalance left right) :
    isBalanced left = isBalanced right := by
  have whole := same 0 []
  rwa [List.append_nil, List.append_nil] at whole

end SameBalance

theorem IsNeutral.sameBalance {left right : Text} (leftNeutral : IsNeutral left)
    (rightNeutral : IsNeutral right) :
    SameBalance left right := by
  intro depth rest
  rw [leftNeutral, rightNeutral]

end Text

/-! ### Tokens -/

namespace Token

def bracket? : Token → Option Char
  | leftParen => some '('
  | rightParen => some ')'
  | number _ | operator _ => none

def brackets (tokens : List Token) : Text :=
  tokens.filterMap bracket?

private theorem brackets_append (left right : List Token) :
    brackets (left ++ right) = brackets left ++ brackets right :=
  List.filterMap_append

private theorem brackets_ofRun {run : Text} {tokens : List Token} (read : ofRun run = .ok tokens) :
    brackets tokens = [] := by
  unfold ofRun at read
  split at read
  · cases read
    rfl
  · split at read
    · cases read
      rfl
    · cases read

private theorem brackets_of_scan_parts (between : List Token) {run text : Text}
    {tokens : List Token} (read : (do
      let number ← ofRun run
      let following ← scan [] text
      return number ++ between ++ following) = .ok tokens) :
    ∃ following, scan [] text = .ok following ∧
      brackets tokens = brackets between ++ brackets following := by
  obtain ⟨number, ended, read⟩ := exists_of_bind_eq_ok read
  obtain ⟨following, scanned, read⟩ := exists_of_bind_eq_ok read
  cases read
  exact ⟨following, scanned, by rw [brackets_append, brackets_append,
    brackets_ofRun ended, List.nil_append]⟩

private theorem isBalancedFrom_sign {c : Char} {token : Token} (sign : ofChar? c = some token)
    {text following : Text}
    (same : ∀ depth, Text.isBalancedFrom depth text = Text.isBalancedFrom depth following)
    (depth : Nat) :
    Text.isBalancedFrom depth (c :: text) =
      Text.isBalancedFrom depth (brackets [token] ++ following) := by
  unfold ofChar? at sign
  split at sign
  · cases sign
    exact Text.isBalancedFrom_append_congr same ['('] depth
  · cases sign
    exact Text.isBalancedFrom_append_congr same [')'] depth
  · rename_i notOpening notClosing
    obtain ⟨operator, _, rfl⟩ := Option.map_eq_some_iff.mp sign
    have neutral := Text.isNeutral_singleton notOpening notClosing
    exact (neutral depth text).trans (same depth)

theorem isBalancedFrom_scan {run text : Text} {tokens : List Token}
    (read : scan run text = .ok tokens) (depth : Nat) :
    Text.isBalancedFrom depth text = Text.isBalancedFrom depth (brackets tokens) := by
  fun_induction scan run text generalizing tokens depth with
  | case1 run =>
      rw [brackets_ofRun read]
  | case2 run text ih =>
      obtain ⟨following, scanned, same⟩ :=
        brackets_of_scan_parts [.operator .power] (by simpa using read)
      rw [same]
      have neutral : Text.IsNeutral ['*', '*'] := Text.isNeutral_of_forall (by simp)
      exact (neutral depth text).trans (ih scanned depth)
  | case3 run c text _ numeric ih =>
      have neutral : Text.IsNeutral [c] :=
        Text.isNeutral_of_class isNumberChar rfl rfl (by simp [numeric])
      exact (neutral depth text).trans (ih read depth)
  | case4 run c text _ notNumeric blank ih =>
      obtain ⟨following, scanned, same⟩ := brackets_of_scan_parts [] (by simpa using read)
      rw [same]
      have neutral : Text.IsNeutral [c] :=
        Text.isNeutral_of_class Text.isBlankChar rfl rfl (by simp [blank])
      exact (neutral depth text).trans (ih scanned depth)
  | case5 run c text _ notNumeric notBlank token sign ih =>
      obtain ⟨following, scanned, same⟩ := brackets_of_scan_parts [token] (by simpa using read)
      rw [same]
      exact isBalancedFrom_sign sign (ih scanned) depth
  | case6 run c text _ notNumeric notBlank unknown => cases read

theorem brackets_completeMinus (opening : Bool) (tokens : List Token) :
    brackets (Arithmetic.completeMinus opening tokens) = brackets tokens := by
  fun_induction Arithmetic.completeMinus opening tokens with
  | case1 opening => rfl
  | case2 tokens ih => exact ih
  | case3 opening tokens ih => exact congrArg ('(' :: ·) ih
  | case4 opening token tokens _ _ ih =>
      change brackets ([token] ++ _) = brackets ([token] ++ _)
      rw [brackets_append, brackets_append, ih]

end Token

theorem Program.isBalancedFrom_order {waiting : List Operator} {outer : List (List Operator)}
    {tokens : List Token} {program : Program} (ordered : order waiting outer tokens = .ok program) :
    Text.isBalancedFrom outer.length (Token.brackets tokens) = true := by
  fun_induction order waiting outer tokens generalizing program with
  | case1 waiting => rfl
  | case2 => cases ordered
  | case3 waiting outer value tokens ih =>
      obtain ⟨following, orderedRest, _⟩ := exists_of_bind_eq_ok ordered
      exact ih orderedRest
  | case4 waiting outer tokens ih =>
      exact ih ordered
  | case5 => cases ordered
  | case6 waiting enclosing outer tokens ih =>
      obtain ⟨following, orderedRest, _⟩ := exists_of_bind_eq_ok ordered
      exact ih orderedRest
  | case7 =>
      rename_i ih
      obtain ⟨following, orderedRest, _⟩ := exists_of_bind_eq_ok ordered
      exact ih orderedRest

theorem Arithmetic.exists_of_evaluate_eq_ok {text : Text} {value : Float}
    (valued : evaluate text = .ok value) :
    ∃ tokens program, Token.ofText text = .ok tokens ∧
      Program.ofTokens (completeMinus true tokens) = .ok program ∧ program.execute = .ok value := by
  obtain ⟨tokens, read, valued⟩ := exists_of_bind_eq_ok valued
  obtain ⟨program, ordered, valued⟩ := exists_of_bind_eq_ok valued
  obtain ⟨outcome, executed, valued⟩ := exists_of_bind_eq_ok valued
  obtain ⟨rfl, _⟩ := eq_of_requireFinite valued
  exact ⟨tokens, program, read, ordered, executed⟩

theorem Arithmetic.isBalanced_of_evaluate {text : Text} {value : Float}
    (valued : evaluate text = .ok value) :
    Text.isBalanced text = true := by
  obtain ⟨tokens, program, read, ordered, _⟩ := exists_of_evaluate_eq_ok valued
  have balanced := Program.isBalancedFrom_order ordered
  rw [Token.brackets_completeMinus] at balanced
  rw [Text.isBalanced, Token.isBalancedFrom_scan read]
  exact balanced

end QuantityFormula
