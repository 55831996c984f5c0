import QuantityFormula.Text.Basic

/-!
Parentheses in a text: whether they balance, where the group that is open ends, and which commas
stand outside of all groups. The split at a closing parenthesis is the one whose inner part balances
(`splitClosing?_eq_some_iff`), and joining the pieces between commas gives the text back.
-/

set_option autoImplicit false

namespace QuantityFormula.Text

def isBalancedFrom : (depth : Nat) → Text → Bool
  | depth, [] => depth == 0
  | depth, '(' :: text => isBalancedFrom (depth + 1) text
  | 0, ')' :: _ => false
  | depth + 1, ')' :: text => isBalancedFrom depth text
  | depth, _ :: text => isBalancedFrom depth text

def isBalanced (text : Text) : Bool :=
  isBalancedFrom 0 text

/-- Splits a text at the parenthesis that closes the group around it, with `depth` groups open
inside that group. The parenthesis itself is left out. -/
def splitClosing? : (depth : Nat) → Text → Option (Text × Text)
  | _, [] => none
  | 0, ')' :: text => some ([], text)
  | depth, c :: text =>
    let inner := if c = '(' then depth + 1 else if c = ')' then depth - 1 else depth
    (splitClosing? inner text).map fun (inside, after) => (c :: inside, after)

/-- One character changes the depth, unless it closes a group that was never opened. -/
theorem isBalancedFrom_cons (depth : Nat) (c : Char) (text : Text)
    (opened : ¬(depth = 0 ∧ c = ')')) :
    isBalancedFrom depth (c :: text) =
      isBalancedFrom (if c = '(' then depth + 1 else if c = ')' then depth - 1
        else depth) text := by
  by_cases opening : c = '('
  · subst opening
    cases depth <;> rfl
  by_cases closing : c = ')'
  · subst closing
    cases depth with
    | zero => exact absurd ⟨rfl, rfl⟩ opened
    | succ depth => rfl
  · rw [if_neg opening, if_neg closing, isBalancedFrom]
    · exact opening
    · exact fun _ => closing
    · exact fun _ _ => closing

/-- The text up to the closing parenthesis is the one that balances, so
the split is the only one. -/
theorem splitClosing?_eq_some_iff {depth : Nat} {text inside after : Text} :
    splitClosing? depth text = some (inside, after) ↔
      text = inside ++ ')' :: after ∧ isBalancedFrom depth inside = true := by
  fun_induction splitClosing? depth text generalizing inside with
  | case1 => simp
  | case2 text =>
    cases inside with
    | nil => simp [isBalancedFrom]
    | cons c inside =>
      simp only [Option.some.injEq, Prod.mk.injEq, List.cons_append, List.cons.injEq]
      constructor
      · intro found
        cases found.1
      · rintro ⟨⟨rfl, -⟩, balanced⟩
        simp [isBalancedFrom] at balanced
  | case3 =>
    rename_i depth c text notClosing inner ih
    rw [Option.map_eq_some_iff]
    constructor
    · rintro ⟨⟨inside', after'⟩, found, same⟩
      cases same
      obtain ⟨rfl, balanced⟩ := ih.1 found
      refine ⟨rfl, ?_⟩
      rw [isBalancedFrom_cons]
      · exact balanced
      · rintro ⟨rfl, rfl⟩
        exact notClosing rfl rfl
    · rintro ⟨shape, balanced⟩
      cases inside with
      | nil =>
        obtain ⟨rfl, rfl⟩ := List.cons.inj shape
        have outermost : depth = 0 := by simpa [isBalancedFrom] using balanced
        exact absurd rfl (notClosing outermost)
      | cons first inside =>
        obtain ⟨rfl, rfl⟩ := List.cons.inj shape
        refine ⟨(inside, after), ih.2 ⟨rfl, ?_⟩, rfl⟩
        rw [isBalancedFrom_cons] at balanced
        · exact balanced
        · rintro ⟨rfl, rfl⟩
          exact notClosing rfl rfl

def parenWeight (c : Char) : Int :=
  if c = '(' then 1 else if c = ')' then -1 else 0

def consFirst (c : Char) : List Text → List Text
  | [] => [[c]]
  | text :: texts => (c :: text) :: texts

/-- Splits a text at the commas outside of all groups, with `depth` groups open before it. The depth
is an integer without bounds. A signed count of 32 bits agrees with it as long as fewer than `2 ^
31` parentheses are nested. -/
def splitCommasFrom : (depth : Int) → Text → List Text
  | _, [] => [[]]
  | depth, c :: text =>
    if c = ',' ∧ depth = 0 then
      [] :: splitCommasFrom depth text
    else
      consFirst c (splitCommasFrom (depth + parenWeight c) text)

def splitCommas (text : Text) : List Text :=
  splitCommasFrom 0 text

theorem splitCommasFrom_ne_nil (depth : Int) (text : Text) : splitCommasFrom depth text ≠ [] := by
  cases text with
  | nil => simp [splitCommasFrom]
  | cons c text =>
    rw [splitCommasFrom]
    split
    · simp
    · cases splitCommasFrom (depth + parenWeight c) text <;> simp [consFirst]

private theorem intercalate_consFirst (c : Char) (text : Text) (texts : List Text) :
    [','].intercalate (consFirst c (text :: texts)) = c :: [','].intercalate (text :: texts) := by
  cases texts <;> simp [consFirst, List.intercalate]

/-- Splitting loses nothing: joined by commas again, the pieces are the text. -/
theorem intercalate_splitCommasFrom (depth : Int) (text : Text) :
    [','].intercalate (splitCommasFrom depth text) = text := by
  induction text generalizing depth with
  | nil => simp [splitCommasFrom, List.intercalate]
  | cons c text ih =>
    rw [splitCommasFrom]
    split
    case isTrue outer =>
      obtain ⟨first, others, pieces⟩ :=
        List.exists_cons_of_ne_nil (splitCommasFrom_ne_nil depth text)
      have rest := ih depth
      rw [pieces] at rest ⊢
      rw [outer.1, ← rest]
      simp [List.intercalate]
    case isFalse =>
      obtain ⟨first, others, pieces⟩ :=
        List.exists_cons_of_ne_nil (splitCommasFrom_ne_nil (depth + parenWeight c) text)
      have rest := ih (depth + parenWeight c)
      rw [pieces] at rest ⊢
      rw [intercalate_consFirst, rest]

end QuantityFormula.Text
