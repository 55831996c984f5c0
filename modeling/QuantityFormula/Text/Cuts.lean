import QuantityFormula.Text.Word

/-!
Cutting a text at the places that are to be replaced. A place is found by a rule that looks at the
text from one position on, and at whether a word character stands before it. The leftmost place wins
and the search goes on behind it, so the places never overlap and what is put in for them is never
searched. Putting every place's own text back gives the text itself (`fill_scan`).
-/

set_option autoImplicit false

namespace QuantityFormula.Text

variable {α : Type}

/-- A text cut at the places found in it: every place, with the text since the place before it, and
the text behind the last one. -/
structure Cuts (α : Type) where
  places : List (Text × α)
  rest : Text

/-- A rule that recognises a place at the start of a text: what it stands for, and how
many characters it takes beyond the first one. The flag says whether the character
before it belongs to a word. -/
abbrev PlaceRule (α : Type) := (afterWord : Bool) → Text → Option (α × Nat)

namespace Cuts

def keep (c : Char) : Cuts α → Cuts α
  | ⟨[], rest⟩ => ⟨[], c :: rest⟩
  | ⟨(before, found) :: places, rest⟩ => ⟨(c :: before, found) :: places, rest⟩

def found (place : α) (cuts : Cuts α) : Cuts α :=
  ⟨([], place) :: cuts.places, cuts.rest⟩

/-- Cuts from one position on, where `taken` characters still belong to the place found before. -/
def scan (rule : PlaceRule α) : (afterWord : Bool) → (taken : Nat) → Text → Cuts α
  | _, _, [] => ⟨[], []⟩
  | _, taken + 1, c :: text => scan rule (isWordChar c) taken text
  | afterWord, 0, c :: text =>
    match rule afterWord (c :: text) with
    | some (place, more) => (scan rule (isWordChar c) more text).found place
    | none => (scan rule (isWordChar c) 0 text).keep c

def fill (replacement : α → Text) (cuts : Cuts α) : Text :=
  cuts.places.flatMap (fun place => place.1 ++ replacement place.2) ++ cuts.rest

theorem fill_keep (replacement : α → Text) (c : Char) (cuts : Cuts α) :
    (cuts.keep c).fill replacement = c :: cuts.fill replacement := by
  rcases cuts with ⟨_ | ⟨⟨before, place⟩, places⟩, rest⟩ <;> rfl

theorem fill_found (replacement : α → Text) (place : α) (cuts : Cuts α) :
    (cuts.found place).fill replacement = replacement place ++ cuts.fill replacement := by
  simp [fill, found]

/-- Cutting loses nothing: with each place's own text put back, a text is what it was. -/
theorem fill_scan {rule : PlaceRule α} {label : α → Text}
    (labelled : ∀ afterWord text place more,
      rule afterWord text = some (place, more) → label place = text.take (more + 1))
    (afterWord : Bool) (taken : Nat) (text : Text) :
    (scan rule afterWord taken text).fill label = text.drop taken := by
  induction text generalizing afterWord taken with
  | nil => cases taken <;> rfl
  | cons c text ih =>
    cases taken with
    | succ taken => rw [scan, ih, List.drop_succ_cons]
    | zero =>
      rw [scan]
      split
      case h_1 place more found =>
        rw [fill_found, ih, labelled _ _ _ _ found, List.take_succ_cons, List.cons_append,
          List.take_append_drop, List.drop_zero]
      case h_2 => rw [fill_keep, ih, List.drop_zero, List.drop_zero]

end Cuts

def cutsBy (rule : PlaceRule α) (text : Text) : Cuts α :=
  Cuts.scan rule false 0 text

end QuantityFormula.Text
