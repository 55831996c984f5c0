import QuantityFormula.Proofs.QuotedTexts

/-!
One replacement for all names. What stands for a name is put between pieces that are settled
before it is known, so whatever is in it is not read again: no reference, no bare word and no end
of a word comes from a value.
-/

set_option autoImplicit false

namespace QuantityFormula

open Text

/-! ### Pieces around places -/

def Text.Cuts.pieces {α : Type} (cuts : Cuts α) : List Text :=
  cuts.places.map Prod.fst ++ [cuts.rest]

private theorem Text.Cuts.fill_eq_intercalate {α : Type} (inlined : Text) (cuts : Cuts α) :
    cuts.fill (fun _ => inlined) = inlined.intercalate cuts.pieces := by
  obtain ⟨places, rest⟩ := cuts
  induction places with
  | nil => exact List.intercalate_singleton.symm
  | cons place places ih =>
      have others : (⟨places, rest⟩ : Cuts α).pieces ≠ [] := by simp [pieces]
      have shape : (⟨place :: places, rest⟩ : Cuts α).pieces =
        place.1 :: (⟨places, rest⟩ : Cuts α).pieces := rfl
      rw [fill_cons, ih, shape, List.intercalate_cons_of_ne_nil others, List.append_assoc]

/-- Values of one kind are put between the same pieces, or the substitution fails alike for all of
them. -/
theorem cases_substituteVariables_bind (numeric : Bool) (formula : Text)
    (bindings : Bindings) (name : Text) :
    (∃ fault, ∀ value inlined, value.number?.isSome = numeric → value.inline = .ok inlined →
      substituteVariables formula (bindings.bind name value) = .error fault) ∨
    ∃ pieces : List Text, ∀ value inlined, value.number?.isSome = numeric →
      value.inline = .ok inlined →
      substituteVariables formula (bindings.bind name value) =
        .ok (inlined.intercalate pieces) := by
  cases template : Cuts.ofName numeric formula bindings name with
  | error fault =>
      refine .inl ⟨fault, ?_⟩
      rintro value inlined rfl written
      rw [substituteVariables_bind written, template]
      rfl
  | ok cuts =>
      refine .inr ⟨cuts.pieces, ?_⟩
      rintro value inlined rfl written
      rw [substituteVariables_bind written, template, ← Cuts.fill_eq_intercalate]
      rfl

/-! ### Main result -/

/-- A number given to a name, and a text given to it, is put as it is written between
pieces that are the same for all finite numbers, and for all texts, unless the formula
fails alike for all of them. -/
theorem substituteVariables_simultaneous (formula : Text) (bindings : Bindings) (name : Text) :
    ((∃ fault, ∀ x : Float, x.isFinite = true →
        substituteVariables formula (bindings.bind name (.number x)) = .error fault) ∨
      ∃ pieces : List Text, ∀ x : Float, x.isFinite = true →
        substituteVariables formula (bindings.bind name (.number x)) =
          .ok ((inlineNumber x).intercalate pieces)) ∧
    ((∃ fault, ∀ content,
        substituteVariables formula (bindings.bind name (.text content)) = .error fault) ∨
      ∃ pieces : List Text, ∀ content,
        substituteVariables formula (bindings.bind name (.text content)) =
          .ok ((quoted content).intercalate pieces)) := by
  constructor
  · have written {x : Float} (finite : x.isFinite = true) :
        Value.inline (.number x) = .ok (inlineNumber x) :=
      if_pos finite
    rcases cases_substituteVariables_bind true formula bindings name with
        ⟨fault, fails⟩ | ⟨pieces, joined⟩
    · exact .inl ⟨fault, fun x finite => fails (.number x) _ rfl (written finite)⟩
    · exact .inr ⟨pieces, fun x finite => joined (.number x) _ rfl (written finite)⟩
  · rcases cases_substituteVariables_bind false formula bindings name with
        ⟨fault, fails⟩ | ⟨pieces, joined⟩
    · exact .inl ⟨fault, fun content => fails (.text content) _ rfl rfl⟩
    · exact .inr ⟨pieces, fun content => joined (.text content) _ rfl rfl⟩

def mixedNames : Text × Bindings :=
  ("{n}m*n.m-n{n}n".toList, Bindings.empty.bind ['m'] (.number 3))

theorem substituteVariables_simultaneous_mixedNames :
    ∃ pieces : List Text,
      substituteVariables mixedNames.1 (mixedNames.2.bind ['n'] (.number 2)) =
          .ok ((inlineNumber 2).intercalate pieces) ∧
        substituteVariables mixedNames.1 (mixedNames.2.bind ['n'] (.number (-0.5))) =
          .ok ((inlineNumber (-0.5)).intercalate pieces) := by
  rcases (substituteVariables_simultaneous mixedNames.1 mixedNames.2 ['n']).1 with
      ⟨fault, fails⟩ | ⟨pieces, joined⟩
  · have failed := fails 2 (by decide +kernel)
    have succeeds : (substituteVariables mixedNames.1 (mixedNames.2.bind ['n'] (.number 2))).isOk =
        true := by
      decide +kernel
    rw [failed] at succeeds
    cases succeeds
  · exact ⟨pieces, joined 2 (by decide +kernel), joined (-0.5) (by decide +kernel)⟩

end QuantityFormula
