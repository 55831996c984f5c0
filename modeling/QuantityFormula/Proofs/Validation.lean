import QuantityFormula.Engine
import QuantityFormula.Proofs.ReplacementBalance

/-!
Formulas that are valid and formulas that have a value. The check of a formula asks for everything
that its evaluation needs, and for the balance of the formula as it is written. So the two can
differ only where a text given to a name brings the parenthesis that the formula lacks.
-/

set_option autoImplicit false

namespace QuantityFormula

/-! ### References -/

theorem exists_of_mapM_eq_ok {α β : Type} {items : List α}
    {step : α → Except Fault β} {results : List β} (succeeds : items.mapM step = .ok results) :
    ∀ item ∈ items, ∃ result, step item = .ok result := by
  induction items generalizing results with
  | nil => exact nofun
  | cons item items ih =>
      rw [List.mapM_cons] at succeeds
      obtain ⟨result, first, succeeds⟩ := exists_of_bind_eq_ok succeeds
      obtain ⟨others, rest, _⟩ := exists_of_bind_eq_ok succeeds
      intro other member
      rcases List.mem_cons.mp member with rfl | later
      · exact ⟨result, first⟩
      · exact ih rest other later

private theorem contains_of_substituteVariables {formula result : Text} {bindings : Bindings}
    (substituted : substituteVariables formula bindings = .ok result) :
    ∀ name ∈ referencedNames formula, bindings.contains name = true := by
  obtain ⟨parts, replaced, _⟩ := exists_of_bind_eq_ok substituted
  intro name member
  rw [referencedNames, List.mem_eraseDups] at member
  obtain ⟨⟨before, other⟩, place, rfl⟩ := List.mem_map.mp member
  obtain ⟨part, single⟩ := exists_of_mapM_eq_ok replaced (before, other) place
  change substituteReference bindings before other = .ok part at single
  unfold substituteReference at single
  split at single
  · cases single
  · rename_i value bound
    rw [Bindings.contains, bound]
    rfl

namespace Engine

/-! ### Evaluation -/

/-- What an evaluation with a value has gone through. -/
theorem exists_of_evaluate_eq_ok {engine : Engine} {formula : Text}
    {bindings : Bindings} {value : Float}
    (evaluated : engine.evaluate formula bindings = .ok value) :
    Text.isBlank formula = false ∧ ∃ text, substituteVariables formula bindings = .ok text ∧
      Resolver.runFresh engine.maxPasses (Resolver.evaluate (substituteConstants text)) =
        .ok value := by
  unfold evaluate at evaluated
  cases blank : Text.isBlank formula with
  | true =>
      rw [blank] at evaluated
      cases evaluated
  | false =>
      rw [blank] at evaluated
      obtain ⟨text, substituted, resolved⟩ := exists_of_bind_eq_ok evaluated
      exact ⟨rfl, text, substituted, resolved⟩

theorem isBalanced_of_evaluate {engine : Engine} {formula : Text}
    {bindings : Bindings} {value : Float} (evaluated : engine.evaluate formula bindings = .ok value)
    (balanced : bindings.AreBalanced formula) :
    Text.isBalanced formula = true := by
  obtain ⟨_, text, substituted, resolved⟩ := exists_of_evaluate_eq_ok evaluated
  have same := (sameBalance_substituteVariables substituted balanced).trans
    (sameBalance_substituteConstants text)
  rw [same.isBalanced_eq]
  exact Resolver.isBalanced_of_run resolved

private theorem validate_of_evaluate {engine : Engine} {formula : Text}
    {bindings : Bindings} {value : Float} (evaluated : engine.evaluate formula bindings = .ok value)
    (balanced : Text.isBalanced formula = true) :
    engine.validate formula bindings = .ok () := by
  obtain ⟨written, text, substituted, _⟩ := exists_of_evaluate_eq_ok evaluated
  have missing : ((referencedNames formula).filter fun name => !bindings.contains name) = [] := by
    rw [List.filter_eq_nil_iff]
    intro name member
    rw [contains_of_substituteVariables substituted name member]
    exact Bool.false_ne_true
  unfold validate
  rw [written, balanced, missing, evaluated]
  rfl

private theorem evaluate_of_validate {engine : Engine} {formula : Text} {bindings : Bindings}
    (valid : engine.validate formula bindings = .ok ()) :
    Text.isBalanced formula = true ∧ ∃ value, engine.evaluate formula bindings = .ok value := by
  unfold validate at valid
  cases blank : Text.isBlank formula with
  | true =>
      rw [blank] at valid
      cases valid
  | false =>
      cases balanced : Text.isBalanced formula with
      | false =>
          rw [blank, balanced] at valid
          cases valid
      | true =>
          rw [blank, balanced] at valid
          refine ⟨rfl, ?_⟩
          cases missing : (referencedNames formula).filter fun name => !bindings.contains name with
          | cons name others =>
              rw [missing] at valid
              cases valid
          | nil =>
              rw [missing] at valid
              obtain ⟨value, evaluated, _⟩ := exists_of_bind_eq_ok valid
              exact ⟨value, evaluated⟩

private theorem isOk_iff {α : Type} {outcome : Except Fault α} :
    outcome.isOk = true ↔ ∃ value, outcome = .ok value := by
  cases outcome with
  | error fault => exact ⟨nofun, nofun⟩
  | ok value => exact ⟨fun _ => ⟨value, rfl⟩, fun _ => rfl⟩

/-- A formula is valid exactly if it has a value and balances as it is written. It balances if it
has a value and the texts given to its names balance. -/
theorem validate_isOk_iff (engine : Engine) (formula : Text) (bindings : Bindings) :
    ((engine.validate formula bindings).isOk = true ↔
      (engine.evaluate formula bindings).isOk = true ∧ Text.isBalanced formula = true) ∧
    (bindings.AreBalanced formula →
      ((engine.validate formula bindings).isOk = true ↔
        (engine.evaluate formula bindings).isOk = true)) := by
  have checked : (engine.validate formula bindings).isOk = true ↔
      (engine.evaluate formula bindings).isOk = true ∧ Text.isBalanced formula = true := by
    rw [isOk_iff, isOk_iff]
    constructor
    · rintro ⟨⟨⟩, valid⟩
      obtain ⟨balanced, evaluated⟩ := evaluate_of_validate valid
      exact ⟨evaluated, balanced⟩
    · rintro ⟨⟨value, evaluated⟩, balanced⟩
      exact ⟨(), validate_of_evaluate evaluated balanced⟩
  refine ⟨checked, ?_⟩
  intro balanced
  rw [checked]
  refine ⟨And.left, ?_⟩
  intro evaluated
  obtain ⟨value, valued⟩ := isOk_iff.mp evaluated
  exact ⟨evaluated, isBalanced_of_evaluate valued balanced⟩

def guardedText : Text × Bindings :=
  ("IFERROR({n}, 5)".toList, Bindings.empty.bind ['n'] (.text "(a)".toList))

theorem validate_isOk_iff_guardedText :
    guardedText.2.AreBalanced guardedText.1 ∧
      (standard.validate guardedText.1 guardedText.2).isOk = true := by
  have balanced : guardedText.2.AreBalanced guardedText.1 := by
    intro name _ content bound
    change (match name == ['n'] with
      | true => some (.text "(a)".toList)
      | false => none) = some (Value.text content) at bound
    split at bound
    · cases bound
      decide +kernel
    · cases bound
  refine ⟨balanced, ?_⟩
  rw [(validate_isOk_iff standard guardedText.1 guardedText.2).2 balanced]
  decide +kernel

def closedByText : Text × Bindings :=
  ("IFERROR(IFERROR({n}, 5)".toList, Bindings.empty.bind ['n'] (.text "1,2)".toList))

theorem not_forall_validate_isOk_iff :
    ¬∀ (engine : Engine) (formula : Text) (bindings : Bindings),
      (engine.validate formula bindings).isOk = true ↔
        (engine.evaluate formula bindings).isOk = true := by
  intro agree
  have evaluated : (standard.evaluate closedByText.1 closedByText.2).isOk = true := by
    decide +kernel
  have valid := (agree standard closedByText.1 closedByText.2).mpr evaluated
  obtain ⟨⟨⟩, checked⟩ := isOk_iff.mp valid
  have balanced : Text.isBalanced closedByText.1 = false := by decide +kernel
  rw [(evaluate_of_validate checked).1] at balanced
  cases balanced

end Engine

end QuantityFormula
