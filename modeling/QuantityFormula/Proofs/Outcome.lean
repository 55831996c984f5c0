import Mathlib
import QuantityFormula.Arithmetic.Expression

/-!
Outcomes in sequence. A sequence succeeds only if each of its parts does, the last
check of a value included.
-/

set_option autoImplicit false

namespace QuantityFormula

variable {α β : Type}

theorem exists_of_bind_eq_ok {first : Except Fault α} {following : α → Except Fault β} {result : β}
    (succeeds : first >>= following = .ok result) :
    ∃ value, first = .ok value ∧ following value = .ok result := by
  cases first with
  | error fault => cases succeeds
  | ok value => exact ⟨value, rfl, succeeds⟩

theorem cases_of_bind_eq_error {first : Except Fault α}
    {following : α → Except Fault β} {fault : Fault} (fails : first >>= following = .error fault) :
    first = .error fault ∨ ∃ value, first = .ok value ∧ following value = .error fault := by
  cases first with
  | error other =>
      cases fails
      exact .inl rfl
  | ok value => exact .inr ⟨value, rfl, fails⟩

theorem exists_of_map_eq_ok {first : Except Fault α} {following : α → β} {result : β}
    (succeeds : following <$> first = .ok result) :
    ∃ value, first = .ok value ∧ following value = result := by
  cases first with
  | error fault => cases succeeds
  | ok value => exact ⟨value, rfl, Except.ok.inj succeeds⟩

theorem eq_ok_of_toOption_eq_some {outcome : Except Fault α} {value : α}
    (found : outcome.toOption = some value) :
    outcome = .ok value := by
  cases outcome with
  | error fault => cases found
  | ok other => exact congrArg Except.ok (Option.some.inj found)

theorem Arithmetic.eq_of_requireFinite {value result : Float}
    (finite : requireFinite value = .ok result) :
    result = value ∧ value.isFinite = true := by
  unfold requireFinite at finite
  split at finite
  · rename_i isFinite
    cases finite
    exact ⟨rfl, isFinite⟩
  · cases finite

end QuantityFormula
