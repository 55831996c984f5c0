import Mathlib.Data.List.Chain
import QuantityFormula.Function.Builtin

/-!
Parameters of calculations. A calculation is a function of named numbers: some are needed, the last
ones may be left out, or the last one takes all that are left. From the kinds of its parameters
follows how many arguments it takes, and with such a number each parameter finds its part of the
list. The calculations are the functions of their parameters behind a check of the count.
-/

set_option autoImplicit false

namespace QuantityFormula

/-- How a parameter takes its part of the arguments: a number it needs, one that may be left
out, or all that are left. -/
inductive ParameterKind where
  | required
  | optional
  | rest
  deriving DecidableEq, Repr

namespace ParameterKind

def Body : List ParameterKind → Type
  | [] => Except Fault Float
  | required :: kinds => Float → Body kinds
  | optional :: kinds => Option Float → Body kinds
  | rest :: kinds => List Float → Body kinds

/-- Behind a parameter that may be left out there are only such, and behind one that takes
the rest there is none. -/
def Precedes (previous kind : ParameterKind) : Prop :=
  previous ≠ rest ∧ (previous = optional → kind = optional)

instance (previous kind : ParameterKind) : Decidable (Precedes previous kind) :=
  inferInstanceAs (Decidable (_ ∧ _))

/-- Hands the arguments from a place on over to a function; none if one is read
past the end of the list. -/
def read : (kinds : List ParameterKind) → Body kinds → (place : Nat) → List Float →
    Option (Except Fault Float)
  | [], outcome, _, _ => some outcome
  | required :: kinds, body, place, values => do
    let value ← values[place]?
    read kinds (body value) (place + 1) values
  | optional :: kinds, body, place, values => read kinds (body values[place]?) (place + 1) values
  | rest :: kinds, body, place, values =>
    if place ≤ values.length then read kinds (body (values.drop place)) (place + 1) values else none

private theorem isSome_read_of_optional {kinds : List ParameterKind}
    (optionals : ∀ kind ∈ kinds, kind = optional)
    (body : Body kinds) (place : Nat) (values : List Float) :
    (read kinds body place values).isSome = true := by
  induction kinds generalizing place with
  | nil => rfl
  | cons kind kinds ih =>
      obtain rfl := optionals kind List.mem_cons_self
      exact ih (fun other member => optionals other (List.mem_cons_of_mem _ member)) _ _

private theorem forall_eq_optional {kinds : List ParameterKind}
    (ordered : (optional :: kinds).IsChain Precedes) :
    ∀ kind ∈ kinds, kind = optional := by
  induction kinds with
  | nil => exact nofun
  | cons second kinds ih =>
      obtain ⟨⟨_, same⟩, behind⟩ := List.isChain_cons_cons.mp ordered
      obtain rfl := same rfl
      intro kind member
      rcases List.mem_cons.mp member with rfl | later
      · rfl
      · exact ih behind kind later

/-- No parameter reads past the end of a list that has a number for each one that needs one. -/
theorem isSome_read {kinds : List ParameterKind} (ordered : kinds.IsChain Precedes)
    (body : Body kinds) {place : Nat}
    {values : List Float} (enough : place + kinds.count required ≤ values.length) :
    (read kinds body place values).isSome = true := by
  induction kinds generalizing place with
  | nil => rfl
  | cons kind kinds ih =>
      cases kind with
      | required =>
          rw [List.count_cons_self] at enough
          have within : place < values.length := by omega
          rw [read, List.getElem?_eq_getElem within]
          exact ih ordered.of_cons _ (by omega)
      | optional => exact isSome_read_of_optional (forall_eq_optional ordered) _ _ _
      | rest =>
          rw [read, if_pos (by omega)]
          cases kinds with
          | nil => rfl
          | cons second kinds => exact absurd rfl (List.isChain_cons_cons.mp ordered).1.1

end ParameterKind

open ParameterKind

namespace Arity

def extend (arity : Arity) : ParameterKind → Arity
  | .required => ⟨arity.least + 1, arity.most.map (· + 1)⟩
  | .optional => ⟨arity.least, arity.most.map (· + 1)⟩
  | .rest => ⟨arity.least, none⟩

/-- How many arguments parameters of these kinds take. One that takes the rest is
not content with nothing. -/
def ofKinds (kinds : List ParameterKind) : Arity :=
  let counted := kinds.foldl extend ⟨0, some 0⟩
  if counted.most = none ∧ counted.least = 0 then ⟨1, none⟩ else counted

private theorem least_foldl_extend (kinds : List ParameterKind) (arity : Arity) :
    (kinds.foldl extend arity).least = arity.least + kinds.count .required := by
  induction kinds generalizing arity with
  | nil => rfl
  | cons kind kinds ih =>
      rw [List.foldl_cons, ih]
      cases kind with
      | required =>
          rw [List.count_cons_self, extend]
          dsimp only
          omega
      | optional | rest => rw [List.count_cons_of_ne (by decide), extend]

theorem count_required_le (kinds : List ParameterKind) :
    kinds.count .required ≤ (ofKinds kinds).least := by
  have counted := least_foldl_extend kinds ⟨0, some 0⟩
  dsimp only at counted
  unfold ofKinds
  dsimp only
  split
  · rename_i lone
    omega
  · omega

theorem least_le_of_accepts {arity : Arity} {count : Nat} (accepted : arity.accepts count = true) :
    arity.least ≤ count := by
  rw [accepts, Bool.and_eq_true, decide_eq_true_eq] at accepted
  exact accepted.1

end Arity

namespace ParameterKind

def check (kinds : List ParameterKind) (body : Body kinds) (refusal : Fault) (values : List Float) :
    Option (Except Fault Float) :=
  if (Arity.ofKinds kinds).accepts values.length then read kinds body 0 values
    else some (.error refusal)

/-- Behind the check nothing is read past the end of the list. -/
theorem isSome_check {kinds : List ParameterKind}
    (ordered : kinds.IsChain Precedes) (body : Body kinds)
    (refusal : Fault) (values : List Float) : (check kinds body refusal values).isSome = true := by
  unfold check
  split
  · rename_i accepted
    apply isSome_read ordered
    have least := Arity.least_le_of_accepts accepted
    have needed := Arity.count_required_le kinds
    omega
  · rfl

end ParameterKind

namespace Calculation

def kinds : Calculation → List ParameterKind
  | round => [.required, .optional]
  | ceil | floor | abs | sqrt => [.required]
  | max | min => [.rest]
  | pow | trussCount | linearMeters => [.required, .required]
  | choose => [.required, .required, .required]
  | boardFeet | cubicMeters => [.required, .required, .required, .required]

def body : (c : Calculation) → Body c.kinds
  | round => fun (value : Float) (places : Option Float) => .ok (roundAt value (places.getD 0))
  | ceil => fun (value : Float) => .ok value.ceil
  | floor => fun (value : Float) => .ok value.floor
  | abs => fun (value : Float) => .ok value.abs
  | max => fun (values : List Float) => .ok (largest values)
  | min => fun (values : List Float) => .ok (smallest values)
  | sqrt => root
  | pow => fun (base exponent : Float) => .ok (base ^ exponent)
  | trussCount => trusses
  | linearMeters => fun (pieces length : Float) => .ok (pieces * length)
  | boardFeet =>
    fun (pieces width thickness length : Float) => .ok (pieces * width * thickness * length / 144)
  | cubicMeters => fun (pieces width thickness length : Float) =>
    .ok (pieces * (width / 1000) * (thickness / 1000) * (length / 1000))
  | choose => fun (condition whenTrue whenFalse : Float) => .ok (if condition != 0 then
    whenTrue else whenFalse)

theorem isChain_kinds (c : Calculation) : c.kinds.IsChain Precedes := by
  cases c <;> decide

theorem arity_eq_ofKinds (c : Calculation) : c.arity = .ofKinds c.kinds := by
  cases c <;> rfl

private theorem apply_of_check {c : Calculation} {values : List Float}
    {outcome : Except Fault Float}
    (checked : check c.kinds c.body (.argumentCount c.name c.arity values.length) values =
      some outcome) :
    c.apply values = outcome := by
  apply Option.some.inj
  rw [← checked]
  cases c with
  | ceil | floor | abs | sqrt =>
      match values with
      | [] | [_] | _ :: _ :: _ => rfl
  | max | min =>
      match values with
      | [] | _ :: _ => rfl
  | round | pow | trussCount | linearMeters =>
      match values with
      | [] | [_] | [_, _] | _ :: _ :: _ :: _ => rfl
  | choose =>
      match values with
      | [] | [_] | [_, _] | [_, _, _] | _ :: _ :: _ :: _ :: _ => rfl
  | boardFeet | cubicMeters =>
      match values with
      | [] | [_] | [_, _] | [_, _, _] | [_, _, _, _] | _ :: _ :: _ :: _ :: _ :: _ => rfl

/-- A calculation on a list is the function of its parameters behind the check of the count. -/
theorem check_kinds (c : Calculation) (values : List Float) :
    check c.kinds c.body (.argumentCount c.name c.arity values.length) values =
      some (c.apply values) := by
  -- The order of the parameters alone says that none reads past the end; the
  -- outcome is found shape by shape.
  obtain ⟨outcome, checked⟩ := Option.isSome_iff_exists.mp
    (isSome_check c.isChain_kinds c.body (.argumentCount c.name c.arity values.length) values)
  rw [checked, apply_of_check checked]

theorem apply_of_not_accepts {c : Calculation} {values : List Float}
    (refused : c.arity.accepts values.length = false) :
    c.apply values = .error (.argumentCount c.name c.arity values.length) := by
  apply apply_of_check
  rw [check, ← arity_eq_ofKinds, refused, if_neg Bool.false_ne_true]

/-- On a number of arguments that it takes a calculation fails for its own reasons alone. -/
theorem apply_of_accepts {c : Calculation} {values : List Float}
    (accepted : c.arity.accepts values.length = true) :
    (∃ x, c.apply values = .ok x) ∨ c.apply values = .error .divisionByZero ∨
      c = sqrt ∧ ∃ value, value < 0 ∧ c.apply values = .error (.negativeRoot value) := by
  cases c with
  | sqrt =>
      match values with
      | [value] =>
          rw [apply, root]
          split
          · rename_i negative
            exact .inr (.inr ⟨rfl, value, negative, rfl⟩)
          · exact .inl ⟨_, rfl⟩
  | trussCount =>
      match values with
      | [span, spacing] =>
          rw [apply, trusses]
          split
          · exact .inr (.inl rfl)
          · exact .inl ⟨_, rfl⟩
  | ceil | floor | abs =>
      match values with
      | [_] => exact .inl ⟨_, rfl⟩
  | max | min =>
      match values with
      | _ :: _ => exact .inl ⟨_, rfl⟩
  | round =>
      match values with
      | [_] | [_, _] => exact .inl ⟨_, rfl⟩
  | pow | linearMeters =>
      match values with
      | [_, _] => exact .inl ⟨_, rfl⟩
  | choose =>
      match values with
      | [_, _, _] => exact .inl ⟨_, rfl⟩
  | boardFeet | cubicMeters =>
      match values with
      | [_, _, _, _] => exact .inl ⟨_, rfl⟩

end Calculation

end QuantityFormula
