import QuantityFormula.Substitution

/-!
Formulas as templates. A template is a text with labelled places in it, and filling the places gives
a text. Substitution fills a template that does not depend on how values are written.
-/

set_option autoImplicit false

namespace QuantityFormula

open Text

variable {α β : Type}

deriving instance DecidableEq for Cuts

namespace Text.Cuts

def plain (text : Text) : Cuts α :=
  ⟨[], text⟩

def place (label : α) : Cuts α :=
  ⟨[([], label)], []⟩

def behind (text : Text) : Cuts α → Cuts α
  | ⟨[], rest⟩ => ⟨[], text ++ rest⟩
  | ⟨(before, label) :: places, rest⟩ => ⟨(text ++ before, label) :: places, rest⟩

def append (left right : Cuts α) : Cuts α :=
  ⟨left.places ++ (right.behind left.rest).places, (right.behind left.rest).rest⟩

def join (templates : List (Cuts α)) : Cuts α :=
  templates.foldr append (plain [])

variable (replacement : α → Text)

theorem fill_plain (text : Text) : (plain text : Cuts α).fill replacement = text :=
  rfl

theorem fill_cons (before : Text) (label : α) (places : List (Text × α)) (rest : Text) :
    fill replacement ⟨(before, label) :: places, rest⟩ =
      before ++ (replacement label ++ fill replacement ⟨places, rest⟩) := by
  simp [fill]

theorem fill_place (label : α) : (place label).fill replacement = replacement label :=
  (List.append_nil _).trans (List.append_nil _)

private theorem fill_behind (text : Text) (template : Cuts α) :
    (template.behind text).fill replacement = text ++ template.fill replacement := by
  rcases template with ⟨_ | ⟨⟨before, label⟩, places⟩, rest⟩
  · rfl
  · exact (fill_cons replacement (text ++ before) label places rest).trans
      ((List.append_assoc text before _).trans
        (congrArg (text ++ ·) (fill_cons replacement before label places rest).symm))

theorem fill_append (left right : Cuts α) :
    (left.append right).fill replacement = left.fill replacement ++ right.fill replacement := by
  have rest := fill_behind replacement left.rest right
  rw [fill] at rest ⊢
  rw [append, List.flatMap_append, List.append_assoc, rest, ← List.append_assoc]
  rfl

private theorem fill_join (templates : List (Cuts α)) :
    (join templates).fill replacement = (templates.map (fill replacement)).flatten := by
  induction templates with
  | nil => rfl
  | cons first templates ih =>
      change (first.append (join templates)).fill replacement = _
      rw [fill_append, ih, List.map_cons, List.flatten_cons]

end Text.Cuts

/-! ### Templates of a formula -/

def Text.Cuts.ofWords (word : Text → Except Fault (Cuts α)) (text : Text) :
    Except Fault (Cuts α) := do
  let words := text.cutsBy bareWordRule
  let parts ← words.places.mapM fun (before, name) =>
    return (Cuts.plain before).append (← word name)
  return (Cuts.join parts).append (.plain words.rest)

def Text.Cuts.ofReference (word : Text → Except Fault (Cuts α))
    (reference : Text → Option (Except Fault (Cuts α)))
    (before name : Text) : Except Fault (Cuts α) := do
  match reference name with
  | none => throw (.undefinedVariables [name])
  | some template => return (← Cuts.ofWords word before).append (← template)

def Text.Cuts.ofFormula (word : Text → Except Fault (Cuts α))
    (reference : Text → Option (Except Fault (Cuts α)))
    (formula : Text) : Except Fault (Cuts α) := do
  let cuts := references formula
  let parts ← cuts.places.mapM fun (before, name) => Cuts.ofReference word reference before name
  return (Cuts.join parts).append (← Cuts.ofWords word cuts.rest)

private theorem mapM_fill {render : β → Except Fault Text} {template : β → Except Fault (Cuts α)}
    {replacement : α → Text}
    (each : ∀ item, render item = Cuts.fill replacement <$> template item) (items : List β) :
    items.mapM render = List.map (Cuts.fill replacement) <$> items.mapM template := by
  induction items with
  | nil => rfl
  | cons item items ih =>
      rw [List.mapM_cons, List.mapM_cons, each, ih]
      cases template item with
      | error fault => rfl
      | ok first => cases items.mapM template <;> rfl

variable {bindings : Bindings} {word : Text → Except Fault (Cuts α)}
  {reference : Text → Option (Except Fault (Cuts α))} {replacement : α → Text}

private theorem substituteWords_eq_fill
    (words : ∀ name, inlineWord bindings name = Cuts.fill replacement <$> word name)
    (text : Text) :
    substituteWords bindings text = Cuts.fill replacement <$> Cuts.ofWords word text := by
  have each : ∀ place : Text × Text,
      (return place.1 ++ (← inlineWord bindings place.2) : Except Fault Text) =
      Cuts.fill replacement <$>
        (return (Cuts.plain place.1).append (← word place.2) : Except Fault (Cuts α)) := by
    intro place
    rw [words]
    cases word place.2 with
    | error fault => rfl
    | ok template =>
        exact congrArg Except.ok (Cuts.fill_append replacement (.plain place.1) template).symm
  unfold substituteWords Cuts.ofWords
  dsimp only
  rw [mapM_fill each]
  cases (text.cutsBy bareWordRule).places.mapM fun place : Text × Text =>
      (return (Cuts.plain place.1).append (← word place.2) : Except Fault (Cuts α)) with
  | error fault => rfl
  | ok templates =>
      refine congrArg Except.ok ?_
      rw [Cuts.fill_append, Cuts.fill_join, Cuts.fill_plain]

theorem substituteVariables_eq_fill
    (words : ∀ name, inlineWord bindings name = Cuts.fill replacement <$> word name)
    (values : ∀ name, Value.inline <$> bindings.get? name =
      (Cuts.fill replacement <$> ·) <$> reference name)
    (formula : Text) :
    substituteVariables formula bindings = Cuts.fill replacement <$>
      Cuts.ofFormula word reference formula := by
  have each : ∀ place : Text × Text, substituteReference bindings place.1 place.2 =
      Cuts.fill replacement <$> Cuts.ofReference word reference place.1 place.2 := by
    intro place
    have value := values place.2
    unfold substituteReference Cuts.ofReference
    rw [substituteWords_eq_fill words]
    cases bound : bindings.get? place.2 with
    | none =>
        rw [bound] at value
        rw [Option.map_eq_map, Option.map_none, eq_comm, Option.map_eq_map,
          Option.map_eq_none_iff] at value
        rw [value]
        rfl
    | some content =>
        rw [bound, Option.map_eq_map, Option.map_some, eq_comm, Option.map_eq_map,
          Option.map_eq_some_iff] at value
        obtain ⟨template, found, same⟩ := value
        rw [found]
        dsimp only
        rw [← same]
        cases Cuts.ofWords word place.1 with
        | error fault => rfl
        | ok before =>
            cases template with
            | error fault => rfl
            | ok template =>
                exact congrArg Except.ok (Cuts.fill_append replacement before template).symm
  unfold substituteVariables Cuts.ofFormula
  dsimp only
  rw [mapM_fill each, substituteWords_eq_fill words]
  cases (references formula).places.mapM fun place : Text × Text =>
    Cuts.ofReference word reference place.1 place.2 with
  | error fault => rfl
  | ok templates =>
      cases Cuts.ofWords word (references formula).rest with
      | error fault => rfl
      | ok rest =>
          refine congrArg Except.ok ?_
          rw [Cuts.fill_append, Cuts.fill_join]

/-! ### Templates for a name -/

/-- The template of a formula with a place wherever the value of one name goes: at all references to
it and, if the value is a number, at the bare words that are the name. -/
def Text.Cuts.ofName (numeric : Bool) (formula : Text) (bindings : Bindings) (name : Text) :
    Except Fault (Cuts Unit) :=
  Cuts.ofFormula
    (fun word =>
      if word == name then .ok (bif numeric then .place () else .plain word)
        else Cuts.plain <$> inlineWord bindings word)
    (fun referenced =>
      if referenced == name then some (.ok (.place ()))
        else (bindings.get? referenced).map (Cuts.plain <$> Value.inline ·))
    formula

private theorem Bindings.get?_bind (bindings : Bindings) (name : Text)
    (value : Value) (other : Text) :
    (bindings.bind name value).get? other = if other == name then some value
      else bindings.get? other := by
  unfold bind get?
  rw [List.lookup_cons]
  cases other == name <;> rfl

/-- A name is given a value by filling a template in which there is nothing of that value. -/
theorem substituteVariables_bind {value : Value} {inlined : Text}
    (written : value.inline = .ok inlined) (formula : Text) (bindings : Bindings) (name : Text) :
    substituteVariables formula (bindings.bind name value) =
      Cuts.fill (fun _ => inlined) <$> Cuts.ofName value.number?.isSome formula bindings name := by
  have kept (outcome : Except Fault Text) :
      Cuts.fill (fun _ => inlined) <$> (Cuts.plain <$> outcome : Except Fault (Cuts Unit)) =
        outcome := by
    cases outcome <;> rfl
  have placed : Except.ok inlined = Cuts.fill (fun _ => inlined) <$>
      (.ok (.place ()) : Except Fault (Cuts Unit)) :=
    congrArg Except.ok (Cuts.fill_place (fun _ => inlined) ()).symm
  apply substituteVariables_eq_fill
  · intro word
    unfold inlineWord Bindings.number?
    rw [bindings.get?_bind]
    cases word == name with
    | true =>
        cases value with
        | number x => exact written.trans placed
        | text content => rfl
    | false => exact (kept _).symm
  · intro referenced
    rw [bindings.get?_bind]
    cases referenced == name with
    | true => exact congrArg some (written.trans placed)
    | false =>
        cases bindings.get? referenced with
        | none => rfl
        | some value => exact congrArg some (kept _).symm

end QuantityFormula
