import QuantityFormula.Engine
import QuantityFormula.Proofs.GroupedNumbers
import QuantityFormula.Proofs.Templates

/-!
Numbers that a formula writes into its text. The values of names and the constants are written
first, and then the values of calls. Where operands stand apart a formula has the same value whether
it writes numbers alone or in parentheses.
-/

set_option autoImplicit false

namespace QuantityFormula

open Text

/-! ### Constants -/

namespace numberSeams

variable {state final : numberSeams.State} {left right : Text}

private theorem replaceBy_of_head? (name : FunctionName) (replacement : Text) {text : Text}
    (notStart : ∀ c ∈ text.head?, Head.isNameStart c = false) (afterWord : Bool) :
    name.replaceBy replacement afterWord text = name.replaceBy replacement false text := by
  cases text with
  | nil => rfl
  | cons c text =>
      have elsewhere (afterWord : Bool) :=
        name.not_stands_of_not_isNameStart (notStart c rfl) afterWord text
      rw [name.replaceBy_cons _ (elsewhere afterWord), name.replaceBy_cons _ (elsewhere false)]

private theorem ended_of_joined {last : Char} (notDigit : Token.isNumberChar last = false)
    (atName : state = Edge.joined last)
    (ends : startsWithWord left = false) (twin : Twin numberSeams state left right final) :
    ∃ final, Twin numberSeams Edge.ended left right final := by
  cases twin with
  | nil => exact ⟨_, @Twin.nil numberSeams Edge.ended⟩
  | @char _ _ c left right admitted rest =>
      rw [atName] at admitted rest
      have unnamed : Head.isNameChar c = false := Head.isNameChar_eq_false ends
      have other : isOperandChar c = false := by
        change Edge.admits (.joined last) c = true at admitted
        rw [Edge.admits, unnamed, notDigit, Bool.and_false, Bool.false_and, Bool.or_false,
          Bool.or_false] at admitted
        exact (Bool.not_eq_true' _).mp admitted
      have same : Edge.behind .ended c = Edge.behind (.joined last) c := by
        unfold Edge.behind
        rw [other]
      have admittedEnd : numberSeams.Admits Edge.ended c := by
        change Edge.admits .ended c = true
        rw [Edge.admits, other]
        rfl
      change Twin numberSeams (Edge.behind (.joined last) c) left right final at rest
      rw [← same] at rest
      exact ⟨final, .char admittedEnd rest⟩
  | block block rest =>
      rw [atName] at block
      cases block.1

private theorem exists_foldl_behind (name : FunctionName) (edge : Edge) :
    ∃ last ∈ name.text.getLast?, name.text.foldl Edge.behind edge = .joined last := by
  have nonempty : name.text ≠ [] := List.cons_ne_nil _ _
  have shape := List.dropLast_append_getLast nonempty
  refine ⟨name.text.getLast nonempty, List.getLast?_eq_getLast_of_ne_nil nonempty, ?_⟩
  refine (congrArg (List.foldl Edge.behind edge) shape.symm).trans ?_
  rw [List.foldl_append, List.foldl_cons, List.foldl_nil]
  exact behind_of_isOperandChar _
    (isOperandChar_of_isNameChar (name.forall_mem_text _ (List.getLast_mem nonempty)))

theorem replaceBy (name : FunctionName)
    (notDigit : name.text.getLast?.any Token.isNumberChar = false) {x : Float}
    (finite : x.isFinite = true) (twins : Twins numberSeams left right) :
    Twins numberSeams (name.replaceBy (inlineNumber x) false left)
      (name.replaceBy (groupedNumber x) false right) := by
  obtain ⟨final, twin⟩ := twins
  refine twin.replaceBy lawful name ?_ ?_
  · intro state left right final opens ends _ behind
    obtain ⟨last, lastMember, atName⟩ := exists_foldl_behind name state
    rw [Option.mem_def.mp lastMember] at notDigit
    obtain ⟨final, ended⟩ := ended_of_joined notDigit atName ends behind
    exact ⟨final, .block ⟨isFree_of_opens opens, rfl, x, finite, rfl, rfl⟩ ended⟩
  · rintro state piece piece' next left right final ⟨free, atEnd, y, finiteY, rfl, rfl⟩ rest
    obtain ⟨other, other'⟩ := isOperandChar_head? atEnd rest
    refine ⟨_, _, ⟨free, atEnd, y, finiteY, rfl, rfl⟩, ?_, ?_⟩
    · rw [name.replaceBy_append_of_notStart _ (IsNumberText.inlineNumber finiteY).notStart,
        replaceBy_of_head? _ _ (isNameStart_head? other), atEnd]
      rfl
    · rw [name.replaceBy_append_of_notStart _ (IsNumberText.groupedNumber finiteY).notStart,
        replaceBy_of_head? _ _ (isNameStart_head? other'), atEnd]
      rfl

theorem substituteEachBy {constants : List Constant}
    (named : ∀ constant ∈ constants, ∃ name : FunctionName,
      name.text = constant.name.toList ∧ name.text.getLast?.any Token.isNumberChar = false ∧
        constant.value.isFinite = true)
    (twins : Twins numberSeams left right) :
    Twins numberSeams (Constant.substituteEachBy inlineNumber constants left)
      (Constant.substituteEachBy groupedNumber constants right) := by
  induction constants generalizing left right with
  | nil => exact twins
  | cons constant constants ih =>
      obtain ⟨name, spelled, notDigit, finite⟩ := named constant List.mem_cons_self
      rw [Constant.substituteEachBy_cons _ _ _ spelled,
        Constant.substituteEachBy_cons _ _ _ spelled]
      exact ih (fun other member => named other (List.mem_cons_of_mem _ member))
        (replaceBy name notDigit finite twins)

end numberSeams

def substituteConstantsBy (write : Float → Text) (text : Text) : Text :=
  Constant.substituteEachBy write Constant.all text

private theorem substituteConstantsBy_inlineNumber :
    substituteConstantsBy inlineNumber = substituteConstants := by
  have positive : ∀ constant ∈ Constant.all, ¬constant.value < 0 ∧
      (constant.value == 0) = false := by
    decide +kernel
  have written : ∀ constant ∈ Constant.all,
      inlineNumber constant.value = Decimal.write constant.value := by
    intro constant listed
    obtain ⟨notBelow, nonzero⟩ := positive constant listed
    rw [inlineNumber, if_neg notBelow, nonzero, if_neg Bool.false_ne_true]
  funext text
  unfold substituteConstantsBy substituteConstants
  rw [← Constant.substituteEachBy_write]
  exact Constant.substituteEachBy_congr written text

private theorem Twins.substituteConstantsBy {left right : Text}
    (twins : Twins numberSeams left right) :
    Twins numberSeams (substituteConstantsBy inlineNumber left)
      (substituteConstantsBy groupedNumber right) := by
  have letters : ∀ constant ∈ Constant.all,
      constant.name.toList.getLast?.any Token.isNumberChar = false ∧
      constant.value.isFinite = true := by
    decide +kernel
  unfold QuantityFormula.substituteConstantsBy
  refine numberSeams.substituteEachBy (fun constant listed => ?_) twins
  obtain ⟨name, spelled⟩ := Constant.exists_functionName constant listed
  obtain ⟨notDigit, finite⟩ := letters constant listed
  exact ⟨name, spelled, by rw [spelled]; exact notDigit, finite⟩

/-! ### Values of names -/

abbrev FiniteNumber := { x : Float // x.isFinite = true }

def numberPlace (x : Float) : Except Fault (Cuts FiniteNumber) :=
  if finite : x.isFinite = true then .ok (.place ⟨x, finite⟩) else .error .invalidResult

def valuePlace : Value → Except Fault (Cuts FiniteNumber)
  | .number x => numberPlace x
  | .text content => .ok (.plain ('"' :: content ++ ['"']))

/-- The template of a formula whose places are the numbers that stand for names. -/
def numberPlaces (formula : Text) (bindings : Bindings) : Except Fault (Cuts FiniteNumber) :=
  Cuts.ofFormula
    (fun word => match bindings.number? word with
      | some x => numberPlace x
      | none => .ok (.plain word))
    (fun name => valuePlace <$> bindings.get? name)
    formula

private theorem inlineFinite_eq_fill (x : Float) :
    inlineFinite x = Cuts.fill (fun number : FiniteNumber => inlineNumber number.1) <$>
      numberPlace x := by
  unfold inlineFinite numberPlace
  split
  · exact congrArg Except.ok (Cuts.fill_place _ _).symm
  · rfl

/-- Substitution writes the numbers into the template of a formula. -/
theorem substituteVariables_eq_fill_numberPlaces (formula : Text) (bindings : Bindings) :
    substituteVariables formula bindings =
      Cuts.fill (fun number : FiniteNumber => inlineNumber number.1) <$>
        numberPlaces formula bindings := by
  apply substituteVariables_eq_fill
  · intro word
    unfold inlineWord
    cases bindings.number? word with
    | none => rfl
    | some x => exact inlineFinite_eq_fill x
  · intro name
    cases bindings.get? name with
    | none => rfl
    | some value =>
        cases value with
        | number x => exact congrArg some (inlineFinite_eq_fill x)
        | text content => rfl

/-! ### Evaluation -/

/-- The value of a formula whose numbers are written by `write`, those of names, of
constants and of calls. -/
def Engine.evaluateBy (write : Float → Text) (engine : Engine) (formula : Text)
    (bindings : Bindings) :
    Except Fault Float := do
  if Text.isBlank formula then
    throw (.malformed .blank)
  let template ← numberPlaces formula bindings
  let text := substituteConstantsBy write (template.fill fun number => write number.1)
  Resolver.runFresh engine.maxPasses (Resolver.evaluateBy write text)

theorem Engine.evaluateBy_inlineNumber : Engine.evaluateBy inlineNumber = Engine.evaluate := by
  funext engine formula bindings
  unfold evaluateBy evaluate
  rw [substituteVariables_eq_fill_numberPlaces, substituteConstantsBy_inlineNumber]
  split
  · rfl
  · cases numberPlaces formula bindings with
    | error fault => rfl
    | ok template =>
        change Resolver.runFresh _ (Resolver.evaluateBy inlineNumber _) = _
        rw [Resolver.evaluateBy_inlineNumber]
        rfl

/-! ### Operands that stand apart -/

namespace Edge

def read : Edge → Text → Option Edge
  | edge, [] => some edge
  | edge, c :: text => if edge.admits c = true then (edge.behind c).read text else none

def standsApart : Edge → List (Text × FiniteNumber) → Text → Bool
  | edge, [], rest => (edge.read rest).isSome
  | edge, (before, _) :: places, rest =>
    (edge.read before).any Edge.isFree && standsApart .ended places rest

end Edge

/-- Whether the operands of a formula stand apart: what is written for a name is one by
itself, and so are the calls. -/
def Engine.operandsStandApart (formula : Text) (bindings : Bindings) : Bool :=
  match numberPlaces formula bindings with
  | .ok template => Edge.standsApart (.free false) template.places template.rest
  | .error _ => true

namespace numberSeams

private theorem twin_of_read {edge next : Edge} {text : Text}
    (readTo : edge.read text = some next) :
    Twin numberSeams edge text text next := by
  induction text generalizing edge with
  | nil =>
      cases readTo
      exact @Twin.nil numberSeams _
  | cons c text ih =>
      rw [Edge.read] at readTo
      split at readTo
      · rename_i admitted
        exact @Twin.char numberSeams _ _ _ _ _ admitted (ih readTo)
      · cases readTo

private theorem twin_fill {edge : Edge} {places : List (Text × FiniteNumber)} {rest : Text}
    (apart : edge.standsApart places rest = true) :
    ∃ final, Twin numberSeams edge (Cuts.fill (fun number => inlineNumber number.1) ⟨places, rest⟩)
      (Cuts.fill (fun number => groupedNumber number.1) ⟨places, rest⟩) final := by
  induction places generalizing edge with
  | nil =>
      obtain ⟨final, readTo⟩ := Option.isSome_iff_exists.mp apart
      exact ⟨final, twin_of_read readTo⟩
  | cons place places ih =>
      obtain ⟨before, number⟩ := place
      rw [Edge.standsApart, Bool.and_eq_true, Option.any_eq_true] at apart
      obtain ⟨⟨next, readTo, free⟩, behind⟩ := apart
      obtain ⟨final, twin⟩ := ih behind
      rw [Cuts.fill_cons, Cuts.fill_cons]
      exact ⟨final, (twin_of_read readTo).append
        (.block ⟨free, rfl, number.1, number.2, rfl, rfl⟩ twin)⟩

end numberSeams

namespace Engine

/-- Where operands stand apart, every number is one operand: a formula has the value it has with all
of them in parentheses. -/
theorem evaluate_toOption_eq_grouped (engine : Engine) {formula : Text} {bindings : Bindings}
    (apart : operandsStandApart formula bindings = true) :
    (engine.evaluate formula bindings).toOption =
      (engine.evaluateBy groupedNumber formula bindings).toOption := by
  rw [← evaluateBy_inlineNumber]
  unfold evaluateBy
  -- Where both fail, `change` keeps the two ways to write numbers from being compared.
  split
  · change (none : Option Float) = none
    rfl
  · unfold operandsStandApart at apart
    cases found : numberPlaces formula bindings with
    | error fault =>
        change (none : Option Float) = none
        rfl
    | ok template =>
        rw [found] at apart
        obtain ⟨places, rest⟩ := template
        have twins : Twins numberSeams
            (Cuts.fill (fun number => inlineNumber number.1) ⟨places, rest⟩)
            (Cuts.fill (fun number => groupedNumber number.1) ⟨places, rest⟩) :=
          numberSeams.twin_fill apart
        exact twins.substituteConstantsBy.runFresh_evaluateBy numberSeams.faithful engine.maxPasses

def amountFormula : Text × Bindings :=
  ("ABS({a})*{b} + 2".toList, (Bindings.empty.bind ['a'] (.number (-3))).bind ['b'] (.number 4))

theorem evaluate_toOption_eq_grouped_amount :
    operandsStandApart amountFormula.1 amountFormula.2 = true ∧
      (standard.evaluateBy groupedNumber amountFormula.1 amountFormula.2).toOption = some 14 := by
  have apart : operandsStandApart amountFormula.1 amountFormula.2 = true := by decide +kernel
  refine ⟨apart, ?_⟩
  rw [← evaluate_toOption_eq_grouped standard apart]
  decide +kernel

def joinedNames : Text × Bindings :=
  ("{a}{b}".toList, (Bindings.empty.bind ['a'] (.number 1)).bind ['b'] (.number 2))

theorem not_forall_evaluate_toOption_eq_grouped :
    ¬∀ (engine : Engine) (formula : Text) (bindings : Bindings),
      (∀ name value, bindings.get? name = some value →
        ∃ x : Float, value = .number x ∧ x.isFinite = true) →
      (engine.evaluate formula bindings).toOption =
        (engine.evaluateBy groupedNumber formula bindings).toOption := by
  intro grouped
  have numbers : ∀ name value, joinedNames.2.get? name = some value →
      ∃ x : Float, value = .number x ∧ x.isFinite = true := by
    intro name value bound
    change (match name == ['b'] with
      | true => some (.number 2)
      | false => match name == ['a'] with
        | true => some (.number 1)
        | false => none) = some value at bound
    split at bound
    · cases bound
      exact ⟨2, rfl, by decide +kernel⟩
    split at bound
    · cases bound
      exact ⟨1, rfl, by decide +kernel⟩
    · cases bound
  have merged : standard.evaluate joinedNames.1 joinedNames.2 = .ok 12 := by decide +kernel
  have apart : standard.evaluateBy groupedNumber joinedNames.1 joinedNames.2 =
      .error (.malformed (.leftoverValues 2)) := by
    decide +kernel
  have same := grouped standard joinedNames.1 joinedNames.2 numbers
  rw [merged, apart] at same
  cases same

end Engine

end QuantityFormula
