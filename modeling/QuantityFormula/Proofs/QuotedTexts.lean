import QuantityFormula.Engine
import QuantityFormula.Proofs.ConstantPlaces
import QuantityFormula.Proofs.LexicalGrammar
import QuantityFormula.Proofs.Shallow
import QuantityFormula.Proofs.Templates
import QuantityFormula.Proofs.TwinResolution

/-!
Texts given to names. Such a text stands in quotes, and no quote is part of arithmetic. A
text is inert if, with its constants replaced, it holds no head, balances, and has no comma
outside of parentheses. Formulas with inert texts in the same places are twins, so none of
them is told from another one.
-/

set_option autoImplicit false

namespace QuantityFormula

open Text

def Text.quoted (content : Text) : Text :=
  '"' :: (content ++ ['"'])

/-! ### Quotes in arithmetic -/

theorem Arithmetic.quote_not_mem_of_evaluate {text : Text} {value : Float}
    (evaluated : evaluate text = .ok value) :
    '"' ∉ text := by
  obtain ⟨tokens, scanned, _⟩ := exists_of_bind_eq_ok evaluated
  intro member
  have legal := (Token.exists_ofText_iff.mp ⟨tokens, scanned⟩).1 _ member
  revert legal
  decide

/-! ### Inert texts -/

/-- A text that stays by itself in quotes, with its constants replaced. -/
def Text.IsInert (text : Text) : Prop :=
  IsItem (substituteConstants text) ∧ Head.all false (substituteConstants text) = []

theorem Head.all_quoted (afterWord : Bool) (content behind : Text) :
    all afterWord (quoted content ++ behind) =
      (all false content).map (fun head => keepAll ['"'] (head.extend ('"' :: behind))) ++
        (all false behind).map (keepAll (quoted content)) := by
  have notStart : ∀ c ∈ ['"'], isNameStart c = false := by simp [isNameStart]
  have closing : all (continuesWord false content) ('"' :: behind) =
      (all false behind).map (keepAll ['"']) :=
    all_append_of_notStart notStart _ behind
  have opening : all afterWord ('"' :: (content ++ '"' :: behind)) =
      (all false (content ++ '"' :: behind)).map (keepAll ['"']) :=
    all_append_of_notStart notStart _ _
  have shape : quoted content ++ behind = '"' :: (content ++ '"' :: behind) := by simp [quoted]
  rw [shape, opening, all_append (closes_cons rfl rfl (by decide) behind), closing,
    List.map_append, List.map_map, List.map_map, List.map_map, keepAll_comp_keepAll,
    keepAll_comp_keepAll]
  rfl

theorem Text.IsItem.quoted {content : Text} (item : IsItem content) :
    IsItem (Text.quoted content) :=
  .char (by decide) (item.append (.char (by decide) .nil))

def quoteSeams (content content' : Text) : Seams where
  State := Bool
  start := false
  afterWord := id
  Named _ := True
  Admits _ _ := True
  behind _ c := isWordChar c
  Block _ piece piece' next := piece = quoted content ∧ piece' = quoted content' ∧ next = false

namespace quoteSeams

variable {content content' : Text} {state final : (quoteSeams content content').State}
  {left right : Text}

private theorem move (twin : Twin (quoteSeams content content') state left right final)
    (other : Bool) :
    ∃ final, Twin (quoteSeams content content') other left right final := by
  cases twin with
  | nil => exact ⟨other, @Twin.nil (quoteSeams content content') other⟩
  | char admitted rest =>
      exact ⟨final, @Twin.char (quoteSeams content content') _ _ _ _ _ trivial rest⟩
  | block block rest =>
      exact ⟨final, @Twin.block (quoteSeams content content') _ _ _ _ _ _ _ block rest⟩

theorem same (state : Bool) (text : Text) :
    Twin (quoteSeams content content') state text text (Head.continuesWord state text) := by
  induction text generalizing state with
  | nil => exact @Twin.nil (quoteSeams content content') state
  | cons c text ih =>
      exact @Twin.char (quoteSeams content content') _ _ _ _ _ trivial (ih (isWordChar c))

theorem lawful (item : IsItem content) (item' : IsItem content')
    (calm : Head.all false content = [])
    (calm' : Head.all false content' = []) : (quoteSeams content content').Lawful where
  separator := by
    rintro state c (rfl | rfl) <;> rfl
  blank c blank := (isBlankChar_separates blank).1
  closing _ := rfl
  afterWord_start := rfl
  afterWord_behind _ _ := rfl
  named_of_name _ _ _ _ := trivial
  named_of_blank _ _ _ _ := trivial
  standsOff := by
    rintro state piece piece' next ⟨rfl, rfl, rfl⟩ _
    exact ⟨⟨'"', rfl, rfl, rfl, by decide⟩, ⟨'"', rfl, rfl, rfl, by decide⟩⟩
  isItem := by
    rintro state piece piece' next ⟨rfl, rfl, rfl⟩
    exact ⟨item.quoted, item'.quoted⟩
  isFirm := by
    have firm (text : Text) : IsFirm (quoted text) :=
      ⟨⟨'"', rfl, rfl⟩, ⟨'"', List.getLast?_concat (l := '"' :: text), rfl⟩⟩
    rintro state piece piece' next ⟨rfl, rfl, rfl⟩
    exact ⟨firm content, firm content'⟩
  heads := by
    rintro state piece piece' next left right final ⟨rfl, rfl, rfl⟩ _
    rw [Head.all_quoted, Head.all_quoted, calm, calm']
    exact ⟨rfl, rfl⟩

private theorem eq_or_mem (twin : Twin (quoteSeams content content') state left right final) :
    left = right ∨ '"' ∈ left ∧ '"' ∈ right := by
  induction twin with
  | nil => exact .inl rfl
  | char admitted rest ih =>
      exact ih.imp (congrArg _) fun inside =>
        ⟨List.mem_cons_of_mem _ inside.1, List.mem_cons_of_mem _ inside.2⟩
  | block block rest ih =>
      obtain ⟨rfl, rfl, _⟩ := block
      exact .inr ⟨List.mem_append_left _ List.mem_cons_self,
        List.mem_append_left _ List.mem_cons_self⟩

theorem faithful (item : IsItem content) (item' : IsItem content')
    (calm : Head.all false content = [])
    (calm' : Head.all false content' = []) :
    (quoteSeams content content').Faithful inlineNumber inlineNumber where
  toLawful := lawful item item' calm calm'
  number := by
    intro state x left right final _ _ behind
    obtain ⟨final, moved⟩ := move behind (Head.continuesWord state (inlineNumber x))
    exact ⟨final, (same state (inlineNumber x)).append moved⟩
  arithmetic := by
    rintro left right ⟨final, twin⟩
    rcases eq_or_mem twin with rfl | ⟨inside, inside'⟩
    · exact .of_forall fun _ _ => rfl
    · have fails {text : Text} (member : '"' ∈ text) :
          ∃ fault, Arithmetic.evaluate text = .error fault ∧
            ∀ limit, fault ≠ .tooComplex limit := by
        have unlimited := Arithmetic.unlimited_evaluate text
        cases evaluated : Arithmetic.evaluate text with
        | ok value => exact absurd member (Arithmetic.quote_not_mem_of_evaluate evaluated)
        | error fault =>
            exact ⟨fault, rfl, fun limit same => unlimited limit (by rw [evaluated, same])⟩
      obtain ⟨fault, failed, unlimited⟩ := fails inside
      obtain ⟨fault', failed', unlimited'⟩ := fails inside'
      rw [failed, failed']
      exact .fault unlimited unlimited'

end quoteSeams

/-! ### Substitution -/

def textPlaces (formula : Text) (bindings : Bindings) (name : Text) : Except Fault (Cuts Unit) :=
  Cuts.ofName false formula bindings name

theorem substituteVariables_bind_text (formula : Text) (bindings : Bindings) (name content : Text) :
    substituteVariables formula (bindings.bind name (.text content)) =
      Cuts.fill (fun _ => quoted content) <$> textPlaces formula bindings name :=
  substituteVariables_bind rfl formula bindings name

/-- Constants are replaced in a template and in what it is filled with. -/
theorem substituteConstants_fill (template : Cuts Unit) :
    ∃ filled : Cuts Unit, ∀ content, substituteConstants (template.fill fun _ => quoted content) =
      filled.fill fun _ => quoted (substituteConstants content) := by
  obtain ⟨places, rest⟩ := template
  induction places with
  | nil =>
      refine ⟨.plain (substituteConstants rest), fun content => ?_⟩
      rw [show (⟨[], rest⟩ : Cuts Unit) = .plain rest from rfl, Cuts.fill_plain, Cuts.fill_plain]
  | cons place places ih =>
      obtain ⟨filled, same⟩ := ih
      refine ⟨⟨(substituteConstants place.1, ()) :: filled.places, filled.rest⟩, fun content => ?_⟩
      have shape (before content behind : Text) :
          before ++ (quoted content ++ behind) = before ++ '"' :: (content ++ '"' :: behind) := by
        simp [quoted]
      have apart : isWordChar '"' = false := rfl
      rw [Cuts.fill_cons, Cuts.fill_cons, shape, shape, substituteConstants_append_cons apart,
        substituteConstants_append_cons apart, same]

private theorem quoteSeams.twins_fill (content content' : Text) (template : Cuts Unit) :
    Twins (quoteSeams content content') (template.fill fun _ => quoted content)
      (template.fill fun _ => quoted content') := by
  obtain ⟨places, rest⟩ := template
  have twin (state : Bool) : ∃ final, Twin (quoteSeams content content') state
      (Cuts.fill (fun _ => quoted content) ⟨places, rest⟩)
          (Cuts.fill (fun _ => quoted content') ⟨places, rest⟩) final := by
    induction places generalizing state with
    | nil => exact ⟨_, same state rest⟩
    | cons place places ih =>
        obtain ⟨final, behind⟩ := ih false
        rw [Cuts.fill_cons, Cuts.fill_cons]
        exact ⟨final, (same state place.1).append (.block ⟨rfl, rfl, rfl⟩ behind)⟩
  exact twin false

/-- Inert texts of a name are not told apart. -/
theorem Engine.evaluate_bind_text {content content' : Text} (inert : content.IsInert)
    (inert' : content'.IsInert)
    (engine : Engine) (formula : Text) (bindings : Bindings) (name : Text) :
    (engine.evaluate formula (bindings.bind name (.text content))).toOption =
      (engine.evaluate formula (bindings.bind name (.text content'))).toOption := by
  unfold evaluate
  split
  · rfl
  · rw [substituteVariables_bind_text, substituteVariables_bind_text]
    cases textPlaces formula bindings name with
    | error fault => rfl
    | ok template =>
        obtain ⟨filled, same⟩ := substituteConstants_fill template
        have twins := quoteSeams.twins_fill (substituteConstants content)
          (substituteConstants content') filled
        have agree := twins.runFresh_evaluateBy
          (quoteSeams.faithful inert.1 inert'.1 inert.2 inert'.2) engine.maxPasses
        rw [Resolver.evaluateBy_inlineNumber, Resolver.evaluateBy_inlineNumber,
          ← same, ← same] at agree
        exact agree

end QuantityFormula
