import QuantityFormula.Engine
import QuantityFormula.Proofs.Inlining
import QuantityFormula.Proofs.Invocation

/-!
Formulas that are a single name. The number of the name is written into the formula and read back
out of it, through as many parentheses as stand around it and past all blanks. Nothing of it is
lost but the sign of a zero.
-/

set_option autoImplicit false

namespace QuantityFormula

open Text

/-- A text with any number of parentheses around it, and with blanks in them and around them. -/
inductive Text.Encloses (core : Text) : Text → Prop where
  | core : Encloses core core
  | blanks {before text after : Text} (beforeBlank : isBlank before = true)
      (afterBlank : isBlank after = true)
      (inner : Encloses core text) : Encloses core (before ++ (text ++ after))
  | group {text : Text} (inner : Encloses core text) : Encloses core ('(' :: (text ++ [')']))

namespace Text.Encloses

variable {core text : Text}

theorem isBlank_eq_false (encloses : Encloses core text) (solid : isBlank core = false) :
    isBlank text = false := by
  induction encloses with
  | core => exact solid
  | blanks beforeBlank afterBlank inner ih =>
      rw [isBlank_append, isBlank_append, ih, Bool.false_and, Bool.and_false]
  | group inner ih => rfl

private theorem forall_mem (encloses : Encloses core text) {property : Char → Prop}
    (inCore : ∀ c ∈ core, property c)
    (blanks : ∀ c, isBlankChar c = true → property c) (opening : property '(')
    (closing : property ')') :
    ∀ c ∈ text, property c := by
  induction encloses with
  | core => exact inCore
  | blanks beforeBlank afterBlank inner ih =>
      intro c member
      rcases List.mem_append.mp member with inFront | later
      · exact blanks c (List.all_eq_true.mp beforeBlank c inFront)
      rcases List.mem_append.mp later with inside | behind
      · exact ih c inside
      · exact blanks c (List.all_eq_true.mp afterBlank c behind)
  | group inner ih =>
      intro c member
      rcases List.mem_cons.mp member with rfl | later
      · exact opening
      rcases List.mem_append.mp later with inside | last
      · exact ih c inside
      · rw [List.mem_singleton.mp last]
        exact closing

/-- Parentheses and blanks separate words, so what they enclose is inlined by itself. -/
theorem exists_inlined {bindings : Bindings} {core' : Text} (encloses : Encloses core text)
    (inlined : inlineNames bindings core = .ok core') :
    ∃ text', Encloses core' text' ∧ inlineNames bindings text = .ok text' := by
  induction encloses with
  | core => exact ⟨core', .core, inlined⟩
  | @blanks before text after beforeBlank afterBlank inner ih =>
      obtain ⟨text', enclosed, alone⟩ := ih
      have afterSeparators := isSeparator_of_isBlank afterBlank
      have behind := inlineNames_separators afterSeparators (inlineNames_nil bindings)
      rw [List.append_nil] at behind
      have whole := inlineNames_append alone
        (fun c first => afterSeparators c (List.mem_of_mem_head? first)) behind
      exact ⟨_, .blanks beforeBlank afterBlank enclosed,
        inlineNames_separators (isSeparator_of_isBlank beforeBlank) whole⟩
  | @group text inner ih =>
      obtain ⟨text', enclosed, alone⟩ := ih
      have closing : inlineNames bindings [')'] = .ok [')'] := inlineNames_cons rfl []
      have whole := inlineNames_append alone (by simp; rfl) closing
      refine ⟨_, .group enclosed, ?_⟩
      rw [inlineNames_cons rfl, whole]
      rfl

/-- A number with parentheses and blanks around it is a text of an atom with the number as its
value. -/
theorem exists_atom {x : Float} (finite : x.isFinite = true)
    (encloses : Encloses (inlineNumber x) text) :
    ∃ atom : Phrase Numeral .atom, atom.callCount = 0 ∧ atom.value = .ok (unsignedZero x) ∧
      Written Numeral.text atom.lexemes text := by
  induction encloses with
  | core => exact ⟨literal x, callCount_literal x, value_literal finite, written_literal finite⟩
  | blanks beforeBlank afterBlank inner ih =>
      obtain ⟨atom, callFree, valued, written⟩ := ih
      have padded := written.append (.nil afterBlank)
      rw [List.append_nil] at padded
      exact ⟨atom, callFree, valued, padded.prepend_blank beforeBlank⟩
  | group inner ih =>
      obtain ⟨atom, callFree, valued, written⟩ := ih
      refine ⟨.group (.term (.factor (.base atom))), ?_, ?_, ?_⟩
      · simpa only [Phrase.callCount] using callFree
      · simpa only [Phrase.value] using valued
      · simp only [Phrase.lexemes]
        exact .cons_spelled ['('] rfl (written.append (.of_spelled rfl))

theorem evaluate_arithmetic {x : Float} (finite : x.isFinite = true)
    (encloses : Encloses (inlineNumber x) text) :
    Arithmetic.evaluate text = .ok (unsignedZero x) := by
  obtain ⟨atom, callFree, valued, written⟩ := encloses.exists_atom finite
  have whole : Formula.IsWritten (.term (.factor (.base atom))) text := by
    unfold Formula.IsWritten
    simpa only [Phrase.lexemes] using written
  rw [evaluate_written (by simpa only [Phrase.callCount] using callFree) whole, Phrase.result]
  simp only [Phrase.value]
  rw [valued]
  exact if_pos (isFinite_unsignedZero finite)

/-- There is no call in a number, whatever parentheses and blanks stand around it. -/
theorem next?_eq_none {x : Float} (finite : x.isFinite = true)
    (encloses : Encloses (inlineNumber x) text) :
    Call.next? text = .ok none := by
  have notStart : ∀ c ∈ text, Head.isNameStart c = false :=
    encloses.forall_mem (IsNumberText.inlineNumber finite).notStart
      (fun _ blank => (isBlankChar_separates blank).2.2.1)
      rfl rfl
  have nothing := Head.all_append_of_notStart notStart false []
  rw [List.append_nil] at nothing
  exact Call.next?_eq_none_iff.mpr nothing

end Text.Encloses

private theorem VariableName.isBlank_text (name : VariableName) : isBlank name.text = false := by
  have solid : isBlankChar name.first = false := by
    by_contra blank
    have separator := isSeparator_of_isBlankChar (Bool.eq_true_of_not_eq_false blank)
    exact Bool.eq_false_iff.mp (isSeparator_iff.mp separator).2.1
      (isNameChar_of_isNameStart name.start)
  rw [VariableName.text, isBlank, List.all_cons, solid, Bool.false_and]

private theorem Engine.evaluate_of_inlined (engine : Engine) {bindings : Bindings}
    {formula text : Text}
    (solid : isBlank formula = false) (inlined : inlineNames bindings formula = .ok text) :
    engine.evaluate formula bindings = Resolver.runFresh engine.maxPasses
      (Resolver.evaluate text) := by
  obtain ⟨substituted, replaced, rfl⟩ := exists_of_map_eq_ok inlined
  rw [evaluate, solid, replaced]
  rfl

/-- A number that is put into a formula is read back as it is, up to the sign of a zero. So a
formula that is a single name has the number of the name as its value, whatever parentheses and
blanks stand around the name, and takes no pass. -/
theorem Engine.evaluate_single_number {x : Float} (finite : x.isFinite = true) :
    inlineFinite x = .ok (inlineNumber x) ∧
      Arithmetic.evaluate (inlineNumber x) = .ok (unsignedZero x) ∧
      ∀ (name : VariableName) (bindings : Bindings), bindings.get? name.text = some (.number x) →
        ∀ formula, (Encloses (braced name.text) formula ∨
            name.CanStandBare ∧ Encloses name.text formula) →
          ∀ engine : Engine, engine.evaluate formula bindings = .ok (unsignedZero x) := by
  refine ⟨inlineFinite_of_isFinite finite, Encloses.core.evaluate_arithmetic finite, ?_⟩
  intro name bindings bound formula shape engine
  have numeric : bindings.number? name.text = some x := by
    rw [Bindings.number?, bound]
    rfl
  have inlined : ∃ text, Encloses (inlineNumber x) text ∧
      inlineNames bindings formula = .ok text := by
    rcases shape with braces | ⟨bare, word⟩
    · exact braces.exists_inlined (inlineNames_reference numeric finite)
    · exact word.exists_inlined (inlineNames_word bare numeric finite)
  have solid : isBlank formula = false := by
    rcases shape with braces | ⟨_, word⟩
    · exact braces.isBlank_eq_false rfl
    · exact word.isBlank_eq_false name.isBlank_text
  obtain ⟨text, encloses, inlined⟩ := inlined
  rw [engine.evaluate_of_inlined solid inlined, Resolver.runFresh,
    Resolver.run_evaluate_of_none (encloses.next?_eq_none finite),
    encloses.evaluate_arithmetic finite]

/-- A negative number under a dotted name in braces, and a zero with a sign under the
bare name of a constant. -/
theorem Engine.evaluate_single_number_signed :
    (-0.1 : Float).isFinite = true ∧ (-0 : Float).isFinite = true ∧
      (Engine.mk 0).evaluate " ( ({a.b}) )".toList (.bind .empty ['a', '.', 'b'] (.number (-0.1))) =
        .ok (-0.1) ∧
      (Engine.mk 0).evaluate "(E) ".toList (.bind .empty ['E'] (.number (-0))) = .ok 0 := by
  have finite : (-0.1 : Float).isFinite = true := by decide +kernel
  have zeroFinite : (-0 : Float).isFinite = true := by decide +kernel
  refine ⟨finite, zeroFinite, ?_, ?_⟩
  · have inner : Encloses ['{', 'a', '.', 'b', '}'] ['(', '{', 'a', '.', 'b', '}', ')'] :=
      .group .core
    have padded : Encloses ['{', 'a', '.', 'b', '}']
        [' ', '(', '{', 'a', '.', 'b', '}', ')', ' '] :=
      @Encloses.blanks _ [' '] _ [' '] rfl rfl inner
    have text : " ( ({a.b}) )".toList =
        [' ', '(', ' ', '(', '{', 'a', '.', 'b', '}', ')', ' ', ')'] := by
      decide +kernel
    have shape : Encloses ['{', 'a', '.', 'b', '}'] " ( ({a.b}) )".toList := by
      rw [text]
      exact @Encloses.blanks _ [' '] _ [] rfl rfl padded.group
    have valued := (Engine.evaluate_single_number finite).2.2
      ⟨'a', ['.', 'b'], rfl, List.all_eq_true.mp rfl⟩
      (.bind .empty ['a', '.', 'b'] (.number (-0.1))) (by decide +kernel) _ (.inl shape) ⟨0⟩
    rwa [show unsignedZero (-0.1) = -0.1 by decide +kernel] at valued
  · have text : "(E) ".toList = ['(', 'E', ')', ' '] := by decide +kernel
    have shape : Encloses ['E'] "(E) ".toList := by
      rw [text]
      exact @Encloses.blanks _ [] _ [' '] rfl rfl (.group .core)
    have valued := (Engine.evaluate_single_number zeroFinite).2.2 ⟨'E', [], rfl, nofun⟩
      (.bind .empty ['E'] (.number (-0))) (by decide +kernel) _ (.inr ⟨by decide, shape⟩) ⟨0⟩
    rwa [show unsignedZero (-0) = 0 by decide +kernel] at valued

end QuantityFormula
