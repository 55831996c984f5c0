import QuantityFormula.Proofs.Grammar

/-!
Texts of lexemes. A text of two lists is a text of the one followed by a text of the other, and
blanks at the ends of a text do not matter. In a tree no two words and no two operators stand side
by side, so every text of a tree can be taken apart again.
-/

set_option autoImplicit false

namespace QuantityFormula

/-! ### Blanks -/

namespace Text

def blankCodes : List Nat :=
  [9, 10, 11, 12, 13, 0x20, 0x85, 0xA0, 0x1680, 0x2000, 0x2001, 0x2002, 0x2003, 0x2004,
    0x2005, 0x2006, 0x2007, 0x2008, 0x2009, 0x200A, 0x2028, 0x2029, 0x202F, 0x205F, 0x3000]

theorem of_isBlankChar (property : Char → Prop)
    (checked : ∀ code ∈ blankCodes, property (Char.ofNat code))
    {c : Char} (blank : isBlankChar c = true) : property c := by
  have listed : c.toNat ∈ blankCodes := by
    simp only [isBlankChar, Bool.or_eq_true, Bool.and_eq_true, decide_eq_true_eq,
      beq_iff_eq] at blank
    simp only [blankCodes, List.mem_cons, List.not_mem_nil, or_false]
    omega
  have holds := checked c.toNat listed
  rw [Char.ofNat_toNat] at holds
  exact holds

/-- A blank is no part of any word, name, number or sign. -/
theorem isBlankChar_separates {c : Char} (blank : isBlankChar c = true) :
    isWordChar c = false ∧ Head.isNameChar c = false ∧ Head.isNameStart c = false ∧
      Token.isNumberChar c = false ∧ c ∉ ['+', '-', '*', '/', '%', '^', '(', ')', ','] :=
  of_isBlankChar
    (fun c => isWordChar c = false ∧ Head.isNameChar c = false ∧ Head.isNameStart c = false ∧
      Token.isNumberChar c = false ∧ c ∉ ['+', '-', '*', '/', '%', '^', '(', ')', ','])
    (by decide +kernel) blank

theorem forall_eq_false_of_any {belongs : Char → Bool} {text : Text}
    (none : text.any belongs = false) :
    ∀ c ∈ text, belongs c = false :=
  fun c member => Bool.eq_false_iff.mpr (List.any_eq_false.mp none c member)

theorem isBlank_nil : isBlank [] = true := rfl

def IsSolid (text : Text) : Prop :=
  text ≠ [] ∧ ∀ c ∈ text, isBlankChar c = false

end Text

theorem Numeral.text_isSolid (numeral : Numeral) : Text.IsSolid numeral.text := by
  refine ⟨numeral.text_ne_nil, ?_⟩
  intro c member
  rw [Bool.eq_false_iff]
  intro blank
  have separate := (Text.isBlankChar_separates blank).2.2.2.1
  rw [numeral.isNumeral.1 c member] at separate
  cases separate

theorem FunctionName.text_isSolid (name : FunctionName) : Text.IsSolid name.text := by
  refine ⟨List.cons_ne_nil _ _, ?_⟩
  intro c member
  rw [Bool.eq_false_iff]
  intro blank
  have separate := Text.isBlankChar_separates blank
  rcases List.mem_cons.mp member with rfl | later
  · rw [name.start] at separate
    cases separate.2.2.1
  · rw [name.following c later] at separate
    cases separate.2.1

variable {Leaf : Type} {leafText : Leaf → Text}

theorem Lexeme.IsSpelled.isSolid (solidLeaves : ∀ content, Text.IsSolid (leafText content))
    {lexeme : Lexeme Leaf} {spelling : Text} (spelled : lexeme.IsSpelled leafText spelling) :
    Text.IsSolid spelling := by
  cases lexeme with
  | leaf content =>
      cases spelled
      exact solidLeaves content
  | operator sign =>
      rcases spelled with rfl | ⟨_, rfl⟩
      · cases sign <;> exact ⟨List.cons_ne_nil _ _, Text.forall_eq_false_of_any rfl⟩
      · exact ⟨List.cons_ne_nil _ _, Text.forall_eq_false_of_any rfl⟩
  | name function =>
      cases spelled
      exact function.text_isSolid
  | leftParen | rightParen | comma =>
      cases spelled
      exact ⟨List.cons_ne_nil _ _, Text.forall_eq_false_of_any rfl⟩

/-! ### Taking texts apart and putting them together -/

namespace Written

theorem prepend_blank {lexemes : List (Lexeme Leaf)} {gap text : Text}
    (blank : Text.isBlank gap = true)
    (written : Written leafText lexemes text) : Written leafText lexemes (gap ++ text) := by
  have joined {inner : Text} (innerBlank : Text.isBlank inner = true) :
      Text.isBlank (gap ++ inner) = true := by
    rw [Text.isBlank, List.all_append, Bool.and_eq_true]
    exact ⟨blank, innerBlank⟩
  cases written with
  | nil innerBlank => exact .nil (joined innerBlank)
  | cons innerBlank spelled following =>
      rw [← List.append_assoc]
      exact .cons (joined innerBlank) spelled following

theorem append {left right : List (Lexeme Leaf)} {before after : Text}
    (leftWritten : Written leafText left before) (rightWritten : Written leafText right after) :
    Written leafText (left ++ right) (before ++ after) := by
  induction leftWritten with
  | nil blank => exact rightWritten.prepend_blank blank
  | cons blank spelled following ih =>
      rw [List.append_assoc, List.append_assoc]
      exact .cons blank spelled ih

theorem cons_spelled (spelling : Text) {lexeme : Lexeme Leaf}
    {lexemes : List (Lexeme Leaf)} {rest : Text}
    (spelled : lexeme.IsSpelled leafText spelling) (following : Written leafText lexemes rest) :
    Written leafText (lexeme :: lexemes) (spelling ++ rest) :=
  .cons Text.isBlank_nil spelled following

theorem of_spelled {lexeme : Lexeme Leaf} {spelling : Text}
    (spelled : lexeme.IsSpelled leafText spelling) :
    Written leafText [lexeme] spelling := by
  have written := cons_spelled spelling spelled (.nil Text.isBlank_nil)
  rwa [List.append_nil] at written

theorem split {left right : List (Lexeme Leaf)} {text : Text}
    (written : Written leafText (left ++ right) text) :
    ∃ before after, text = before ++ after ∧ Written leafText left before ∧
      Written leafText right after := by
  induction left generalizing text with
  | nil => exact ⟨[], text, rfl, .nil rfl, written⟩
  | cons lexeme left ih =>
      cases written with
      | cons blank spelled following =>
          obtain ⟨before, after, rfl, leftWritten, rightWritten⟩ := ih following
          exact ⟨_, after, by rw [List.append_assoc, List.append_assoc],
            .cons blank spelled leftWritten, rightWritten⟩

private theorem of_blank_cons (solidLeaves : ∀ content, Text.IsSolid (leafText content))
    {lexemes : List (Lexeme Leaf)} {c : Char} {text : Text} (blank : Text.isBlankChar c = true)
    (written : Written leafText lexemes (c :: text)) : Written leafText lexemes text := by
  generalize whole : c :: text = full at written
  cases written with
  | nil allBlank =>
      subst whole
      rw [Text.isBlank, List.all_cons, Bool.and_eq_true] at allBlank
      exact .nil allBlank.2
  | @cons gap spelling rest _ _ gapBlank spelled following =>
      cases gap with
      | nil =>
          obtain ⟨nonempty, solid⟩ := spelled.isSolid solidLeaves
          cases spelling with
          | nil => exact absurd rfl nonempty
          | cons first others =>
              obtain ⟨rfl, _⟩ := List.cons.inj whole
              rw [solid c List.mem_cons_self] at blank
              cases blank
      | cons first others =>
          obtain ⟨rfl, rfl⟩ := List.cons.inj whole
          rw [Text.isBlank, List.all_cons, Bool.and_eq_true] at gapBlank
          exact .cons gapBlank.2 spelled following

private theorem of_blank_concat (solidLeaves : ∀ content, Text.IsSolid (leafText content))
    {lexemes : List (Lexeme Leaf)} {c : Char} {text : Text} (blank : Text.isBlankChar c = true)
    (written : Written leafText lexemes (text ++ [c])) : Written leafText lexemes text := by
  generalize whole : text ++ [c] = full at written
  induction written generalizing text with
  | nil allBlank =>
      subst whole
      rw [Text.isBlank, List.all_append, Bool.and_eq_true] at allBlank
      exact .nil allBlank.1
  | @cons gap spelling rest _ _ gapBlank spelled following ih =>
      -- The last unit does not end with a blank, so there is text behind it.
      rcases List.eq_nil_or_concat rest with rfl | ⟨initial, last, restShape⟩
      · obtain ⟨nonempty, solid⟩ := spelled.isSolid solidLeaves
        rcases List.eq_nil_or_concat spelling with rfl | ⟨others, final, spellingShape⟩
        · exact absurd rfl nonempty
        · rw [List.concat_eq_append] at spellingShape
          rw [List.append_nil, spellingShape, ← List.append_assoc] at whole
          obtain ⟨_, sameLast⟩ := List.append_inj' whole rfl
          cases sameLast
          rw [solid c (by rw [spellingShape]; simp)] at blank
          cases blank
      · rw [List.concat_eq_append] at restShape
        rw [restShape, ← List.append_assoc, ← List.append_assoc] at whole
        obtain ⟨sameInitial, sameLast⟩ := List.append_inj' whole rfl
        cases sameLast
        rw [sameInitial, List.append_assoc]
        exact .cons gapBlank spelled (ih restShape.symm)

private theorem dropWhile_blank (solidLeaves : ∀ content, Text.IsSolid (leafText content))
    {lexemes : List (Lexeme Leaf)} {text : Text} (written : Written leafText lexemes text) :
    Written leafText lexemes (text.dropWhile Text.isBlankChar) := by
  induction text with
  | nil => exact written
  | cons c text ih =>
      rw [List.dropWhile_cons]
      split
      · rename_i blank
        exact ih (written.of_blank_cons solidLeaves blank)
      · exact written

theorem trim (solidLeaves : ∀ content, Text.IsSolid (leafText content))
    {lexemes : List (Lexeme Leaf)} {text : Text} (written : Written leafText lexemes text) :
    Written leafText lexemes (Text.trim text) := by
  have ending (backwards : Text) (reversed : Written leafText lexemes backwards.reverse) :
      Written leafText lexemes (backwards.dropWhile Text.isBlankChar).reverse := by
    induction backwards with
    | nil => exact reversed
    | cons c backwards ih =>
        rw [List.dropWhile_cons]
        split
        · rename_i blank
          rw [List.reverse_cons] at reversed
          exact ih (reversed.of_blank_concat solidLeaves blank)
        · exact reversed
  apply ending
  rw [List.reverse_reverse]
  exact written.dropWhile_blank solidLeaves

end Written

/-! ### What may stand where -/

/-- What the units before a place in a formula leave open: a minus or an operand, an operand, the
arguments of a name, or how to go on behind an operand. -/
inductive Place where
  | opening
  | operand
  | arguments
  | behind

namespace Place

def next? : Place → Lexeme Leaf → Option Place
  | .opening, .leaf _ | .operand, .leaf _ => some .behind
  | .opening, .operator .subtract | .behind, .operator _ => some .operand
  | .opening, .name _ | .operand, .name _ => some .arguments
  | .opening, .leftParen | .operand, .leftParen | .arguments, .leftParen => some .opening
  | .opening, .rightParen | .behind, .rightParen => some .behind
  | .behind, .comma => some .opening
  | _, _ => none

def walk (place : Place) (lexemes : List (Lexeme Leaf)) : Option Place :=
  lexemes.foldlM next? place

@[simp]
theorem walk_nil (place : Place) : place.walk ([] : List (Lexeme Leaf)) = some place := rfl

@[simp]
theorem walk_cons (place : Place) (lexeme : Lexeme Leaf) (lexemes : List (Lexeme Leaf)) :
    place.walk (lexeme :: lexemes) = (place.next? lexeme).bind fun next => next.walk lexemes := rfl

@[simp]
theorem walk_append (place : Place) (left right : List (Lexeme Leaf)) :
    place.walk (left ++ right) = (place.walk left).bind fun next => next.walk right := by
  exact List.foldlM_append

theorem exists_next_of_walk {place last : Place} {lexeme : Lexeme Leaf}
    {lexemes : List (Lexeme Leaf)} (arranged : place.walk (lexeme :: lexemes) = some last) :
    ∃ next, place.next? lexeme = some next ∧ next.walk lexemes = some last := by
  rw [walk_cons] at arranged
  exact Option.bind_eq_some_iff.mp arranged

def Admits : Place → Kind → Prop
  | .opening, _ => True
  | .operand, kind => kind ≠ .sum
  | _, _ => False

private theorem Admits.opening_or_operand {place : Place} {kind : Kind}
    (admits : place.Admits kind) :
    place = .opening ∨ place = .operand := by
  cases place with
  | opening => exact .inl rfl
  | operand => exact .inr rfl
  | arguments | behind => exact admits.elim

theorem Admits.inner {place : Place} {kind other : Kind} (admits : place.Admits kind)
    (inner : other ≠ .sum) :
    place.Admits other := by
  rcases admits.opening_or_operand with rfl | rfl
  · trivial
  · exact inner

end Place

private theorem walk_arguments {items : List (List (Lexeme Leaf))}
    (walks : ∀ item ∈ items, Place.opening.walk item = some .behind) :
    Place.opening.walk ([.comma].intercalate items ++ [.rightParen]) = some .behind := by
  induction items with
  | nil => rfl
  | cons item items ih =>
      have first := walks item List.mem_cons_self
      cases items with
      | nil => simp [List.intercalate, first, Place.next?]
      | cons second others =>
          have rest := ih fun item member => walks item (List.mem_cons_of_mem _ member)
          rw [List.intercalate_cons_cons]
          simpa [first, Place.next?] using rest

/-- In a tree every unit stands where it may. -/
theorem Phrase.walk_lexemes {kind : Kind} (phrase : Phrase Leaf kind) (place : Place)
    (admits : place.Admits kind) : place.walk phrase.lexemes = some .behind := by
  induction phrase generalizing place with
  | leaf content => rcases admits.opening_or_operand with rfl | rfl <;> simp [lexemes, Place.next?]
  | group inner ih =>
      have inside := ih .opening trivial
      rcases admits.opening_or_operand with rfl | rfl <;> simp [lexemes, Place.next?, inside]
  | call name arguments ih =>
      have inside : Place.opening.walk
          ([.comma].intercalate (arguments.map fun argument => argument.lexemes) ++ [.rightParen]) =
            some .behind := by
        apply walk_arguments
        intro item member
        obtain ⟨argument, argumentMember, rfl⟩ := List.mem_map.mp member
        exact ih argument argumentMember _ trivial
      rw [lexemes]
      rcases admits.opening_or_operand with rfl | rfl <;> simpa [Place.next?] using inside
  | base atom ih =>
      rw [lexemes]
      exact ih _ (admits.inner (by decide))
  | raise root exponent ihRoot ihExponent =>
      have below := ihRoot _ (admits.inner (by decide))
      have above := ihExponent .operand (show Kind.power ≠ .sum by decide)
      simp [lexemes, below, above, Place.next?]
  | factor power ih =>
      rw [lexemes]
      exact ih _ (admits.inner (by decide))
  | scale operator scales left right ihLeft ihRight =>
      have before := ihLeft _ admits
      have after := ihRight .operand (show Kind.power ≠ .sum by decide)
      simp [lexemes, before, after, Place.next?]
  | term product ih =>
      rw [lexemes]
      exact ih _ (admits.inner (by decide))
  | minus product ih =>
      have operand := ih .operand (show Kind.product ≠ .sum by decide)
      rcases admits.opening_or_operand with rfl | rfl
      · simp [lexemes, operand, Place.next?]
      · exact absurd rfl admits
  | add operator adds left right ihLeft ihRight =>
      have before := ihLeft _ admits
      have after := ihRight .operand (show Kind.product ≠ .sum by decide)
      simp [lexemes, before, after, Place.next?]

end QuantityFormula
