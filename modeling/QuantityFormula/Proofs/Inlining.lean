import QuantityFormula.Proofs.ConstantPlaces
import QuantityFormula.Proofs.OperandEdges
import QuantityFormula.Proofs.ReplacementBalance

/-!
Formulas whose leaves are numerals, references, bare words and constants. In a text of such a tree
every leaf is replaced by its number and nothing else is touched. A leaf is followed by a separator
or by nothing, so it is replaced as it would be alone, and alone each kind of leaf is one place of
the rule that is to find it.
-/

set_option autoImplicit false

namespace QuantityFormula

open Text

/-! ### Leaves with names -/

inductive Operand where
  | numeral (numeral : Numeral)
  | reference (name : VariableName)
  | word (name : VariableName) (bare : name.CanStandBare)
  | constant (constant : Constant) (listed : constant ∈ Constant.all)

def Operand.text : Operand → Text
  | .numeral content => content.text
  | .reference name => braced name.text
  | .word name _ => name.text
  | .constant known _ => known.name.toList

def Bindings.inlined (bindings : Bindings) (name : Text) : Text :=
  (bindings.number? name).elim name inlineNumber

def Operand.inlined (bindings : Bindings) : Operand → Text
  | .numeral content => content.text
  | .reference name => bindings.inlined name.text
  | .word name _ => bindings.inlined name.text
  | .constant known _ => Decimal.write known.value

/-- Whether the name in a unit of a formula means what it should. The name in a leaf has a
finite number. The name of a constant or of a function has no number, and a function is
not named as a constant. -/
def Lexeme.IsMeant (bindings : Bindings) : Lexeme Operand → Prop
  | .leaf (.reference label) | .leaf (.word label _) =>
    ∃ x, bindings.number? label.text = some x ∧ x.isFinite = true
  | .leaf (.constant known _) => bindings.number? known.name.toList = none
  | .name function =>
    bindings.number? function.text = none ∧ ∀ known ∈ Constant.all,
      function.text ≠ known.name.toList
  | _ => True

/-! ### Texts with other leaves -/

section

variable {Leaf : Type} (leafText leafText' : Leaf → Text)

def Lexeme.IsRespelled : Lexeme Leaf → Text → Text → Prop
  | .leaf content, spelling, spelling' =>
    spelling = leafText content ∧ spelling' = leafText' content
  | lexeme, spelling, spelling' => lexeme.IsSpelled leafText spelling ∧ spelling' = spelling

/-- Two texts of some lexemes that differ in nothing but the texts of the leaves. -/
inductive Rewritten : List (Lexeme Leaf) → Text → Text → Prop where
  | nil {gap : Text} (blank : isBlank gap = true) : Rewritten [] gap gap
  | cons {gap spelling spelling' rest rest' : Text} {lexeme : Lexeme Leaf}
      {lexemes : List (Lexeme Leaf)}
      (blank : isBlank gap = true)
        (respelled : lexeme.IsRespelled leafText leafText' spelling spelling')
      (following : Rewritten lexemes rest rest') :
      Rewritten (lexeme :: lexemes) (gap ++ (spelling ++ rest)) (gap ++ (spelling' ++ rest'))

end

private theorem Lexeme.IsSpelled.exists_respelled {Leaf : Type} {leafText : Leaf → Text}
    {lexeme : Lexeme Leaf} {spelling : Text}
    (spelled : lexeme.IsSpelled leafText spelling) (leafText' : Leaf → Text) :
    ∃ spelling', lexeme.IsRespelled leafText leafText' spelling spelling' := by
  cases lexeme with
  | leaf content => exact ⟨leafText' content, spelled, rfl⟩
  | operator | name | leftParen | rightParen | comma => exact ⟨spelling, spelled, rfl⟩

private theorem Written.exists_rewritten {Leaf : Type} {leafText : Leaf → Text}
    {lexemes : List (Lexeme Leaf)} {text : Text}
    (written : Written leafText lexemes text) (leafText' : Leaf → Text) :
    ∃ other, Rewritten leafText leafText' lexemes text other := by
  induction written with
  | nil blank => exact ⟨_, .nil blank⟩
  | cons blank spelled following ih =>
      obtain ⟨spelling', respelled⟩ := spelled.exists_respelled leafText'
      obtain ⟨rest', rewritten⟩ := ih
      exact ⟨_, .cons blank respelled rewritten⟩

/-! ### Words by themselves -/

def inlineNames (bindings : Bindings) (text : Text) : Except Fault Text :=
  substituteConstants <$> substituteVariables text bindings

variable {bindings : Bindings}

/-- What stands in front of a separator is inlined apart from what stands behind it. -/
theorem inlineNames_append_cons {c : Char} (separator : isSeparator c = true) {left left' : Text}
    (inlined : inlineNames bindings left = .ok left') (right : Text) :
    inlineNames bindings (left ++ c :: right) = (left' ++ c :: ·) <$>
      inlineNames bindings right := by
  obtain ⟨substituted, replaced, rfl⟩ := exists_of_map_eq_ok inlined
  unfold inlineNames
  rw [substituteVariables_append_cons separator replaced, Functor.map_map, Functor.map_map]
  refine congrArg (· <$> substituteVariables right bindings) (funext fun rest => ?_)
  exact substituteConstants_append_cons (isSeparator_iff.mp separator).1 substituted rest

theorem inlineNames_nil (bindings : Bindings) : inlineNames bindings [] = .ok [] :=
  rfl

theorem inlineNames_cons {c : Char} (separator : isSeparator c = true) (text : Text) :
    inlineNames bindings (c :: text) = (c :: ·) <$> inlineNames bindings text :=
  inlineNames_append_cons separator (inlineNames_nil bindings) text

theorem inlineNames_separators {piece text text' : Text}
    (separators : ∀ c ∈ piece, isSeparator c = true)
    (inlined : inlineNames bindings text = .ok text') :
    inlineNames bindings (piece ++ text) = .ok (piece ++ text') := by
  induction piece with
  | nil => exact inlined
  | cons c piece ih =>
      rw [List.cons_append, inlineNames_cons (separators c List.mem_cons_self),
        ih fun other member => separators other (List.mem_cons_of_mem _ member)]
      rfl

/-- A piece with a separator or nothing behind it is inlined by itself. -/
theorem inlineNames_append {piece piece' text text' : Text}
    (alone : inlineNames bindings piece = .ok piece')
    (ends : ∀ c ∈ text.head?, isSeparator c = true)
    (inlined : inlineNames bindings text = .ok text') :
    inlineNames bindings (piece ++ text) = .ok (piece' ++ text') := by
  cases text with
  | nil =>
      rw [inlineNames_nil] at inlined
      obtain rfl := Except.ok.inj inlined
      rw [List.append_nil, List.append_nil]
      exact alone
  | cons c text =>
      have separator := ends c rfl
      rw [inlineNames_cons separator] at inlined
      obtain ⟨rest, found, rfl⟩ := exists_of_map_eq_ok inlined
      rw [inlineNames_append_cons separator alone, found]
      rfl

/-! ### Leaves by themselves -/

private theorem isNameStart_of_digits {c : Char} (numeric : Token.isNumberChar c = true) :
    isNameStart c = false := by
  rw [Token.isNumberChar, Bool.or_eq_true, beq_iff_eq] at numeric
  rcases numeric with digit | rfl
  · have letter : c.isAlpha = false := by
      grind [Char.isAlpha, Char.isUpper, Char.isLower, Char.isDigit]
    have underscore : c ≠ '_' := by
      rintro rfl
      cases digit
    rw [isNameStart, letter, beq_eq_false_iff_ne.mpr underscore]
    rfl
  · rfl

theorem isNameStart_of_head {c : Char} (starts : Head.isNameStart c = true) :
    isNameStart c = true := by
  unfold Head.isNameStart at starts
  unfold isNameStart
  grind [Char.isAlpha]

private theorem isNameChar_of_head {c : Char} (named : Head.isNameChar c = true) :
    isNameChar c = true := by
  unfold Head.isNameChar at named
  unfold isNameChar
  grind [Char.isAlphanum, Char.isAlpha]

def FunctionName.asVariable (name : FunctionName) : VariableName :=
  ⟨name.first, name.rest, isNameStart_of_head name.start,
    fun c member => isNameChar_of_head (name.following c member)⟩

private theorem FunctionName.text_asVariable (name : FunctionName) :
    name.asVariable.text = name.text :=
  rfl

private theorem FunctionName.canStandBare (name : FunctionName) : name.asVariable.CanStandBare :=
  fun dotted => absurd (name.following '.' (List.mem_of_getLast? dotted)) (by decide)

theorem Bindings.get?_of_number? {name : Text} {x : Float}
    (bound : bindings.number? name = some x) :
    bindings.get? name = some (.number x) := by
  obtain ⟨value, found, numeric⟩ := Option.bind_eq_some_iff.mp bound
  cases value with
  | number y =>
      cases numeric
      exact found
  | text content => cases numeric

theorem substituteWords_of_notStart {text : Text} (notStart : ∀ c ∈ text, isNameStart c = false) :
    substituteWords bindings text = .ok text := by
  have nowhere : ∀ c ∈ text,
      ∀ afterWord following, bareWordRule afterWord (c :: following) = none := by
    intro c member afterWord following
    rw [bareWordRule, notStart c member, Bool.and_false]
    exact if_neg Bool.false_ne_true
  rw [substituteWords_eq_replace, cutsBy, Cuts.scan_eq_plain nowhere, Cuts.replace_plain]
  rfl

theorem substituteVariables_of_unbraced {text : Text} (unbraced : '{' ∉ text) :
    substituteVariables text bindings = substituteWords bindings text := by
  have nowhere : ∀ c ∈ text,
      ∀ afterWord following, referenceRule afterWord (c :: following) = none :=
    fun c member => referenceRule_of_ne (ne_of_mem_of_not_mem member unbraced)
  rw [substituteVariables_eq_replace, references, cutsBy,
    Cuts.scan_eq_plain nowhere, Cuts.replace_plain]

private theorem substituteVariables_word {name : VariableName} (bare : name.CanStandBare) :
    substituteVariables name.text bindings = inlineWord bindings name.text := by
  have unbraced : '{' ∉ name.text :=
    fun member => absurd (name.forall_mem_text _ member) (by decide)
  have whole : ((name.rest.takeWhile isNameChar).reverse.dropWhile (· == '.')).reverse =
      name.rest := by
    rw [List.takeWhile_eq_self_iff.mpr name.following, List.reverse_eq_iff]
    rcases List.eq_nil_or_concat name.rest with nothing | ⟨front, last, ending⟩
    · rw [nothing]
      rfl
    · have other : (last == '.') = false := by
        rw [VariableName.CanStandBare, ending] at bare
        simpa using bare
      rw [ending, List.concat_eq_append, List.reverse_append, List.reverse_singleton,
        List.singleton_append, List.dropWhile_cons, other, if_neg Bool.false_ne_true]
  have found : bareWordRule false (name.first :: name.rest) =
      some (name.text, name.rest.length) := by
    rw [bareWordRule, name.start, whole]
    rfl
  rw [substituteVariables_of_unbraced unbraced, substituteWords_eq_replace, VariableName.text,
    Cuts.cutsBy_eq_place found]
  refine (Cuts.replace_place _ (by rfl) name.text).trans ?_
  change (do return [] ++ (← inlineWord bindings name.text)) = inlineWord bindings name.text
  cases inlineWord bindings name.text <;> rfl

theorem referenceRule_braced (name : VariableName) (afterWord : Bool) (text : Text) :
    referenceRule afterWord (braced name.text ++ text) =
      some (name.text, (name.text ++ ['}']).length) := by
  have shape : braced name.text ++ text = '{' :: name.first :: (name.rest ++ '}' :: text) := by
    simp [braced, VariableName.text]
  rw [shape, referenceRule_opening, takeWhile_append_cons (by rfl), dropWhile_append_cons (by rfl),
    List.takeWhile_eq_self_iff.mpr name.following, List.dropWhile_eq_nil_iff.mpr name.following,
    if_pos ⟨name.start, rfl⟩]
  simp [VariableName.text]

private theorem substituteVariables_reference (name : VariableName) :
    substituteVariables (braced name.text) bindings =
      substituteReference bindings [] name.text := by
  have found := referenceRule_braced name false []
  rw [List.append_nil] at found
  rw [substituteVariables_eq_replace, references, braced, Cuts.cutsBy_eq_place found]
  exact Cuts.replace_place _ (by rfl) name.text

theorem inlineFinite_of_isFinite {x : Float} (finite : x.isFinite = true) :
    inlineFinite x = .ok (inlineNumber x) :=
  if_pos finite

private theorem substituteConstants_inlineNumber {x : Float} (finite : x.isFinite = true) :
    substituteConstants (inlineNumber x) = inlineNumber x :=
  substituteConstants_of_notStart (IsNumberText.inlineNumber finite).notStart

private theorem inlineNames_numeral (numeral : Numeral) :
    inlineNames bindings numeral.text = .ok numeral.text := by
  have digits := numeral.isNumeral.1
  have unbraced : '{' ∉ numeral.text := fun member => absurd (digits _ member) (by decide)
  have notStart : ∀ c ∈ numeral.text, isNameStart c = false :=
    fun c member => isNameStart_of_digits (digits c member)
  rw [inlineNames, substituteVariables_of_unbraced unbraced, substituteWords_of_notStart notStart]
  exact congrArg Except.ok
    (substituteConstants_of_notStart fun c member =>
      Head.isNameStart_of_isNumberChar (digits c member))

theorem inlineNames_reference {name : VariableName} {x : Float}
    (bound : bindings.number? name.text = some x)
    (finite : x.isFinite = true) :
    inlineNames bindings (braced name.text) = .ok (inlineNumber x) := by
  rw [inlineNames, substituteVariables_reference, substituteReference,
    Bindings.get?_of_number? bound]
  change substituteConstants <$> (do return [] ++ (← inlineFinite x)) = _
  rw [inlineFinite_of_isFinite finite]
  exact congrArg Except.ok (substituteConstants_inlineNumber finite)

theorem inlineNames_word {name : VariableName} (bare : name.CanStandBare) {x : Float}
    (bound : bindings.number? name.text = some x) (finite : x.isFinite = true) :
    inlineNames bindings name.text = .ok (inlineNumber x) := by
  rw [inlineNames, substituteVariables_word bare, inlineWord, bound]
  dsimp only
  rw [inlineFinite_of_isFinite finite]
  exact congrArg Except.ok (substituteConstants_inlineNumber finite)

private theorem inlineNames_of_unbound {name : FunctionName}
    (unbound : bindings.number? name.text = none) :
    inlineNames bindings name.text = .ok (substituteConstants name.text) := by
  rw [inlineNames, ← name.text_asVariable, substituteVariables_word name.canStandBare,
    name.text_asVariable, inlineWord, unbound]
  rfl

private theorem inlineNames_constant {constant : Constant} (listed : constant ∈ Constant.all)
    (unbound : bindings.number? constant.name.toList = none) :
    inlineNames bindings constant.name.toList = .ok (Decimal.write constant.value) := by
  obtain ⟨name, spelled⟩ := Constant.exists_functionName constant listed
  rw [← substituteConstants_name constant listed]
  rw [← spelled] at unbound ⊢
  exact inlineNames_of_unbound unbound

/-! ### Formulas -/

def Lexeme.isWord {Leaf : Type} : Lexeme Leaf → Bool
  | .leaf _ | .name _ => true
  | _ => false

private theorem Place.eq_of_next?_word {Leaf : Type} {place next : Place} {lexeme : Lexeme Leaf}
    (word : lexeme.isWord = true)
    (step : place.next? lexeme = some next) : next = .behind ∨ next = .arguments := by
  cases lexeme with
  | leaf content => cases place <;> cases step <;> exact .inl rfl
  | name function => cases place <;> cases step <;> exact .inr rfl
  | operator | leftParen | rightParen | comma => cases word

private theorem Lexeme.isWord_eq_false {Leaf : Type} {place next : Place} {lexeme : Lexeme Leaf}
    (behindWord : place = .behind ∨ place = .arguments) (step : place.next? lexeme = some next) :
    lexeme.isWord = false := by
  rcases behindWord with rfl | rfl <;> cases lexeme <;> first | rfl | cases step

section

variable {Leaf : Type} {leafText leafText' : Leaf → Text} {lexeme : Lexeme Leaf}
  {spelling spelling' : Text}

theorem Lexeme.IsSpelled.separates (spelled : lexeme.IsSpelled leafText spelling)
    (sign : lexeme.isWord = false) :
    spelling ≠ [] ∧ ∀ c ∈ spelling, isSeparator c = true := by
  cases lexeme with
  | leaf | name => cases sign
  | operator operator =>
      rcases spelled with rfl | ⟨_, rfl⟩
      · cases operator <;> exact ⟨List.cons_ne_nil _ _, List.all_eq_true.mp rfl⟩
      · exact ⟨List.cons_ne_nil _ _, List.all_eq_true.mp rfl⟩
  | leftParen | rightParen | comma =>
      cases spelled
      exact ⟨List.cons_ne_nil _ _, List.all_eq_true.mp rfl⟩

private theorem Lexeme.IsRespelled.of_sign
    (respelled : lexeme.IsRespelled leafText leafText' spelling spelling')
    (sign : lexeme.isWord = false) : lexeme.IsSpelled leafText spelling ∧ spelling' = spelling := by
  cases lexeme with
  | leaf | name => cases sign
  | operator | leftParen | rightParen | comma => exact respelled

theorem isSeparator_of_isBlank {gap : Text} (blank : isBlank gap = true) :
    ∀ c ∈ gap, isSeparator c = true :=
  fun c member => isSeparator_of_isBlankChar (List.all_eq_true.mp blank c member)

private theorem Rewritten.isSeparator_head? {lexemes : List (Lexeme Leaf)} {text other : Text}
    {place last : Place} (rewritten : Rewritten leafText leafText' lexemes text other)
    (behindWord : place = .behind ∨ place = .arguments)
    (arranged : place.walk lexemes = some last) : ∀ c ∈ text.head?, isSeparator c = true := by
  intro c first
  cases rewritten with
  | nil blank => exact isSeparator_of_isBlank blank c (List.mem_of_mem_head? first)
  | @cons gap spelling _ rest _ _ _ blank respelled following =>
      obtain ⟨next, step, _⟩ := Place.exists_next_of_walk arranged
      have sign := Lexeme.isWord_eq_false behindWord step
      obtain ⟨nonempty, separators⟩ := (respelled.of_sign sign).1.separates sign
      rw [← List.append_assoc,
        List.head?_append_of_ne_nil _ (List.append_ne_nil_of_right_ne_nil gap nonempty)] at first
      rcases List.mem_append.mp (List.mem_of_mem_head? first) with inGap | inSpelling
      · exact isSeparator_of_isBlank blank c inGap
      · exact separators c inSpelling

end

private theorem inlineNames_respelled {lexeme : Lexeme Operand} {spelling spelling' : Text}
    (respelled : lexeme.IsRespelled Operand.text (Operand.inlined bindings) spelling spelling')
    (word : lexeme.isWord = true) (meant : lexeme.IsMeant bindings) :
    inlineNames bindings spelling = .ok spelling' := by
  cases lexeme with
  | leaf operand =>
      obtain ⟨rfl, rfl⟩ := respelled
      cases operand with
      | numeral content => exact inlineNames_numeral content
      | reference label =>
          obtain ⟨x, bound, finite⟩ := meant
          rw [Operand.inlined, Bindings.inlined, bound]
          exact inlineNames_reference bound finite
      | word label bare =>
          obtain ⟨x, bound, finite⟩ := meant
          rw [Operand.inlined, Bindings.inlined, bound]
          exact inlineNames_word bare bound finite
      | constant known listed => exact inlineNames_constant listed meant
  | name function =>
      obtain ⟨rfl, rfl⟩ := respelled
      obtain ⟨unbound, different⟩ := meant
      rw [inlineNames_of_unbound unbound, substituteConstants_of_ne different]
  | operator | leftParen | rightParen | comma => cases word

private theorem inlineNames_rewritten {lexemes : List (Lexeme Operand)} {text other : Text}
    {place last : Place}
    (rewritten : Rewritten Operand.text (Operand.inlined bindings) lexemes text other)
    (arranged : place.walk lexemes = some last)
    (meant : ∀ lexeme ∈ lexemes, lexeme.IsMeant bindings) :
    inlineNames bindings text = .ok other := by
  -- From the end of the text: what stands behind a unit is inlined already, and begins with
  -- a separator behind a word.
  induction rewritten generalizing place with
  | @nil gap blank =>
      have inlined := inlineNames_separators (isSeparator_of_isBlank blank)
        (inlineNames_nil bindings)
      rwa [List.append_nil] at inlined
  | @cons gap spelling spelling' rest rest' lexeme lexemes blank respelled following ih =>
      obtain ⟨next, step, walked⟩ := Place.exists_next_of_walk arranged
      have behind := ih walked fun other member => meant other (List.mem_cons_of_mem _ member)
      refine inlineNames_separators (isSeparator_of_isBlank blank) ?_
      cases word : lexeme.isWord with
      | true =>
          have alone := inlineNames_respelled respelled word (meant lexeme List.mem_cons_self)
          exact inlineNames_append alone
            (following.isSeparator_head? (Place.eq_of_next?_word word step) walked) behind
      | false =>
          obtain ⟨spelled, rfl⟩ := respelled.of_sign word
          exact inlineNames_separators (spelled.separates word).2 behind

/-- Names and constants are put in leaf by leaf. Where every name has what it needs, a text
of a tree becomes the one text that has the numbers of the leaves in their places and is
the same everywhere else. -/
theorem substitute_written {kind : Kind} {formula : Phrase Operand kind} {text : Text}
    (written : Written Operand.text formula.lexemes text)
    (meant : ∀ lexeme ∈ formula.lexemes, lexeme.IsMeant bindings) :
    ∃ result, substituteConstants <$> substituteVariables text bindings = .ok result ∧
      ∀ other, Rewritten Operand.text (Operand.inlined bindings) formula.lexemes text other ↔
        other = result := by
  have arranged := formula.walk_lexemes .opening trivial
  obtain ⟨result, rewritten⟩ := written.exists_rewritten (Operand.inlined bindings)
  have inlined := inlineNames_rewritten rewritten arranged meant
  refine ⟨result, inlined, fun other => ⟨fun alike => ?_, fun same => same ▸ rewritten⟩⟩
  have inlinedAlike := inlineNames_rewritten alike arranged meant
  rw [inlined] at inlinedAlike
  exact (Except.ok.inj inlinedAlike).symm

def spreadFormula : Phrase Operand .sum :=
  .term (.scale .multiply (.inl rfl)
    (.factor (.raise
      (.call (.ofText ['M', 'A', 'X'] (by decide))
        [.term (.factor (.base (.leaf (.reference ⟨'a', [], rfl, List.all_eq_true.mp rfl⟩)))),
          .term
            (.factor
              (.base
                (.leaf (.word ⟨'P', ['I', '.', 'x'], rfl, List.all_eq_true.mp rfl⟩ (by decide)))))])
      (.base (.leaf (.numeral ⟨['2'], by decide⟩)))))
    (.base
      (.leaf (.constant ⟨"PI", 3.141592653589793, "Mathematical constant π"⟩ List.mem_cons_self))))

def spreadBindings : Bindings :=
  (Bindings.empty.bind ['a'] (.number (-3))).bind ['P', 'I', '.', 'x'] (.number (-0))

theorem substitute_written_spread :
    Written Operand.text spreadFormula.lexemes "MAX({a}, PI.x) ** 2*PI".toList ∧
      (∀ lexeme ∈ spreadFormula.lexemes, lexeme.IsMeant spreadBindings) ∧
      Rewritten Operand.text (Operand.inlined spreadBindings) spreadFormula.lexemes
        "MAX({a}, PI.x) ** 2*PI".toList
        "MAX((-3), 0) ** 2*3.141592653589793".toList := by
  have written : Written Operand.text spreadFormula.lexemes "MAX({a}, PI.x) ** 2*PI".toList := by
    unfold spreadFormula
    simp only [Phrase.lexemes, List.map_cons, List.map_nil, List.intercalate_cons_cons,
      List.intercalate_singleton, List.cons_append, List.nil_append]
    have text : "MAX({a}, PI.x) ** 2*PI".toList =
        ['M', 'A', 'X', '(', '{', 'a', '}', ',', ' ', 'P', 'I', '.', 'x', ')', ' ', '*', '*', ' ',
          '2', '*', 'P', 'I'] := by
      decide +kernel
    have spaced {lexemes : List (Lexeme Operand)} {rest : Text}
        (behind : Written Operand.text lexemes rest) :
        Written Operand.text lexemes (' ' :: rest) :=
      behind.prepend_blank (by decide : isBlank [' '] = true)
    rw [text]
    refine .cons_spelled ['M', 'A', 'X'] rfl
      (.cons_spelled ['('] rfl (.cons_spelled ['{', 'a', '}'] rfl ?_))
    refine .cons_spelled [','] rfl
      (spaced (.cons_spelled ['P', 'I', '.', 'x'] rfl (.cons_spelled [')'] rfl ?_)))
    refine spaced (.cons_spelled ['*', '*'] (.inr ⟨rfl, rfl⟩) (spaced (.cons_spelled ['2'] rfl ?_)))
    have constant : ['P', 'I'] = "PI".toList := by decide +kernel
    exact .cons_spelled ['*'] (.inl rfl) (.of_spelled constant)
  have meant : ∀ lexeme ∈ spreadFormula.lexemes, lexeme.IsMeant spreadBindings := by
    unfold spreadFormula
    simp only [Phrase.lexemes, List.map_cons, List.map_nil, List.intercalate_cons_cons,
      List.intercalate_singleton, List.cons_append, List.nil_append,
      List.forall_mem_cons, Lexeme.IsMeant]
    refine ⟨⟨by decide +kernel, by decide +kernel⟩, trivial,
      ⟨-3, by decide +kernel, by decide +kernel⟩, trivial, ?_⟩
    refine ⟨⟨-0, by decide +kernel, by decide +kernel⟩, trivial, trivial, trivial, trivial, ?_⟩
    exact ⟨by decide +kernel, List.forall_mem_nil _⟩
  have inlined : substituteConstants <$>
        substituteVariables "MAX({a}, PI.x) ** 2*PI".toList spreadBindings =
      .ok "MAX((-3), 0) ** 2*3.141592653589793".toList := by
    decide +kernel
  obtain ⟨result, same, unique⟩ := substitute_written written meant
  rw [inlined] at same
  exact ⟨written, meant, (unique _).mpr (Except.ok.inj same)⟩

end QuantityFormula
