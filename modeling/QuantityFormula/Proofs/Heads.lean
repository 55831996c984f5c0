import QuantityFormula.Call
import QuantityFormula.Proofs.Arguments

/-!
Heads of a written tree. The heads of a text are the names of its tree, in their order, and each of
them parts the text as its name parts the units of the tree. So the call that is replaced next is a
call of the tree, with no guarded call around it.
-/

set_option autoImplicit false

namespace QuantityFormula

open Text

namespace Head

/-! ### All heads of a text -/

def all : (afterWord : Bool) → Text → List Head
  | _, [] => []
  | afterWord, c :: text =>
    (here? afterWord (c :: text)).toList ++ (all (isWordChar c) text).map (keep c)

theorem first?_eq_find? (wanted : Text → Bool) (afterWord : Bool) (text : Text) :
    first? wanted afterWord text = (all afterWord text).find? fun head => wanted head.name := by
  induction text generalizing afterWord with
  | nil => rfl
  | cons c text ih =>
      have later : ((all (isWordChar c) text).map (keep c)).find? (fun head => wanted head.name) =
          (first? wanted (isWordChar c) text).map (keep c) := by
        rw [List.find?_map, ih]
        rfl
      rw [first?, all, List.find?_append, later]
      cases here? afterWord (c :: text) with
      | none => rfl
      | some head =>
          cases fits : wanted head.name with
          | true => simp [Option.filter, fits]
          | false => simp [Option.filter, fits]

theorem last?_eq_getLast? (afterWord : Bool) (text : Text) :
    last? afterWord text = (all afterWord text).getLast? := by
  induction text generalizing afterWord with
  | nil => rfl
  | cons c text ih =>
      rw [last?, all, List.getLast?_append, List.getLast?_map, ← ih]
      cases last? (isWordChar c) text with
      | some head => rfl
      | none =>
          cases here? afterWord (c :: text) with
          | none => rfl
          | some head => rfl

/-! ### Text in front of a head -/

def continuesWord (afterWord : Bool) (piece : Text) : Bool :=
  piece.foldl (fun _ c => isWordChar c) afterWord

def keepAll (before : Text) (head : Head) : Head :=
  ⟨before ++ head.before, head.name, head.after⟩

theorem keepAll_comp_keepAll (first second : Text) :
    keepAll first ∘ keepAll second = keepAll (first ++ second) := by
  funext head
  simp [keepAll]

theorem all_append_of_notStart {piece : Text} (notStart : ∀ c ∈ piece, isNameStart c = false)
    (afterWord : Bool) (rest : Text) :
    all afterWord (piece ++ rest) = (all (continuesWord afterWord piece) rest).map
      (keepAll piece) := by
  induction piece generalizing afterWord with
  | nil => exact (List.map_id _).symm
  | cons c piece ih =>
      have nothing : here? afterWord (c :: (piece ++ rest)) = none := by
        rw [here?, notStart c List.mem_cons_self, Bool.and_false, if_neg Bool.false_ne_true]
      rw [List.cons_append, all, nothing,
        ih fun other member => notStart other (List.mem_cons_of_mem _ member), List.map_map]
      rfl

private theorem all_append_of_word {piece : Text} (word : ∀ c ∈ piece, isWordChar c = true)
    (rest : Text) :
    all true (piece ++ rest) = (all true rest).map (keepAll piece) := by
  induction piece with
  | nil => exact (List.map_id _).symm
  | cons c piece ih =>
      rw [List.cons_append, all, word c List.mem_cons_self,
        ih fun other member => word other (List.mem_cons_of_mem _ member), List.map_map]
      rfl

theorem isWordChar_of_isNameChar {c : Char} (named : isNameChar c = true) :
    isWordChar c = true := by
  unfold isNameChar at named
  rw [Bool.or_eq_true, Bool.or_eq_true, beq_iff_eq] at named
  have ascii : c.toNat < 128 := by
    rcases named with (upper | digit) | rfl
    · rw [Char.isUpper, decide_eq_true_eq] at upper
      exact Nat.lt_of_le_of_lt (UInt32.le_iff_toNat_le.mp upper.2) (by decide)
    · rw [Char.isDigit, Bool.and_eq_true, decide_eq_true_eq, decide_eq_true_eq] at digit
      exact Nat.lt_of_le_of_lt (UInt32.le_iff_toNat_le.mp digit.2) (by decide)
    · decide
  rw [isWordChar, if_pos ascii]
  rcases named with (upper | digit) | rfl
  · simp [Char.isAlphanum, Char.isAlpha, upper]
  · simp [Char.isAlphanum, digit]
  · rfl

theorem isNameChar_of_isNameStart {c : Char} (starts : isNameStart c = true) :
    isNameChar c = true := by
  unfold isNameStart at starts
  unfold isNameChar
  rw [Bool.or_eq_true] at starts
  rcases starts with upper | underscore
  · rw [upper]
    rfl
  · rw [underscore, Bool.or_true]

theorem isNameChar_eq_false {c : Char} (apart : isWordChar c = false) : isNameChar c = false :=
  Bool.eq_false_iff.mpr fun named => Bool.eq_false_iff.mp apart (isWordChar_of_isNameChar named)

theorem isNameStart_eq_false {c : Char} (unnamed : isNameChar c = false) : isNameStart c = false :=
  Bool.eq_false_iff.mpr fun starts =>
    Bool.eq_false_iff.mp unnamed (isNameChar_of_isNameStart starts)

private theorem here?_name (name : FunctionName) {gap : Text}
    (blank : isBlank gap = true) (after : Text) :
    here? false (name.text ++ (gap ++ '(' :: after)) = some ⟨[], name.text, after⟩ := by
  have following : ∀ c ∈ name.rest, isNameChar c = true := name.following
  have ended : (gap ++ '(' :: after).takeWhile isNameChar = [] ∧
      (gap ++ '(' :: after).dropWhile isNameChar = gap ++ '(' :: after := by
    cases gap with
    | nil => exact ⟨rfl, rfl⟩
    | cons c gap =>
        rw [isBlank, List.all_cons, Bool.and_eq_true] at blank
        have separate := (isBlankChar_separates blank.1).2.1
        rw [List.cons_append, List.takeWhile_cons, List.dropWhile_cons, separate]
        exact ⟨rfl, rfl⟩
  have opened : (gap ++ '(' :: after).dropWhile isBlankChar = '(' :: after := by
    rw [List.dropWhile_append_of_pos (List.all_eq_true.mp blank)]
    rfl
  rw [FunctionName.text, List.cons_append, here?, name.start,
    List.takeWhile_append_of_pos following, List.dropWhile_append_of_pos following, ended.1,
    ended.2, opened, List.append_nil]
  rfl

theorem all_name (name : FunctionName) {gap : Text} (blank : isBlank gap = true) (after : Text) :
    all false (name.text ++ (gap ++ '(' :: after)) =
      ⟨[], name.text, after⟩ :: (all true (gap ++ '(' :: after)).map (keepAll name.text) := by
  have here := here?_name name blank after
  have word : ∀ c ∈ name.rest, isWordChar c = true :=
    fun c member => isWordChar_of_isNameChar (name.following c member)
  have first : isWordChar name.first = true :=
    isWordChar_of_isNameChar (isNameChar_of_isNameStart name.start)
  rw [FunctionName.text, List.cons_append] at here ⊢
  rw [all, here, first, all_append_of_word word, List.map_map]
  rfl

end Head

/-! ### Heads and names -/

/-- The heads of a text of some units: one for each name, which parts the text as
the name parts the units. -/
structure Head.Mark (lexemes : List (Lexeme Numeral)) (heads : List Head) : Prop where
  names : heads.map Head.name = (lexemes.filterMap Lexeme.name?).map FunctionName.text
  parts : ∀ earlier head later, heads = earlier ++ head :: later →
    ∃ before name after, lexemes = before ++ .name name :: .leftParen :: after ∧
      head.name = name.text ∧
      Written Numeral.text before head.before ∧ Written Numeral.text after head.after ∧
      earlier.map Head.name = (before.filterMap Lexeme.name?).map FunctionName.text

namespace Head.Mark

theorem nil : Mark [] [] where
  names := rfl
  parts := by
    intro earlier head later impossible
    cases earlier <;> cases impossible

theorem cons {lexeme : Lexeme Numeral} {lexemes : List (Lexeme Numeral)} {heads : List Head}
    (mark : Mark lexemes heads) (unnamed : lexeme.name? = none) {gap spelling : Text}
    (blank : isBlank gap = true) (spelled : lexeme.IsSpelled Numeral.text spelling) :
    Mark (lexeme :: lexemes) (heads.map (keepAll (gap ++ spelling))) where
  names := by
    rw [List.map_map, List.filterMap_cons, unnamed]
    exact mark.names
  parts := by
    intro earlier head later split
    obtain ⟨earlier, others, rfl, rfl, rest⟩ := List.map_eq_append_iff.mp split
    obtain ⟨head, later, rfl, rfl, rfl⟩ := List.map_eq_cons_iff.mp rest
    obtain ⟨before, name, after, rfl, named, beforeWritten, afterWritten, names⟩ :=
      mark.parts earlier head later rfl
    refine ⟨lexeme :: before, name, after, rfl, named, ?_, afterWritten, ?_⟩
    · have written := Written.cons blank spelled beforeWritten
      rwa [← List.append_assoc] at written
    · rw [List.map_map, List.filterMap_cons, unnamed]
      exact names

private theorem cons_name {name : FunctionName}
    {lexemes : List (Lexeme Numeral)} {heads : List Head}
    (mark : Mark (.leftParen :: lexemes) heads) {gap after : Text} (blank : isBlank gap = true)
    (afterWritten : Written Numeral.text lexemes after) :
    Mark (.name name :: .leftParen :: lexemes)
      (⟨gap, name.text, after⟩ :: heads.map (keepAll (gap ++ name.text))) where
  names := by
    have names := mark.names
    rw [List.map_cons, List.map_map]
    exact congrArg (name.text :: ·) names
  parts := by
    intro earlier head later split
    cases earlier with
    | nil =>
        obtain ⟨rfl, rfl⟩ := List.cons.inj split
        exact ⟨[], name, lexemes, rfl, rfl, .nil blank, afterWritten, rfl⟩
    | cons first earlier =>
        obtain ⟨rfl, behindFirst⟩ := List.cons.inj split
        obtain ⟨earlier, others, rfl, rfl, rest⟩ := List.map_eq_append_iff.mp behindFirst
        obtain ⟨head, later, rfl, rfl, rfl⟩ := List.map_eq_cons_iff.mp rest
        obtain ⟨before, other, behind, shape, named, beforeWritten, behindWritten, names⟩ :=
          mark.parts earlier head later rfl
        refine ⟨.name name :: before, other,
          behind, by rw [shape]; rfl, named, ?_, behindWritten, ?_⟩
        · have spelled : (Lexeme.name name).IsSpelled Numeral.text name.text := rfl
          have written := Written.cons blank spelled beforeWritten
          rwa [← List.append_assoc] at written
        · rw [List.map_cons, List.map_map]
          exact congrArg (name.text :: ·) names

end Head.Mark

namespace Head

theorem notStart_of_isBlank {gap : Text} (blank : isBlank gap = true) :
    ∀ c ∈ gap, isNameStart c = false :=
  fun c member => (isBlankChar_separates (List.all_eq_true.mp blank c member)).2.2.1

theorem continuesWord_blank {gap : Text} (blank : isBlank gap = true) :
    continuesWord false gap = false := by
  induction gap with
  | nil => rfl
  | cons c gap ih =>
      rw [isBlank, List.all_cons, Bool.and_eq_true] at blank
      rw [continuesWord, List.foldl_cons, (isBlankChar_separates blank.1).1]
      exact ih blank.2

theorem isNameStart_of_isNumberChar {c : Char} (numeric : Token.isNumberChar c = true) :
    isNameStart c = false := by
  rw [Bool.eq_false_iff]
  intro starts
  rw [Token.isNumberChar, Bool.or_eq_true, beq_iff_eq] at numeric
  rw [isNameStart, Bool.or_eq_true, beq_iff_eq] at starts
  rcases starts with upper | rfl
  · rcases numeric with digit | rfl
    · rw [Char.isUpper, decide_eq_true_eq] at upper
      rw [Char.isDigit, Bool.and_eq_true, decide_eq_true_eq, decide_eq_true_eq] at digit
      have least := UInt32.le_iff_toNat_le.mp upper.1
      have most := UInt32.le_iff_toNat_le.mp digit.2
      exact absurd (Nat.le_trans least most) (by decide)
    · cases upper
  · rcases numeric with digit | dot
    · cases digit
    · cases dot

private theorem spelling_facts {lexeme : Lexeme Numeral} {spelling : Text}
    (spelled : lexeme.IsSpelled Numeral.text spelling) (unnamed : lexeme.name? = none) :
    (∀ c ∈ spelling, isNameStart c = false) ∧
      ((∃ numeral, lexeme = .leaf numeral) ∨ ∀ afterWord,
        continuesWord afterWord spelling = false) := by
  cases lexeme with
  | leaf numeral =>
      cases spelled
      exact ⟨fun c member => isNameStart_of_isNumberChar (numeral.isNumeral.1 c member),
        .inl ⟨numeral, rfl⟩⟩
  | operator sign =>
      rcases spelled with rfl | ⟨_, rfl⟩
      · cases sign <;> exact ⟨forall_eq_false_of_any rfl, .inr (by decide)⟩
      · exact ⟨forall_eq_false_of_any rfl, .inr (by decide)⟩
  | name function => cases unnamed
  | leftParen | rightParen | comma =>
      cases spelled
      exact ⟨forall_eq_false_of_any rfl, .inr (by decide)⟩

/-- The heads of a text of units in their places mark the names among the units. -/
theorem mark_all {lexemes : List (Lexeme Numeral)} {text : Text}
    (written : Written Numeral.text lexemes text) {place : Place}
    (arranged : place.walk lexemes = some .behind)
    {afterWord : Bool} (idle : afterWord = true → place = .behind ∨ place = .arguments) :
    Mark lexemes (all afterWord text) := by
  induction written generalizing place afterWord with
  | @nil gap blank =>
      have nothing := all_append_of_notStart (notStart_of_isBlank blank) afterWord []
      rw [List.append_nil] at nothing
      rw [nothing]
      exact .nil
  | @cons gap spelling rest lexeme lexemes blank spelled following ih =>
      obtain ⟨next, step, arrangedRest⟩ := Place.exists_next_of_walk arranged
      cases unnamed : lexeme.name? with
      | none =>
          obtain ⟨notStart, ending⟩ := spelling_facts spelled unnamed
          have notStartPiece : ∀ c ∈ gap ++ spelling, isNameStart c = false := by
            intro c member
            rcases List.mem_append.mp member with inGap | inSpelling
            · exact notStart_of_isBlank blank c inGap
            · exact notStart c inSpelling
          rw [← List.append_assoc, all_append_of_notStart notStartPiece]
          refine (ih arrangedRest ?_).cons unnamed blank spelled
          intro continues
          rcases ending with ⟨numeral, rfl⟩ | ended
          · cases place <;> cases step <;> exact .inl rfl
          · rw [continuesWord, List.foldl_append] at continues
            have stopped := ended (gap.foldl (fun _ c => isWordChar c) afterWord)
            rw [continuesWord, continues] at stopped
            cases stopped
      | some name =>
          cases lexeme with
          | leaf _ | operator _ | leftParen | rightParen | comma => cases unnamed
          | name function =>
              cases spelled
              have due : afterWord = false ∧ next = .arguments := by
                cases afterWord with
                | false => cases place <;> cases step <;> exact ⟨rfl, rfl⟩
                | true => rcases idle rfl with rfl | rfl <;> cases step
              obtain ⟨rfl, rfl⟩ := due
              -- Nothing but blanks and the parenthesis may follow a name, so its head is found
              -- here.
              cases following with
              | nil => cases arrangedRest
              | @cons gap' spelling rest lexeme lexemes blank' spelled following =>
                  cases lexeme with
                  | leaf _ | operator _ | name _ | rightParen | comma => cases arrangedRest
                  | leftParen =>
                      cases spelled
                      have mark : Mark (.leftParen :: lexemes)
                          (all true (gap' ++ (['('] ++ rest))) :=
                        ih arrangedRest fun _ => .inr rfl
                      rw [all_append_of_notStart (notStart_of_isBlank blank),
                        continuesWord_blank blank, List.singleton_append, all_name function blank',
                        List.map_cons, List.map_map, keepAll_comp_keepAll]
                      have head : keepAll gap ⟨[], function.text, rest⟩ =
                          ⟨gap, function.text, rest⟩ := by
                        rw [keepAll, List.append_nil]
                      rw [head]
                      exact mark.cons_name blank following

end Head

/-! ### The next call -/

structure Call.Marks (call : Call) (context : Context Numeral .sum) (name : FunctionName)
    (arguments : List Formula) : Prop where
  before : Written Numeral.text context.left call.before
  name : call.name = name.text
  arguments : Written Numeral.text (argumentLexemes arguments) call.arguments
  after : Written Numeral.text context.right call.after

private theorem Call.exists_ofHead {formula : Formula} {heads : List Head}
    (mark : Head.Mark formula.lexemes heads)
    {earlier later : List Head} {head : Head} (split : heads = earlier ++ head :: later)
    (unguarded : ∀ other ∈ earlier, isGuardedName other.name = false) :
    ∃ (context : Context Numeral .sum) (name : FunctionName)
      (arguments : List Formula) (call : Call),
      formula = context.fill (.call name arguments) ∧
        (∀ other, Lexeme.name other ∈ context.left → other.isGuarded = false) ∧
        ofHead head = .ok call ∧ call.Marks context name arguments := by
  obtain ⟨before, name, after, shape, named, beforeWritten, afterWritten, names⟩ :=
    mark.parts earlier head later split
  obtain ⟨context, arguments, rfl, rfl, opened⟩ := Phrase.calls_of_lexemes shape
  obtain ⟨_, rfl⟩ := List.cons.inj opened
  obtain ⟨inside, behind, closed, insideWritten, behindWritten⟩ := afterWritten.split_rightParen
  have neutral := isNeutral_arguments (fun argument _ => argument.areItems_lexemes) insideWritten
  have found : splitClosing? 0 head.after = some (inside, behind) :=
    splitClosing?_eq_some_iff.mpr ⟨closed, isNeutral_iff.mp neutral⟩
  refine ⟨context, name, arguments, ⟨head.before, head.name, inside, behind⟩, rfl, ?_, ?_,
    beforeWritten, named, insideWritten, behindWritten⟩
  · intro other member
    have listed : other.text ∈ earlier.map Head.name := by
      rw [names]
      exact List.mem_map_of_mem (List.mem_filterMap.mpr ⟨_, member, rfl⟩)
    obtain ⟨otherHead, headMember, same⟩ := List.mem_map.mp listed
    have free := unguarded otherHead headMember
    rw [same] at free
    exact free
  · rw [ofHead, found]

/-- In a text of a tree the next call is one of the tree, with no guarded call around it. There is
none only in a tree without calls. -/
theorem Call.next?_written {formula : Formula} {text : Text} (written : formula.IsWritten text) :
    formula.callCount = 0 ∧ next? text = .ok none ∨
      ∃ (context : Context Numeral .sum) (name : FunctionName)
        (arguments : List Formula) (call : Call),
        formula = context.fill (.call name arguments) ∧
          (∀ other, Lexeme.name other ∈ context.left → other.isGuarded = false) ∧
          next? text = .ok (some call) ∧ call.Marks context name arguments := by
  have mark : Head.Mark formula.lexemes (Head.all false text) :=
    Head.mark_all written (formula.walk_lexemes .opening trivial) nofun
  unfold next?
  rw [Head.first?_eq_find?, Head.last?_eq_getLast?]
  -- The call is that of the leftmost guarded head or, if no head is guarded, that of the last one.
  cases guarded : (Head.all false text).find? fun head => isGuardedName head.name with
  | some head =>
      obtain ⟨_, earlier, later, split, unguarded⟩ := List.find?_eq_some_iff_append.mp guarded
      obtain ⟨context, name, arguments, call, shape, around, located, marks⟩ :=
        exists_ofHead mark split (fun other member => by simpa using unguarded other member)
      refine .inr ⟨context, name, arguments, call, shape, around, ?_, marks⟩
      change some <$> ofHead head = _
      rw [located]
      rfl
  | none =>
      have unguarded := List.find?_eq_none.mp guarded
      cases last : (Head.all false text).getLast? with
      | none =>
          have nothing := List.getLast?_eq_none_iff.mp last
          refine .inl ⟨Phrase.callCount_eq_zero_iff.mpr ?_, rfl⟩
          intro name member
          have listed : name.text ∈ (formula.lexemes.filterMap Lexeme.name?).map
              FunctionName.text :=
            List.mem_map_of_mem (List.mem_filterMap.mpr ⟨_, member, rfl⟩)
          rw [← mark.names, nothing] at listed
          cases listed
      | some head =>
          obtain ⟨earlier, split⟩ := List.getLast?_eq_some_iff.mp last
          obtain ⟨context, name, arguments, call, shape, around, located, marks⟩ :=
            exists_ofHead mark split (by
              intro other member
              have free := unguarded other (by rw [split]; exact List.mem_append_left _ member)
              simpa using free)
          refine .inr ⟨context, name, arguments, call, shape, around, ?_, marks⟩
          change some <$> ofHead head = _
          rw [located]
          rfl

end QuantityFormula
