import QuantityFormula.Proofs.QuotedTexts
import QuantityFormula.Proofs.Validation

/-!
Characters that are no part of any formula. A call cuts a piece out of a text, but a function that
is no guard looks at all of its arguments, so a piece with such a character in it has no value. Only
a guard can pass over it, and a guard needs its name: the numbers that are put into a text never
bring the name with them. So behind a text without the name such a character always makes the
evaluation fail, and the quotes around a text given to a name are among these characters.
-/

set_option autoImplicit false

namespace QuantityFormula

open Text

/-! ### Texts without the name of the guard -/

def Text.IsUnguarded (text : Text) : Prop :=
  ¬Builtin.ifError.name.toList <:+: text

instance (text : Text) : Decidable text.IsUnguarded :=
  inferInstanceAs (Decidable ¬_)

private theorem prefix_of_prefix_append_cons {word left right : Text} {c : Char} (apart : c ∉ word)
    (starts : word <+: left ++ c :: right) : word <+: left := by
  induction left generalizing word with
  | nil =>
      cases word with
      | nil => exact List.nil_prefix
      | cons d word =>
          obtain ⟨rfl, _⟩ := List.cons_prefix_cons.mp starts
          exact absurd List.mem_cons_self apart
  | cons e left ih =>
      cases word with
      | nil => exact List.nil_prefix
      | cons d word =>
          obtain ⟨rfl, following⟩ := List.cons_prefix_cons.mp starts
          exact List.cons_prefix_cons.mpr
            ⟨rfl, ih (fun member => apart (List.mem_cons_of_mem _ member)) following⟩

/-- A word that stands in a text stands on one side of every character that is none of its own. -/
private theorem infix_cases_of_append_cons {word left right : Text} {c : Char} (apart : c ∉ word)
    (inside : word <:+: left ++ c :: right) : word <:+: left ∨ word <:+: right := by
  induction left with
  | nil =>
      rcases List.infix_cons_iff.mp inside with starts | later
      · exact .inl (prefix_of_prefix_append_cons apart starts).isInfix
      · exact .inr later
  | cons d left ih =>
      rcases List.infix_cons_iff.mp inside with starts | later
      · exact .inl (prefix_of_prefix_append_cons apart starts).isInfix
      · rcases ih later with inFront | behind
        · exact .inl (List.infix_cons_iff.mpr (.inr inFront))
        · exact .inr behind

namespace Text.IsUnguarded

private theorem of_infix {piece text : Text} (unguarded : IsUnguarded text)
    (inside : piece <:+: text) : IsUnguarded piece :=
  fun guarded => unguarded (guarded.trans inside)

private theorem append_number {left number right : Text} (leftUnguarded : IsUnguarded left)
    (rightUnguarded : IsUnguarded right)
    (some : number ≠ []) (plain : ∀ c ∈ number, Head.isNameStart c = false) :
    IsUnguarded (left ++ (number ++ right)) := by
  have apart : ∀ c ∈ number, c ∉ Builtin.ifError.name.toList := by
    intro c member named
    have capitals : Builtin.ifError.name.toList.all Head.isNameStart = true := by decide +kernel
    have capital := List.all_eq_true.mp capitals c named
    rw [plain c member] at capital
    cases capital
  induction number generalizing left with
  | nil => exact absurd rfl some
  | cons c number ih =>
      intro guarded
      rcases infix_cases_of_append_cons (apart c List.mem_cons_self) guarded with inFront | behind
      · exact leftUnguarded inFront
      · cases number with
        | nil => exact rightUnguarded behind
        | cons d number =>
            refine @ih [] ?_ (List.cons_ne_nil _ _) ?_ ?_ behind
            · exact leftUnguarded.of_infix List.nil_infix
            · exact fun other member => plain other (List.mem_cons_of_mem _ member)
            · exact fun other member => apart other (List.mem_cons_of_mem _ member)

end Text.IsUnguarded

/-- Wherever one text stands without the name of the guard, another one can stand without it. -/
def Text.SparesGuard (text other : Text) : Prop :=
  ∀ before after, IsUnguarded (before ++ (text ++ after)) → IsUnguarded (before ++ (other ++ after))

private theorem Text.isExchange_sparesGuard : IsExchange SparesGuard where
  refl _ _ _ unguarded := unguarded
  trans first second before after unguarded := second before after (first before after unguarded)
  append := by
    intro left left' right right' first second before after unguarded
    rw [List.append_assoc] at unguarded ⊢
    have placed := first before (right ++ after) unguarded
    rw [← List.append_assoc] at placed ⊢
    exact second (before ++ left') after placed

private theorem isNameStart_of_mem_number {c : Char}
    (plain : Token.isNumberChar c = true ∨ c ∈ ['(', '-', ')']) :
    Head.isNameStart c = false := by
  rcases plain with numeric | sign
  · exact Head.isNameStart_of_isNumberChar numeric
  · exact forall_eq_false_of_any rfl c sign

private theorem Text.SparesGuard.of_number {number : Text} (some : number ≠ [])
    (plain : ∀ c ∈ number, Head.isNameStart c = false) (text : Text) : SparesGuard text number := by
  intro before after unguarded
  refine IsUnguarded.append_number (unguarded.of_infix ?_) (unguarded.of_infix ?_) some plain
  · exact (List.prefix_append before _).isInfix
  · rw [← List.append_assoc]
    exact (List.suffix_append _ after).isInfix

private theorem Text.SparesGuard.isUnguarded {text other : Text} (spares : SparesGuard text other)
    (unguarded : IsUnguarded text) : IsUnguarded other := by
  have placed := spares [] []
  rw [List.nil_append, List.nil_append, List.append_nil, List.append_nil] at placed
  exact placed unguarded

/-! ### Foreign characters -/

/-- A character of no formula: no digit or dot, no sign or comma or parenthesis, no capital
or underscore, no blank. -/
def Text.isForeign (c : Char) : Bool :=
  !(c.isDigit || ['.', '+', '-', '*', '/', '%', '^', '(', ')', ','].contains c || c.isUpper ||
    c == '_' || isBlankChar c)

namespace Text

variable {c : Char}

private theorem isForeign_iff : isForeign c = true ↔ c.isDigit = false ∧
    c ∉ ['.', '+', '-', '*', '/', '%', '^', '(', ')', ','] ∧ c.isUpper = false ∧ c ≠ '_' ∧
    isBlankChar c = false := by
  simp only [isForeign, Bool.not_eq_true', Bool.or_eq_false_iff, and_assoc, List.contains_eq_mem,
    decide_eq_false_iff_not, beq_eq_false_iff_ne]

private theorem not_isLegal_of_isForeign (foreign : isForeign c = true) :
    Token.isLegal c = false := by
  obtain ⟨digit, sign, _, _, blank⟩ := isForeign_iff.mp foreign
  have dot : (c == '.') = false := beq_eq_false_iff_ne.mpr fun same => sign (by rw [same]; decide)
  have token : Token.ofChar? c = none := by
    cases found : Token.ofChar? c with
    | none => rfl
    | some token =>
        have listed : ['(', ')', '+', '-', '*', '/', '%', '^'] ⊆ ['.', '+', '-', '*', '/', '%', '^',
            '(', ')', ','] := by
          decide +kernel
        exact absurd (listed (Token.mem_of_ofChar? found)) sign
  rw [Token.isLegal, Token.isNumberChar, digit, dot, blank, token]
  rfl

private theorem isNameChar_of_isForeign (foreign : isForeign c = true) :
    Head.isNameChar c = false := by
  obtain ⟨digit, _, upper, underscore, _⟩ := isForeign_iff.mp foreign
  rw [Head.isNameChar, digit, upper, beq_eq_false_iff_ne.mpr underscore]
  rfl

end Text

/-! ### Where a character is -/

private theorem cases_of_append_eq_append_cons {left right before after : Text} {c : Char}
    (whole : left ++ right = before ++ c :: after) :
    (∃ middle, left = before ++ c :: middle ∧ after = middle ++ right) ∨
      ∃ middle, before = left ++ middle ∧ right = middle ++ c :: after := by
  rcases List.append_eq_append_iff.mp whole with
      ⟨middle, inFront, behind⟩ | ⟨middle, inFront, behind⟩
  · exact .inr ⟨middle, inFront, behind⟩
  · cases middle with
    | nil => exact .inr ⟨[], by simpa using inFront.symm, behind.symm⟩
    | cons d middle =>
        obtain ⟨rfl, following⟩ := List.cons.inj behind
        exact .inl ⟨middle, inFront, following⟩

private theorem exists_of_not_mem_left {left right before after : Text}
    {c : Char} (apart : c ∉ left)
    (whole : left ++ right = before ++ c :: after) :
    ∃ middle, before = left ++ middle ∧ right = middle ++ c :: after := by
  rcases cases_of_append_eq_append_cons whole with ⟨middle, rfl, _⟩ | found
  · simp at apart
  · exact found

private theorem exists_of_not_mem_right {left right before after : Text}
    {c : Char} (apart : c ∉ right)
    (whole : left ++ right = before ++ c :: after) :
    ∃ middle, left = before ++ c :: middle ∧ after = middle ++ right := by
  rcases cases_of_append_eq_append_cons whole with found | ⟨middle, _, rfl⟩
  · exact found
  · simp at apart

private theorem exists_piece_of_intercalate {pieces : List Text} {before after : Text}
    {c : Char} (other : c ≠ ',') (joined : [','].intercalate pieces = before ++ c :: after) :
    ∃ piece ∈ pieces, ∃ front back, piece = front ++ c :: back ∧ front <:+ before := by
  induction pieces generalizing before with
  | nil => simp [List.intercalate] at joined
  | cons first pieces ih =>
      cases pieces with
      | nil =>
          have alone : first = before ++ c :: after := by simpa [List.intercalate] using joined
          exact ⟨first, List.mem_singleton_self first, before, after, alone,
            List.suffix_refl before⟩
      | cons second pieces =>
          rw [List.intercalate_cons_cons, List.append_assoc] at joined
          rcases cases_of_append_eq_append_cons joined with ⟨middle, here, _⟩ | ⟨middle, rfl, later⟩
          · exact ⟨first, List.mem_cons_self, before, middle, here, List.suffix_refl before⟩
          · have comma : c ∉ [','] := by simpa using other
            obtain ⟨middle, rfl, behind⟩ := exists_of_not_mem_left comma later
            obtain ⟨piece, member, front, back, shape, suffix⟩ := ih behind
            refine ⟨piece, List.mem_cons_of_mem _ member, front, back, shape, ?_⟩
            rw [← List.append_assoc]
            exact suffix.trans (List.suffix_append _ middle)

private theorem exists_of_trim {before after : Text} {c : Char} (solid : isBlankChar c = false) :
    ∃ front back, trim (before ++ c :: after) = front ++ c :: back ∧ front <:+ before := by
  have apart {gap : Text} (blank : isBlank gap = true) : c ∉ gap := by
    intro member
    rw [List.all_eq_true.mp blank c member] at solid
    cases solid
  obtain ⟨leading, trailing, leadingBlank, trailingBlank, whole⟩ :=
    exists_trim (before ++ c :: after)
  obtain ⟨front, rfl, behind⟩ := exists_of_not_mem_left (apart leadingBlank) whole.symm
  obtain ⟨back, trimmed, _⟩ := exists_of_not_mem_right (apart trailingBlank) behind
  exact ⟨front, back, trimmed, List.suffix_append leading front⟩

private theorem Call.exists_item_of_isForeign {before after : Text} {c : Char}
    (foreign : isForeign c = true) {items : List Text}
    (split : splitArguments (before ++ c :: after) = .ok items) :
    ∃ item ∈ items, ∃ front back, item = front ++ c :: back ∧ front <:+ before := by
  obtain ⟨_, sign, _, _, solid⟩ := isForeign_iff.mp foreign
  have other : c ≠ ',' := fun same => sign (by rw [same]; decide)
  unfold splitArguments at split
  split at split
  · rename_i blank
    rw [isBlank, List.all_append, List.all_cons, solid, Bool.false_and, Bool.and_false] at blank
    cases blank
  · dsimp only at split
    split at split
    · cases split
    · cases split
      obtain ⟨piece, member, front, back, rfl, suffix⟩ :=
        exists_piece_of_intercalate other (intercalate_splitCommasFrom 0 (before ++ c :: after))
      obtain ⟨front', back', trimmed, shorter⟩ := @exists_of_trim front back _ solid
      exact ⟨_, List.mem_map_of_mem member, front', back', trimmed, shorter.trans suffix⟩

namespace Resolver

/-! ### Evaluation -/

/-- Behind a text without the name of the guard the character makes a text fail. -/
def Rejects (c : Char) (text : Text) : Prop :=
  ∀ before after, text = before ++ c :: after → IsUnguarded before →
    ∀ depth, ∃ fault, outcome depth text = .error fault

private theorem rejects_of_none {c : Char} (foreign : isForeign c = true) {text : Text}
    (blocked : Call.next? text = .ok none) :
    Rejects c text := by
  rintro before after rfl _ depth
  rw [outcome_of_none blocked]
  cases valued : Arithmetic.evaluate (before ++ c :: after) with
  | error fault => exact ⟨fault, rfl⟩
  | ok value =>
      obtain ⟨tokens, _, read, _⟩ := Arithmetic.exists_of_evaluate_eq_ok valued
      have legal := (Token.exists_ofText_iff.mp ⟨tokens, read⟩).1 c (by simp)
      rw [not_isLegal_of_isForeign foreign] at legal
      cases legal

private theorem exists_error_replacement {c : Char} (foreign : isForeign c = true) {call : Call}
    {before after : Text} (arguments : call.arguments = before ++ c :: after)
    (unguarded : call.name ≠ Builtin.ifError.name.toList)
    (each : ∀ items item, Call.splitArguments call.arguments = .ok items →
      item ∈ items → Rejects c item)
    (inFront : IsUnguarded before) (depth : Nat) :
    ∃ fault, replacement depth call = .error fault := by
  cases valued : replacement depth call with
  | error fault => exact ⟨fault, rfl⟩
  | ok x =>
      unfold replacement at valued
      cases found : Builtin.ofName? call.name with
      | none =>
          rw [found] at valued
          cases valued
      | some builtin =>
          rw [found] at valued
          obtain ⟨items, split, valued⟩ := exists_of_bind_eq_ok valued
          obtain ⟨value, apply, _⟩ := exists_of_bind_eq_ok valued
          cases builtin with
          | ifError =>
              have same := List.find?_some found
              exact absurd (beq_iff_eq.mp same).symm unguarded
          | calculation calculation =>
              obtain ⟨values, accepted, _⟩ := exists_of_bind_eq_ok apply
              have parted := split
              rw [arguments] at parted
              obtain ⟨item, member, front, back, shape, suffix⟩ :=
                Call.exists_item_of_isForeign foreign parted
              have frontUnguarded := inFront.of_infix suffix.isInfix
              obtain ⟨fault, failed⟩ :=
                each items item split member front back shape frontUnguarded depth
              obtain ⟨result, succeeds⟩ := exists_of_mapM_eq_ok accepted item member
              rw [failed] at succeeds
              cases succeeds

private theorem cases_of_span {c : Char} (foreign : isForeign c = true)
    {name : FunctionName} {gap : Text}
    (blank : isBlank gap = true) {arguments behind before after : Text}
    (shape : name.text ++ (gap ++ '(' :: (arguments ++ ')' :: behind)) = before ++ c :: after) :
    (∃ front back, arguments = front ++ c :: back ∧ before = name.text ++ (gap ++ '(' :: front)) ∨
      ∃ front, behind = front ++ c :: after ∧
        before = name.text ++ (gap ++ '(' :: (arguments ++ ')' :: front)) := by
  obtain ⟨_, sign, _, _, solid⟩ := isForeign_iff.mp foreign
  have inName : c ∉ name.text := by
    intro member
    have named := name.forall_mem_text c member
    rw [isNameChar_of_isForeign foreign] at named
    cases named
  have inGap : c ∉ gap ++ ['('] := by
    intro member
    rcases List.mem_append.mp member with inside | parenthesis
    · rw [List.all_eq_true.mp blank c inside] at solid
      cases solid
    · exact sign (by rw [List.mem_singleton.mp parenthesis]; decide)
  have closing : c ∉ [')'] :=
    fun parenthesis => sign (by rw [List.mem_singleton.mp parenthesis]; decide)
  obtain ⟨middle, rfl, behindName⟩ := exists_of_not_mem_left inName shape
  rw [← List.singleton_append, ← List.append_assoc] at behindName
  obtain ⟨front, rfl, opened⟩ := exists_of_not_mem_left inGap behindName
  rcases cases_of_append_eq_append_cons opened with ⟨back, inside, _⟩ | ⟨middle, rfl, closed⟩
  · exact .inl ⟨front, back, inside, by simp⟩
  · obtain ⟨front, rfl, later⟩ := exists_of_not_mem_left closing closed
    exact .inr ⟨front, later, by simp⟩

private theorem rejects_of_next {c : Char} (foreign : isForeign c = true)
    {text : Text} {call : Call} (next : Call.next? text = .ok (some call))
    (each : ∀ items item, Call.splitArguments call.arguments = .ok items →
      item ∈ items → Rejects c item)
    (behind : ∀ x : Float, x.isFinite = true → Rejects c (call.replaceBy (inlineNumber x))) :
    Rejects c text := by
  intro before after shape unguarded depth
  rw [outcome_of_next next]
  cases valued : replacement depth call with
  | error fault => exact ⟨fault, rfl⟩
  | ok x =>
      change ∃ fault, outcome depth (call.replaceBy (inlineNumber x)) = .error fault
      have finite := isFinite_of_replacement valued
      obtain ⟨name, gap, blank, named, rfl, _, _⟩ := Call.parts_of_next? next
      rcases cases_of_append_eq_append_cons shape with ⟨middle, inFront, _⟩ | ⟨middle, rfl, span⟩
      · refine behind x finite before (middle ++ (inlineNumber x ++ call.after)) ?_ unguarded depth
        rw [Call.replaceBy, inFront]
        simp
      rcases cases_of_span foreign blank span with
          ⟨front, back, arguments, rfl⟩ | ⟨front, later, rfl⟩
      · have other : call.name ≠ Builtin.ifError.name.toList := by
          intro guard
          refine unguarded (List.IsInfix.trans ?_ (List.suffix_append call.before _).isInfix)
          rw [← guard, named]
          exact (List.prefix_append name.text _).isInfix
        have frontUnguarded : IsUnguarded front := by
          apply unguarded.of_infix
          exact ⟨call.before ++ (name.text ++ (gap ++ ['('])), [], by simp⟩
        obtain ⟨fault, failed⟩ :=
          exists_error_replacement foreign arguments other each frontUnguarded depth
        rw [failed] at valued
        cases valued
      · refine behind x finite (call.before ++ (inlineNumber x ++ front)) after ?_ ?_ depth
        · rw [Call.replaceBy, later]
          simp
        · have plain := fun c member =>
            isNameStart_of_mem_number (forall_mem_inlineNumber finite c member)
          refine IsUnguarded.append_number ?_ ?_ (inlineNumber_ne_nil finite) plain
          · exact unguarded.of_infix (List.prefix_append _ _).isInfix
          · apply unguarded.of_infix
            exact ⟨call.before ++ (name.text ++ (gap ++ '(' :: (call.arguments ++ [')']))),
              [], by simp⟩

/-- No text takes a foreign character behind a text without the name of the guard. -/
theorem rejects {c : Char} (foreign : isForeign c = true) (text : Text) : Rejects c text := by
  refine Text.callInduction ?_ ?_ ?_ text
  · exact fun text blocked => rejects_of_none foreign blocked
  · exact fun text fault failed _ _ _ _ depth => ⟨fault, outcome_of_error failed depth⟩
  · exact fun text call next each behind => rejects_of_next foreign next each behind

private theorem exists_error_run {c : Char} (foreign : isForeign c = true) {before : Text}
    (unguarded : IsUnguarded before) (after : Text) (resolver : Resolver) :
    ∃ fault, ((evaluate (before ++ c :: after)).run resolver).1 = .error fault := by
  obtain ⟨fault, failed⟩ :=
    rejects foreign (before ++ c :: after) before after rfl unguarded resolver.depth
  rw [run_evaluate, failed]
  by_cases permits : resolver.Permits (spent resolver.depth (before ++ c :: after))
  · rw [spend_within permits]
    exact ⟨fault, rfl⟩
  · rw [spend_beyond permits]
    exact ⟨_, rfl⟩

end Resolver

/-! ### Texts given to names -/

namespace Text.SparesGuard

private theorem of_isFinite {x : Float} (finite : x.isFinite = true) (text : Text) :
    SparesGuard text (inlineNumber x) :=
  .of_number (inlineNumber_ne_nil finite)
    (fun c member => isNameStart_of_mem_number (forall_mem_inlineNumber finite c member))
    text

theorem substituteWords {bindings : Bindings} {text result : Text}
    (substituted : QuantityFormula.substituteWords bindings text = .ok result) :
    SparesGuard text result :=
  isExchange_sparesGuard.substituteWords
    (fun place _ _ finite => of_isFinite finite place.2) substituted

theorem substituteConstants (text : Text) :
    SparesGuard text (QuantityFormula.substituteConstants text) := by
  have finite : ∀ constant ∈ Constant.all, constant.value.isFinite = true := by decide +kernel
  refine isExchange_sparesGuard.substituteConstants (fun constant listed => ?_) text
  have plain := forall_mem_write (finite constant listed)
  exact .of_number (write_ne_nil (finite constant listed))
    (fun c member => isNameStart_of_mem_number (plain c member)) _

/-- A number in the place of a name spares the guard, with the words in front of it replaced. -/
theorem substituteReference {bindings : Bindings} {between name part : Text}
    (numeric : ∀ content, bindings.get? name ≠ some (.text content))
    (substituted : QuantityFormula.substituteReference bindings between name = .ok part) :
    SparesGuard (between ++ braced name) part := by
  unfold QuantityFormula.substituteReference at substituted
  split at substituted
  · cases substituted
  rename_i value bound
  cases value with
  | text content => exact absurd bound (numeric content)
  | number x =>
      obtain ⟨words, wordsSubstituted, substituted⟩ := exists_of_bind_eq_ok substituted
      obtain ⟨inlined, inlining, same⟩ := exists_of_bind_eq_ok substituted
      cases same
      obtain ⟨finite, rfl⟩ := exists_of_inlineFinite inlining
      exact isExchange_sparesGuard.append (.substituteWords wordsSubstituted)
        (.of_isFinite finite _)

end Text.SparesGuard

private theorem exists_first_text {bindings : Bindings} {places : List (Text × Text)}
    (some : ∃ place ∈ places, ∃ content, bindings.get? place.2 = .some (.text content)) :
    ∃ earlier between name later content, places = earlier ++ (between, name) :: later ∧
      bindings.get? name = .some (.text content) ∧
      ∀ place ∈ earlier, ∀ content, bindings.get? place.2 ≠ .some (.text content) := by
  induction places with
  | nil =>
      obtain ⟨_, member, _⟩ := some
      cases member
  | cons place places ih =>
      by_cases here : ∃ content, bindings.get? place.2 = .some (.text content)
      · obtain ⟨content, bound⟩ := here
        exact ⟨[], place.1, place.2, places, content, rfl, bound, nofun⟩
      · obtain ⟨other, member, content, bound⟩ := some
        rcases List.mem_cons.mp member with rfl | later
        · exact absurd ⟨content, bound⟩ here
        · obtain ⟨earlier, between, name, behind, content, rfl, bound, none⟩ :=
            ih ⟨other, later, content, bound⟩
          refine ⟨place :: earlier, between, name, behind, content, rfl, bound, ?_⟩
          intro first member content bound
          rcases List.mem_cons.mp member with rfl | inside
          · exact here ⟨content, bound⟩
          · exact none first inside content bound

private theorem exists_quote_of_substituteVariables {formula result : Text} {bindings : Bindings}
    (unguarded : IsUnguarded formula)
    {name content : Text} (referenced : name ∈ referencedNames formula)
    (bound : bindings.get? name = some (.text content))
    (substituted : substituteVariables formula bindings = .ok result) :
    ∃ before after, result = before ++ '"' :: after ∧ IsUnguarded before := by
  obtain ⟨parts, replaced, substituted⟩ := exists_of_bind_eq_ok substituted
  obtain ⟨rest, _, same⟩ := exists_of_bind_eq_ok substituted
  cases same
  rw [referencedNames, List.mem_eraseDups] at referenced
  obtain ⟨place, placeMember, rfl⟩ := List.mem_map.mp referenced
  obtain ⟨earlier, between, name, later, content, split, bound, none⟩ :=
    exists_first_text ⟨place, placeMember, content, bound⟩
  rw [split, List.mapM_append, List.mapM_cons] at replaced
  obtain ⟨earlierParts, earlierReplaced, replaced⟩ := exists_of_bind_eq_ok replaced
  obtain ⟨behindParts, behindReplaced, same⟩ := exists_of_bind_eq_ok replaced
  cases same
  obtain ⟨part, single, behindReplaced⟩ := exists_of_bind_eq_ok behindReplaced
  obtain ⟨laterParts, _, same⟩ := exists_of_bind_eq_ok behindReplaced
  cases same
  change substituteReference bindings between name = .ok part at single
  unfold substituteReference at single
  rw [bound] at single
  obtain ⟨words, wordsSubstituted, single⟩ := exists_of_bind_eq_ok single
  cases single
  refine ⟨earlierParts.flatten ++ words,
    content ++ '"' :: (laterParts.flatten ++ rest), by simp, ?_⟩
  have whole := fill_references formula
  rw [Text.Cuts.fill, split, List.flatMap_append, List.append_assoc] at whole
  have inFront : IsUnguarded
      (earlier.flatMap (fun place => place.1 ++ braced place.2) ++ between) := by
    apply unguarded.of_infix
    rw [← whole]
    exact ⟨[], braced name ++ later.flatMap (fun place => place.1 ++ braced place.2) ++
      (references formula).rest,
      by simp⟩
  refine SparesGuard.isUnguarded
    (isExchange_sparesGuard.append ?_ (.substituteWords wordsSubstituted)) inFront
  refine isExchange_sparesGuard.flatten braced earlierReplaced ?_
  exact fun place member part single => .substituteReference (none place member) single

namespace Engine

/-- Behind a text without the name of the guard a foreign character makes every evaluation fail. So
a formula without that name has no value if it refers to a name that a text was given to. -/
theorem exists_error_of_isForeign :
    (∀ (before after : Text) (c : Char), isForeign c = true → IsUnguarded before →
      ∀ resolver : Resolver,
        ∃ fault, ((Resolver.evaluate (before ++ c :: after)).run resolver).1 = .error fault) ∧
    ∀ (formula : Text) (bindings : Bindings) (name content : Text), IsUnguarded formula →
      name ∈ referencedNames formula →
      bindings.get? name = some (.text content) →
      ∀ engine : Engine, ∃ fault, engine.evaluate formula bindings = .error fault := by
  constructor
  · exact fun before after c foreign unguarded resolver =>
      Resolver.exists_error_run foreign unguarded after resolver
  · intro formula bindings name content unguarded referenced bound engine
    cases evaluated : engine.evaluate formula bindings with
    | error fault => exact ⟨fault, rfl⟩
    | ok value =>
        obtain ⟨_, text, substituted, resolved⟩ := exists_of_evaluate_eq_ok evaluated
        obtain ⟨before, after, rfl, inFront⟩ :=
          exists_quote_of_substituteVariables unguarded referenced bound substituted
        have apart : isWordChar '"' = false := rfl
        have quote : isForeign '"' = true := by decide
        rw [substituteConstants_append_cons apart] at resolved
        obtain ⟨fault, failed⟩ :=
          Resolver.exists_error_run quote
            ((SparesGuard.substituteConstants before).isUnguarded inFront)
          (substituteConstants after) (Resolver.fresh engine.maxPasses)
        rw [Resolver.runFresh, failed] at resolved
        cases resolved

/-- A dollar sign in an argument that a choice does not take, and a text with a guard around
the name it is given to. -/
theorem exists_error_of_isForeign_dollar :
    (∃ fault, ((Resolver.evaluate "IF(1, 2, 3$) + IFERROR(1, 2)".toList).run
        (Resolver.fresh 10)).1 = .error fault) ∧
      ∃ fault, standard.evaluate "ABS({x}) + 1".toList
        (Bindings.empty.bind "x".toList (.text "IFERROR(1, 2)".toList)) = .error fault := by
  constructor
  · exact exists_error_of_isForeign.1 "IF(1, 2, 3".toList ") + IFERROR(1, 2)".toList '$'
      (by decide) (by decide +kernel)
      (Resolver.fresh 10)
  · exact exists_error_of_isForeign.2 "ABS({x}) + 1".toList _ "x".toList "IFERROR(1, 2)".toList
      (by decide +kernel)
      (by decide +kernel) rfl standard

end Engine

end QuantityFormula
