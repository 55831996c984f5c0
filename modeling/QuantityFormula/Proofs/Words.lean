import QuantityFormula.Proofs.Literal
import QuantityFormula.Proofs.Surroundings

/-!
Words of a text. Every call has a word of its own for its name, and a number in the place of a call
brings no word with it. So the number of words bounds what is left to be done on a text: all the
calls still to be replaced by the words that could be names, and all the guarded calls inside of one
another by the words that are the name of the guard.
-/

set_option autoImplicit false

namespace QuantityFormula

open Text

theorem forall_mem_write {x : Float} (finite : x.isFinite = true) :
    ∀ c ∈ Decimal.write x, Token.isNumberChar c = true ∨ c ∈ ['(', '-', ')'] := by
  have digits := (Numeral.ofMagnitude x).isNumeral.1
  rw [write_of_finite finite]
  intro c member
  split at member
  · rcases List.mem_cons.mp member with rfl | later
    · exact .inr (by decide)
    · exact .inl (digits c later)
  · exact .inl (digits c member)

theorem forall_mem_inlineNumber {x : Float} (finite : x.isFinite = true) :
    ∀ c ∈ inlineNumber x, Token.isNumberChar c = true ∨ c ∈ ['(', '-', ')'] := by
  intro c member
  unfold inlineNumber at member
  split at member
  · rcases List.mem_append.mp member with inFront | last
    · rcases List.mem_cons.mp inFront with rfl | inside
      · exact .inr (by decide)
      · exact forall_mem_write finite c inside
    · rw [List.mem_singleton.mp last]
      exact .inr (by decide)
  split at member
  · rw [List.mem_singleton.mp member]
    exact .inl rfl
  · exact forall_mem_write finite c member

theorem write_ne_nil {x : Float} (finite : x.isFinite = true) : Decimal.write x ≠ [] := by
  rw [write_of_finite finite]
  split
  · exact List.cons_ne_nil _ _
  · exact Numeral.text_ne_nil _

theorem inlineNumber_ne_nil {x : Float} (finite : x.isFinite = true) : inlineNumber x ≠ [] := by
  unfold inlineNumber
  split
  · exact List.cons_ne_nil _ _
  split
  · exact List.cons_ne_nil _ _
  · exact write_ne_nil finite

/-- No character of a number text is blank. -/
theorem isBlankChar_eq_false {c : Char}
    (plain : Token.isNumberChar c = true ∨ c ∈ ['(', '-', ')']) :
    isBlankChar c = false := by
  rcases plain with numeric | sign
  · refine Bool.eq_false_iff.mpr fun blank => ?_
    rw [(isBlankChar_separates blank).2.2.2.1] at numeric
    cases numeric
  · exact forall_eq_false_of_any rfl c sign

/-- A way to count words: the longest runs of its characters, as far as they count. -/
structure WordKind where
  belongs : Char → Bool
  counts : Text → Bool
  counts_nil : counts [] = false
  of_isNameChar : ∀ c, Head.isNameChar c = true → belongs c = true
  isWordChar : ∀ c, belongs c = true → isWordChar c = true
  /-- A digit in front of a word does not make it count. -/
  of_digit : ∀ c run, Token.isNumberChar c = true → counts (c :: run) = true → counts run = true

namespace WordKind

def count (kind : WordKind) (text : Text) : Nat :=
  (text.splitOnP fun c => !kind.belongs c).countP kind.counts

variable (kind : WordKind)

/-! ### Words of a text and of its parts -/

/-- All about the words of a text follows from this: they are parted by every other character. -/
theorem count_append_cons {c : Char} (other : kind.belongs c = false) (left right : Text) :
    kind.count (left ++ c :: right) = kind.count left + kind.count right := by
  rw [count, List.splitOnP_append_cons _ _ (by rw [other]; rfl), List.countP_append]
  rfl

private theorem count_nil : kind.count [] = 0 := by
  rw [count, List.splitOnP_nil, List.countP_singleton, kind.counts_nil]
  rfl

theorem count_cons {c : Char} (other : kind.belongs c = false) (text : Text) :
    kind.count (c :: text) = kind.count text := by
  have parted := kind.count_append_cons other [] text
  rwa [count_nil, Nat.zero_add] at parted

private theorem count_word {word : Text} (members : ∀ c ∈ word, kind.belongs c = true) :
    kind.count word = if kind.counts word = true then 1 else 0 := by
  rw [count, List.splitOnP_eq_singleton
    fun c member => by rw [members c member]; rfl, List.countP_singleton]

private theorem count_append_of_forall {piece : Text} (others : ∀ c ∈ piece, kind.belongs c = false)
    (text : Text) :
    kind.count (piece ++ text) = kind.count text := by
  induction piece with
  | nil => rfl
  | cons c piece ih =>
      rw [List.cons_append, kind.count_cons (others c List.mem_cons_self),
        ih fun other member => others other (List.mem_cons_of_mem _ member)]

private theorem count_append_of_head {left right : Text}
    (apart : ∀ c ∈ right.head?, kind.belongs c = false) :
    kind.count (left ++ right) = kind.count left + kind.count right := by
  cases right with
  | nil => rw [List.append_nil, count_nil, Nat.add_zero]
  | cons c right =>
      have other := apart c rfl
      rw [kind.count_append_cons other, kind.count_cons other]

private theorem count_append_of_getLast {left right : Text}
    (apart : ∀ c ∈ left.getLast?, kind.belongs c = false) :
    kind.count (left ++ right) = kind.count left + kind.count right := by
  rcases List.eq_nil_or_concat left with rfl | ⟨front, c, rfl⟩
  · rw [List.nil_append, count_nil, Nat.zero_add]
  · have other := apart c (by simp)
    rw [List.concat_eq_append, List.append_assoc, List.singleton_append,
      kind.count_append_cons other, kind.count_append_cons other, count_nil, Nat.add_zero]

private theorem belongs_eq_false {c : Char} (apart : Text.isWordChar c = false) :
    kind.belongs c = false := by
  rw [Bool.eq_false_iff]
  intro belongs
  rw [kind.isWordChar c belongs] at apart
  cases apart

private theorem count_blanks {gap : Text} (blank : isBlank gap = true) (text : Text) :
    kind.count (gap ++ text) = kind.count text :=
  kind.count_append_of_forall
    (fun c member => kind.belongs_eq_false
      (isBlankChar_separates (List.all_eq_true.mp blank c member)).1) text

private theorem count_append_blanks {gap : Text} (blank : isBlank gap = true) (text : Text) :
    kind.count (text ++ gap) = kind.count text := by
  have nothing : kind.count gap = 0 := by
    have alone := kind.count_blanks blank []
    rwa [List.append_nil, count_nil] at alone
  rw [kind.count_append_of_head, nothing, Nat.add_zero]
  intro c first
  exact kind.belongs_eq_false
    (isBlankChar_separates (List.all_eq_true.mp blank c (List.mem_of_mem_head? first))).1

theorem count_trim (text : Text) : kind.count (trim text) = kind.count text := by
  obtain ⟨before, after, beforeBlank, afterBlank, whole⟩ := exists_trim text
  conv_rhs => rw [whole, kind.count_blanks beforeBlank, kind.count_append_blanks afterBlank]

/-- The words of the items of a list are the words of the list. -/
theorem sum_count_splitCommas (text : Text) :
    ((splitCommas text).map kind.count).sum = kind.count text := by
  have joined (pieces : List Text) : kind.count ([','].intercalate pieces) =
      (pieces.map kind.count).sum := by
    induction pieces with
    | nil => exact kind.count_nil
    | cons first pieces ih =>
        cases pieces with
        | nil => simp [List.intercalate]
        | cons second pieces =>
            have comma : kind.belongs ',' = false := kind.belongs_eq_false rfl
            rw [List.intercalate_cons_cons, List.append_assoc, List.singleton_append,
              kind.count_append_cons comma, ih]
            simp only [List.map_cons, List.sum_cons]
  rw [← joined, splitCommas, intercalate_splitCommasFrom]

theorem sum_count_splitArguments {arguments : Text} {items : List Text}
    (split : Call.splitArguments arguments = .ok items) :
    (items.map kind.count).sum ≤ kind.count arguments := by
  unfold Call.splitArguments at split
  split at split
  · cases split
    exact Nat.zero_le _
  dsimp only at split
  split at split
  · cases split
  · cases split
    have trimmed : kind.count ∘ trim = kind.count := funext kind.count_trim
    rw [List.map_map, trimmed, sum_count_splitCommas]

/-! ### Words of a text with a call -/

private theorem belongs_of_continuesWord {before : Text}
    (fresh : Head.continuesWord false before = false) :
    ∀ c ∈ before.getLast?, kind.belongs c = false := by
  intro c last
  exact kind.belongs_eq_false (Head.continuesWord_eq_false_iff.mp fresh c last)

/-- A call has its name and its arguments for its words. -/
theorem count_of_parts {call : Call} {text : Text} (parts : call.Parts text) :
    kind.count text = kind.count call.before + (if kind.counts call.name = true then 1 else 0) +
      kind.count call.arguments + kind.count call.after := by
  obtain ⟨name, gap, blank, named, rfl, fresh, _⟩ := parts
  have opening : kind.belongs '(' = false := kind.belongs_eq_false rfl
  have closing : kind.belongs ')' = false := kind.belongs_eq_false rfl
  have members : ∀ c ∈ name.text, kind.belongs c = true := by
    intro c member
    rcases List.mem_cons.mp member with rfl | later
    · exact kind.of_isNameChar _ (Head.isNameChar_of_isNameStart name.start)
    · exact kind.of_isNameChar _ (name.following c later)
  have arguments := kind.count_append_cons closing call.arguments call.after
  have behindName : ∀ c ∈ (gap ++ '(' :: (call.arguments ++ ')' :: call.after)).head?,
      kind.belongs c = false := by
    intro c first
    cases gap with
    | nil =>
        cases first
        exact opening
    | cons d gap =>
        cases first
        rw [isBlank, List.all_cons, Bool.and_eq_true] at blank
        exact kind.belongs_eq_false (isBlankChar_separates blank.1).1
  rw [kind.count_append_of_getLast (kind.belongs_of_continuesWord fresh),
    kind.count_append_of_head behindName, kind.count_word members, kind.count_blanks blank,
    kind.count_cons opening, arguments, named]
  omega

private theorem count_cons_le {c : Char}
    (numeric : Token.isNumberChar c = true ∨ Text.isWordChar c = false) (text : Text) :
    kind.count (c :: text) ≤ kind.count text := by
  cases member : kind.belongs c with
  | false => rw [kind.count_cons member]
  | true =>
      rcases numeric with digit | apart
      · obtain ⟨first, others, split⟩ :=
          List.exists_cons_of_ne_nil (List.splitOnP_ne_nil (fun c => !kind.belongs c) text)
        rw [count, List.splitOnP_cons_eq_if_modifyHead, member, Bool.not_true,
          if_neg Bool.false_ne_true, count, split, List.modifyHead_cons,
          List.countP_cons, List.countP_cons]
        have counted := kind.of_digit c first digit
        split <;> split <;> simp_all
      · rw [kind.belongs_eq_false apart] at member
        cases member

private theorem count_inlineNumber_append_le {x : Float}
    (finite : x.isFinite = true) (text : Text) :
    kind.count (inlineNumber x ++ text) ≤ kind.count text := by
  have chars := forall_mem_inlineNumber finite
  generalize inlineNumber x = number at chars
  induction number with
  | nil => exact Nat.le_refl _
  | cons c digits ih =>
      have numeric : Token.isNumberChar c = true ∨ Text.isWordChar c = false := by
        rcases chars c List.mem_cons_self with digit | sign
        · exact .inl digit
        · exact .inr (forall_eq_false_of_any rfl c sign)
      exact (kind.count_cons_le numeric _).trans
        (ih fun other member => chars other (List.mem_cons_of_mem _ member))

/-- With a number in its place a call takes its words with it. -/
theorem count_replaceBy_le {call : Call} {text : Text} (parts : call.Parts text) {x : Float}
    (finite : x.isFinite = true) :
    kind.count (call.replaceBy (inlineNumber x)) ≤
      kind.count call.before + kind.count call.after := by
  obtain ⟨_, _, _, _, _, fresh, _⟩ := parts
  rw [Call.replaceBy, List.append_assoc,
    kind.count_append_of_getLast (kind.belongs_of_continuesWord fresh)]
  exact Nat.add_le_add_left (kind.count_inlineNumber_append_le finite _) _

end WordKind

/-! ### The two kinds -/

/-- The words that could be names: runs of capitals, digits and underscores that are no plain
numbers. -/
def nameWords : WordKind where
  belongs := Head.isNameChar
  counts run := run.any Head.isNameStart
  counts_nil := rfl
  of_isNameChar _ named := named
  isWordChar _ named := Head.isWordChar_of_isNameChar named
  of_digit c run digit counted := by
    rwa [List.any_cons, Head.isNameStart_of_isNumberChar digit, Bool.false_or] at counted

def guardWords : WordKind where
  belongs := isWordChar
  counts run := run == Builtin.ifError.name.toList
  counts_nil := by decide
  of_isNameChar _ named := Head.isWordChar_of_isNameChar named
  isWordChar _ word := word
  of_digit c run digit counted := by
    have name : Builtin.ifError.name.toList = 'I' :: ['F', 'E', 'R', 'R', 'O', 'R'] := by decide
    rw [beq_iff_eq, name] at counted
    rw [(List.cons.inj counted).1] at digit
    cases digit

theorem nameWords_counts {call : Call} {text : Text} (parts : call.Parts text) :
    nameWords.counts call.name = true := by
  obtain ⟨name, _, _, named, _⟩ := parts
  change call.name.any Head.isNameStart = true
  rw [named, FunctionName.text, List.any_cons, name.start]
  rfl

theorem guardWords_counts {name : Text} (guarded : Call.isGuardedName name = true) :
    guardWords.counts name = true := by
  unfold Call.isGuardedName at guarded
  cases found : Builtin.ofName? name with
  | none =>
      rw [found] at guarded
      cases guarded
  | some builtin =>
      have same := List.find?_some found
      rw [found] at guarded
      cases builtin with
      | calculation c => cases guarded
      | ifError => rwa [BEq.comm] at same

/-- A pass takes the name of its call out of the text. -/
theorem nameWords_replaceBy_lt {call : Call} {text : Text} (parts : call.Parts text) {x : Float}
    (finite : x.isFinite = true) :
    nameWords.count (call.replaceBy (inlineNumber x)) < nameWords.count text := by
  have words := nameWords.count_of_parts parts
  have few := nameWords.count_replaceBy_le parts finite
  rw [nameWords_counts parts, if_pos rfl] at words
  omega

theorem WordKind.count_le_of_mem_splitArguments (kind : WordKind)
    {arguments item : Text} {items : List Text}
    (split : Call.splitArguments arguments = .ok items) (member : item ∈ items) :
    kind.count item ≤ kind.count arguments :=
  (List.single_le_sum (fun _ _ => Nat.zero_le _) _ (List.mem_map_of_mem member)).trans
    (kind.sum_count_splitArguments split)

/-- Induction along the calls of a text: on the arguments of the next one, and on the text with a
number in its place. Both have fewer words. -/
theorem Text.callInduction {motive : Text → Prop}
    (blocked : ∀ text, Call.next? text = .ok none → motive text)
    (failed : ∀ text fault, Call.next? text = .error fault → motive text)
    (next : ∀ text call, Call.next? text = .ok (some call) →
      (∀ items item, Call.splitArguments call.arguments = .ok items → item ∈ items → motive item) →
      (∀ x : Float, x.isFinite = true → motive (call.replaceBy (inlineNumber x))) → motive text)
    (text : Text) : motive text := by
  induction size : nameWords.count text using Nat.strongRecOn generalizing text with
  | ind count ih =>
      subst size
      cases found : Call.next? text with
      | error fault => exact failed text fault found
      | ok call? =>
          cases call? with
          | none => exact blocked text found
          | some call =>
              have parts := Call.parts_of_next? found
              have words := nameWords.count_of_parts parts
              rw [nameWords_counts parts, if_pos rfl] at words
              refine next text call found ?_ ?_
              · intro items item split member
                have few := nameWords.count_le_of_mem_splitArguments split member
                exact ih _ (by omega) item rfl
              · intro x finite
                exact ih _ (nameWords_replaceBy_lt parts finite) _ rfl

end QuantityFormula
