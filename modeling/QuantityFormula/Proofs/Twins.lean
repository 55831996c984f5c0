import QuantityFormula.Proofs.Items
import QuantityFormula.Proofs.Lockstep
import QuantityFormula.Proofs.Surroundings

/-!
Twin texts. They share their characters, apart from blocks in which they differ. If no block
reaches into a head and every block is an item by itself, twins have the same calls in the same
places, with twins for arguments, and stay twins with numbers in the place of the calls. So
they are resolved in step.
-/

set_option autoImplicit false

namespace QuantityFormula

open Text

namespace Text

private theorem splitClosing?_cons {depth : Nat} {c : Char}
    (goesOn : ¬(depth = 0 ∧ c = ')')) (text : Text) :
    splitClosing? depth (c :: text) =
      (splitClosing? (if c = '(' then depth + 1 else if c = ')' then depth - 1 else depth) text).map
        fun (inside, after) => (c :: inside, after) := by
  rw [splitClosing?]
  rintro rfl rfl
  exact goesOn ⟨rfl, rfl⟩

private theorem splitClosing?_closed {piece : Text} {inside : Nat}
    (closed : isBalancedFrom inside piece = true) (depth : Nat) (rest : Text) :
    splitClosing? (depth + inside) (piece ++ rest) =
      (splitClosing? depth rest).map fun (inside, after) => (piece ++ inside, after) := by
  induction piece generalizing inside with
  | nil =>
      have outermost : inside = 0 := by simpa [isBalancedFrom] using closed
      rw [outermost]
      exact Option.map_id'.symm
  | cons c piece ih =>
      by_cases unopened : inside = 0 ∧ c = ')'
      · obtain ⟨rfl, rfl⟩ := unopened
        cases closed
      rw [isBalancedFrom_cons _ _ _ unopened] at closed
      have same : (if c = '(' then depth + inside + 1 else if c = ')' then depth + inside - 1
          else depth + inside) =
          depth + (if c = '(' then inside + 1 else if c = ')' then inside - 1 else inside) := by
        by_cases opening : c = '('
        · rw [if_pos opening, if_pos opening]
          rfl
        by_cases closing : c = ')'
        · have positive : inside ≠ 0 := fun outermost => unopened ⟨outermost, closing⟩
          rw [if_neg opening, if_neg opening, if_pos closing, if_pos closing]
          omega
        · rw [if_neg opening, if_neg opening, if_neg closing, if_neg closing]
      rw [List.cons_append, splitClosing?_cons (fun ends => unopened ⟨by omega, ends.2⟩), same,
        ih closed, Option.map_map]
      rfl

private theorem splitClosing?_neutral {piece : Text} (balanced : isBalanced piece = true)
    (depth : Nat) (rest : Text) :
    splitClosing? depth (piece ++ rest) =
      (splitClosing? depth rest).map fun (inside, after) => (piece ++ inside, after) :=
  splitClosing?_closed balanced depth rest

def trimEnd (text : Text) : Text :=
  (text.reverse.dropWhile isBlankChar).reverse

private theorem trimEnd_blank {gap : Text} (blank : isBlank gap = true) : trimEnd gap = [] := by
  rw [trimEnd, List.reverse_eq_nil_iff, List.dropWhile_eq_nil_iff]
  intro c member
  exact List.all_eq_true.mp blank c (List.mem_reverse.mp member)

private theorem trimEnd_append {piece text : Text}
    (solid : (∃ c ∈ piece.getLast?, isBlankChar c = false) ∨ isBlank text = false) :
    trimEnd (piece ++ text) = piece ++ trimEnd text := by
  rw [trimEnd, trimEnd, List.reverse_append, List.dropWhile_append]
  split
  · rename_i empty
    have blank : isBlank text = true := by
      rw [isBlank, List.all_eq_true]
      intro c member
      exact List.dropWhile_eq_nil_iff.mp (List.isEmpty_iff.mp empty) c (List.mem_reverse.mpr member)
    rcases solid with ⟨c, last, solid⟩ | solid
    · obtain ⟨front, rfl⟩ := List.getLast?_eq_some_iff.mp last
      rw [List.isEmpty_iff.mp empty, List.reverse_append, List.reverse_singleton,
        List.singleton_append, List.dropWhile_cons, solid, if_neg Bool.false_ne_true,
        List.reverse_cons, List.reverse_reverse, List.reverse_nil, List.append_nil]
    · rw [blank] at solid
      cases solid
  · rw [List.reverse_append, List.reverse_reverse]

end Text

/-- How twins are put together: which characters may stand behind what, and where blocks may stand.
A state tells what stands in front. -/
structure Seams where
  State : Type
  start : State
  afterWord : State → Bool
  /-- Whether a name may end here, or blanks behind one. -/
  Named : State → Prop
  Admits : State → Char → Prop
  behind : State → Char → State
  Block : State → Text → Text → State → Prop

/-- Texts with the same characters and with blocks in the same places, between two states. -/
inductive Twin (seams : Seams) : seams.State → Text → Text → seams.State → Prop where
  | nil (state : seams.State) : Twin seams state [] [] state
  | char {state final : seams.State} {c : Char} {left right : Text}
      (admitted : seams.Admits state c)
      (rest : Twin seams (seams.behind state c) left right final) : Twin seams state
        (c :: left) (c :: right) final
  | block {state next final : seams.State} {piece piece' left right : Text}
      (block : seams.Block state piece piece' next)
      (rest : Twin seams next left right final) : Twin seams state (piece ++ left)
        (piece' ++ right) final

def Seams.Opens (seams : Seams) (state : seams.State) : Prop :=
  ∃ c, seams.Admits state c ∧ Head.isNameStart c = true ∧ seams.afterWord state = false

def Text.IsFirm (text : Text) : Prop :=
  (∃ c ∈ text.head?, isBlankChar c = false) ∧ ∃ c ∈ text.getLast?, isBlankChar c = false

/-- A text that goes on neither with a word in front of it nor, behind a
name and blanks, to a head. -/
def Text.StandsOff (text : Text) : Prop :=
  ∃ c ∈ text.head?, isWordChar c = false ∧ isBlankChar c = false ∧ c ≠ '('

private theorem Text.StandsOff.exists_unnamed {text : Text} (off : StandsOff text) :
    ∃ c ∈ text.head?, Head.isNameChar c = false := by
  obtain ⟨c, first, apart, _⟩ := off
  exact ⟨c, first, Head.isNameChar_eq_false apart⟩

structure Seams.Lawful (seams : Seams) : Prop where
  separator : ∀ state c, c = '(' ∨ c = ',' → seams.behind state c = seams.start
  blank : ∀ c, isBlankChar c = true → seams.behind seams.start c = seams.start
  closing : ∀ state, seams.behind state ')' = seams.behind seams.start ')'
  afterWord_start : seams.afterWord seams.start = false
  afterWord_behind : ∀ state c, seams.afterWord (seams.behind state c) = isWordChar c
  named_of_name : ∀ state c, Head.isNameChar c = true → seams.Admits state c →
    seams.Named (seams.behind state c)
  named_of_blank : ∀ state c, isBlankChar c = true → seams.Named state →
    seams.Named (seams.behind state c)
  standsOff : ∀ {state piece piece' next}, seams.Block state piece piece' next → seams.Named state →
    StandsOff piece ∧ StandsOff piece'
  isItem : ∀ {state piece piece' next}, seams.Block state piece piece' next →
    IsItem piece ∧ IsItem piece'
  isFirm : ∀ {state piece piece' next}, seams.Block state piece piece' next →
    IsFirm piece ∧ IsFirm piece'
  heads : ∀ {state piece piece' next left right final}, seams.Block state piece piece' next →
    Twin seams next left right final →
      Head.all (seams.afterWord state) (piece ++ left) =
          (Head.all (seams.afterWord next) left).map (Head.keepAll piece) ∧
        Head.all (seams.afterWord state) (piece' ++ right) =
          (Head.all (seams.afterWord next) right).map (Head.keepAll piece')

def Twins (seams : Seams) (left right : Text) : Prop :=
  ∃ final, Twin seams seams.start left right final

namespace Twin

variable {seams : Seams} {state middle final : seams.State} {left right left' right' : Text}

theorem append (first : Twin seams state left right middle)
    (second : Twin seams middle left' right' final) :
    Twin seams state (left ++ left') (right ++ right') final := by
  induction first with
  | nil => exact second
  | char admitted rest ih => exact .char admitted (ih second)
  | block block rest ih =>
      rw [List.append_assoc, List.append_assoc]
      exact .block block (ih second)

/-- Twins begin with the same characters of a class that no block begins with. -/
theorem span (belongs : Char → Bool) (here : seams.State → Prop)
    (stays : ∀ state c, belongs c = true → here state → seams.Admits state c →
      here (seams.behind state c))
    (stops : ∀ {state piece piece' next}, seams.Block state piece piece' next → here state →
      (∃ c ∈ piece.head?, belongs c = false) ∧ ∃ c ∈ piece'.head?, belongs c = false)
    (twin : Twin seams state left right final) (atState : here state) :
    left.takeWhile belongs = right.takeWhile belongs ∧
      here ((left.takeWhile belongs).foldl seams.behind state) ∧
      Twin seams ((left.takeWhile belongs).foldl seams.behind state) (left.dropWhile belongs)
        (right.dropWhile belongs)
        final := by
  induction twin with
  | nil state => exact ⟨rfl, atState, .nil state⟩
  | @char state final c left right admitted rest ih =>
      by_cases member : belongs c = true
      · obtain ⟨same, atMiddle, behind⟩ := ih (stays state c member atState admitted)
        rw [List.takeWhile_cons, List.takeWhile_cons, List.dropWhile_cons,
          List.dropWhile_cons, if_pos member, if_pos member, if_pos member,
          if_pos member, List.foldl_cons]
        exact ⟨congrArg (c :: ·) same, atMiddle, behind⟩
      · rw [List.takeWhile_cons, List.takeWhile_cons, List.dropWhile_cons,
          List.dropWhile_cons, if_neg member, if_neg member, if_neg member, if_neg member]
        exact ⟨rfl, atState, .char admitted rest⟩
  | @block state next final piece piece' left right block rest ih =>
      have stopped {text : Text} (first : ∃ c ∈ text.head?, belongs c = false) (behind : Text) :
          (text ++ behind).takeWhile belongs = [] ∧
            (text ++ behind).dropWhile belongs = text ++ behind := by
        obtain ⟨c, first, outside⟩ := first
        obtain ⟨others, rfl⟩ := List.head?_eq_some_iff.mp first
        rw [List.cons_append, List.takeWhile_cons, List.dropWhile_cons, outside]
        exact ⟨rfl, rfl⟩
      obtain ⟨pieceStops, pieceStops'⟩ := stops block atState
      rw [(stopped pieceStops left).1, (stopped pieceStops left).2, (stopped pieceStops' right).1,
        (stopped pieceStops' right).2]
      exact ⟨rfl, atState, .block block rest⟩

/-! ### Heads -/

variable (lawful : seams.Lawful)
include lawful

/-- From a name on twins go on with the same name characters. -/
theorem spanName (twin : Twin seams state left right final) (named : seams.Named state) :
    left.takeWhile Head.isNameChar = right.takeWhile Head.isNameChar ∧
      seams.Named ((left.takeWhile Head.isNameChar).foldl seams.behind state) ∧
      Twin seams ((left.takeWhile Head.isNameChar).foldl seams.behind state)
        (left.dropWhile Head.isNameChar)
        (right.dropWhile Head.isNameChar) final :=
  twin.span Head.isNameChar seams.Named
    (fun state c member _ admitted => lawful.named_of_name state c member admitted)
    (fun block named => (lawful.standsOff block named).imp StandsOff.exists_unnamed
      StandsOff.exists_unnamed) named

theorem opened? (twin : Twin seams state left right final) (named : seams.Named state) :
    Head.opened? left = none ∧ Head.opened? right = none ∨
      ∃ after after', Head.opened? left = some after ∧ Head.opened? right = some after' ∧
        Twin seams seams.start after after' final := by
  cases twin with
  | nil => exact .inl ⟨rfl, rfl⟩
  | @char state final c left right admitted rest =>
      by_cases opens : c = '('
      · subst opens
        rw [lawful.separator _ _ (.inl rfl)] at rest
        exact .inr ⟨left, right, rfl, rfl, rest⟩
      · have other (text : Text) : (c :: text).head? ≠ some '(' :=
          fun same => opens (Option.some.inj same)
        exact .inl ⟨Head.opened?_eq_none (other left), Head.opened?_eq_none (other right)⟩
  | block block rest =>
      have unopened {piece : Text} (off : StandsOff piece) (behind : Text) :
          Head.opened? (piece ++ behind) = none := by
        obtain ⟨c, first, _, _, other⟩ := off
        obtain ⟨others, rfl⟩ := List.head?_eq_some_iff.mp first
        exact Head.opened?_eq_none fun same => other (Option.some.inj same)
      obtain ⟨off, off'⟩ := lawful.standsOff block named
      exact .inl ⟨unopened off _, unopened off' _⟩

structure Heads (seams : Seams) (state : seams.State) (head head' : Head)
    (final : seams.State) : Prop where
  name : head.name = head'.name
  before : ∃ middle, Twin seams state head.before head'.before middle ∧ seams.Opens middle
  after : Twin seams seams.start head.after head'.after final

theorem here? {c : Char} (admitted : seams.Admits state c)
    (rest : Twin seams (seams.behind state c) left right final) :
    Option.Rel (fun head head' => Heads seams state head head' final)
      (Head.here? (seams.afterWord state) (c :: left))
      (Head.here? (seams.afterWord state) (c :: right)) := by
  rw [Head.here?_cons, Head.here?_cons]
  split
  · rename_i starts
    rw [Bool.and_eq_true, Bool.not_eq_true'] at starts
    have named := lawful.named_of_name _ c (Head.isNameChar_of_isNameStart starts.2) admitted
    -- The name goes on with the same characters on both sides, then come the same blanks.
    obtain ⟨sameName, namedBehind, restName⟩ := rest.spanName lawful named
    obtain ⟨_, namedBlanks, restBlanks⟩ := restName.span isBlankChar seams.Named
      (fun state c blank named _ => lawful.named_of_blank state c blank named)
      (fun block named => by
        obtain ⟨⟨c, first, _, solid, _⟩, ⟨c', first', _, solid', _⟩⟩ := lawful.standsOff block named
        exact ⟨⟨c, first, solid⟩, ⟨c', first', solid'⟩⟩) namedBehind
    rcases restBlanks.opened? lawful namedBlanks with
        ⟨nothing, nothing'⟩ | ⟨after, after', found, found', twins⟩
    · rw [nothing, nothing']
      exact .none
    · rw [found, found']
      exact .some ⟨congrArg (c :: ·) sameName, ⟨state, .nil state, c, admitted, starts.2, starts.1⟩,
        twins⟩
  · exact .none

theorem heads (twin : Twin seams state left right final) :
    List.Forall₂ (fun head head' => Heads seams state head head' final)
      (Head.all (seams.afterWord state) left)
      (Head.all (seams.afterWord state) right) := by
  induction twin with
  | nil => exact .nil
  | @char state final c left right admitted rest ih =>
      rw [lawful.afterWord_behind] at ih
      rw [Head.all, Head.all]
      refine List.rel_append ?_ ?_
      · have found := rest.here? lawful admitted
        generalize Head.here? (seams.afterWord state) (c :: left) = head at found ⊢
        generalize Head.here? (seams.afterWord state) (c :: right) = head' at found ⊢
        cases found with
        | none => exact .nil
        | some same => exact .cons same .nil
      · rw [List.forall₂_map_left_iff, List.forall₂_map_right_iff]
        refine ih.imp ?_
        rintro head head' ⟨name, ⟨middle, before, placed⟩, after⟩
        exact ⟨name, ⟨middle, .char admitted before, placed⟩, after⟩
  | @block state next final piece piece' left right block rest ih =>
      rw [(lawful.heads block rest).1, (lawful.heads block rest).2, List.forall₂_map_left_iff,
        List.forall₂_map_right_iff]
      refine ih.imp ?_
      rintro head head' ⟨name, ⟨middle, before, placed⟩, after⟩
      exact ⟨name, ⟨middle, .block block before, placed⟩, after⟩

/-! ### Groups and lists -/

/-- The groups that are open end in twins at one place. -/
theorem splitClosing? (twin : Twin seams state left right final) (depth : Nat) :
    Text.splitClosing? depth left = none ∧ Text.splitClosing? depth right = none ∨
      ∃ inside inside' after after' middle, Text.splitClosing? depth left = some (inside, after) ∧
        Text.splitClosing? depth right = some (inside', after') ∧
        Twin seams state inside inside' middle ∧
        Twin seams (seams.behind middle ')') after after' final := by
  induction twin generalizing depth with
  | nil => exact .inl ⟨by cases depth <;> rfl, by cases depth <;> rfl⟩
  | @char state final c left right admitted rest ih =>
      by_cases ends : depth = 0 ∧ c = ')'
      · obtain ⟨rfl, rfl⟩ := ends
        exact .inr ⟨[], [], left, right, state, rfl, rfl, .nil state, rest⟩
      · rw [splitClosing?_cons ends, splitClosing?_cons ends]
        rcases ih (if c = '(' then depth + 1 else if c = ')' then depth - 1 else depth) with
          ⟨nothing, nothing'⟩ | ⟨inside, inside', after, after', middle, found,
            found', within, behind⟩
        · rw [nothing, nothing']
          exact .inl ⟨rfl, rfl⟩
        · rw [found, found']
          exact .inr ⟨c :: inside, c :: inside', after, after', middle, rfl, rfl,
            .char admitted within, behind⟩
  | @block state next final piece piece' left right block rest ih =>
      obtain ⟨isItem, isItem'⟩ := lawful.isItem block
      rw [splitClosing?_neutral (isNeutral_iff.mp isItem.isNeutral),
        splitClosing?_neutral (isNeutral_iff.mp isItem'.isNeutral)]
      rcases ih depth with
        ⟨nothing, nothing'⟩ | ⟨inside, inside', after, after', middle, found,
          found', within, behind⟩
      · rw [nothing, nothing']
        exact .inl ⟨rfl, rfl⟩
      · rw [found, found']
        exact .inr ⟨_, _, after, after', middle, rfl, rfl, .block block within, behind⟩

theorem splitCommasFrom (twin : Twin seams state left right final) {depth : Nat}
    (balanced : isBalancedFrom depth left = true) :
    ∃ first first' others others' middle, Text.splitCommasFrom depth left = first :: others ∧
      Text.splitCommasFrom depth right = first' :: others' ∧ Twin seams state first first' middle ∧
      List.Forall₂ (Twins seams) others others' := by
  induction twin generalizing depth with
  | nil state => exact ⟨[], [], [], [], state, rfl, rfl, .nil state, .nil⟩
  | @char state final c left right admitted rest ih =>
      by_cases unopened : depth = 0 ∧ c = ')'
      · obtain ⟨rfl, rfl⟩ := unopened
        cases balanced
      rw [isBalancedFrom_cons _ _ _ unopened] at balanced
      obtain ⟨first, first', others, others', middle, split, split', same, sameOthers⟩ :=
        ih balanced
      rw [Text.splitCommasFrom, Text.splitCommasFrom]
      by_cases outer : c = ',' ∧ (depth : Int) = 0
      · obtain ⟨rfl, outermost⟩ := outer
        rw [if_pos ⟨rfl, outermost⟩, if_pos ⟨rfl, outermost⟩]
        change Text.splitCommasFrom depth left = _ at split
        change Text.splitCommasFrom depth right = _ at split'
        rw [split, split']
        rw [lawful.separator _ _ (.inr rfl)] at same
        exact ⟨[], [], _, _, state, rfl, rfl, .nil state, .cons ⟨middle, same⟩ sameOthers⟩
      · rw [if_neg outer, if_neg outer, add_parenWeight unopened, split, split']
        exact ⟨c :: first, c :: first', others, others', middle, rfl, rfl,
          .char admitted same, sameOthers⟩
  | @block state next final piece piece' left right block rest ih =>
      obtain ⟨isItem, isItem'⟩ := lawful.isItem block
      rw [isItem.isNeutral] at balanced
      obtain ⟨first, first', others, others', middle, split, split', same, sameOthers⟩ :=
        ih balanced
      rw [splitCommasFrom_item_within isItem, splitCommasFrom_item_within isItem', split,
        split', foldr_consFirst, foldr_consFirst]
      exact ⟨_, _, others, others', middle, rfl, rfl, .block block same, sameOthers⟩

/-! ### Blanks -/

omit lawful in
private theorem isBlank_of_isFirm {piece : Text} (firm : IsFirm piece) (text : Text) :
    isBlank (piece ++ text) = false := by
  obtain ⟨⟨c, first, solid⟩, _⟩ := firm
  rw [isBlank, List.all_eq_false]
  exact ⟨c, List.mem_append_left _
    (List.mem_of_mem_head? first), by rw [solid]; exact Bool.false_ne_true⟩

private theorem isBlank_eq (twin : Twin seams state left right final) :
    isBlank left = isBlank right := by
  induction twin with
  | nil => rfl
  | char admitted rest ih => exact congrArg (_ && ·) ih
  | block block rest ih =>
      obtain ⟨firm, firm'⟩ := lawful.isFirm block
      rw [isBlank_of_isFirm firm, isBlank_of_isFirm firm']

private theorem trimEnd (twin : Twin seams state left right final) :
    ∃ middle, Twin seams state (Text.trimEnd left) (Text.trimEnd right) middle := by
  induction twin with
  | nil state => exact ⟨state, .nil state⟩
  | @char state final c left right admitted rest ih =>
      obtain ⟨middle, trimmed⟩ := ih
      have same := rest.isBlank_eq lawful
      by_cases blank : isBlankChar c = true ∧ isBlank left = true
      · have whole (text : Text) (rest : isBlank text = true) : isBlank (c :: text) = true := by
          rw [isBlank, List.all_cons, blank.1]
          exact rest
        rw [trimEnd_blank (whole left blank.2), trimEnd_blank (whole right (same ▸ blank.2))]
        exact ⟨state, .nil state⟩
      · have kept (text : Text) (rest : isBlank text = isBlank left) :
            Text.trimEnd (c :: text) = c :: Text.trimEnd text := by
          refine @trimEnd_append [c] text ?_
          rw [not_and_or, Bool.not_eq_true, Bool.not_eq_true, ← rest] at blank
          exact blank.imp_left fun solid => ⟨c, rfl, solid⟩
        rw [kept left rfl, kept right same.symm]
        exact ⟨middle, .char admitted trimmed⟩
  | block block rest ih =>
      obtain ⟨middle, trimmed⟩ := ih
      obtain ⟨⟨_, last⟩, ⟨_, last'⟩⟩ := lawful.isFirm block
      rw [trimEnd_append (.inl last), trimEnd_append (.inl last')]
      exact ⟨middle, .block block trimmed⟩

end Twin

/-! ### Calls of twins -/

namespace Twins

variable {seams : Seams} {left right : Text}

theorem trim (lawful : seams.Lawful) (twins : Twins seams left right) :
    Twins seams (Text.trim left) (Text.trim right) := by
  obtain ⟨final, twin⟩ := twins
  obtain ⟨_, atStart, rest⟩ := twin.span isBlankChar (· = seams.start)
    (fun _ c blank atStart _ => atStart ▸ lawful.blank c blank)
    (fun block _ => by
      obtain ⟨⟨first, _⟩, ⟨first', _⟩⟩ := lawful.isFirm block
      exact ⟨first, first'⟩) rfl
  rw [atStart] at rest
  exact rest.trimEnd lawful

theorem splitArguments (lawful : seams.Lawful) (twins : Twins seams left right)
    (balanced : isBalanced left = true) :
    Alike (List.Forall₂ (Twins seams)) (Call.splitArguments left) (Call.splitArguments right) := by
  obtain ⟨final, twin⟩ := twins
  have fromStart : isBalancedFrom 0 left = true := balanced
  obtain ⟨first, first', others, others', middle, split, split', same, sameOthers⟩ :=
    twin.splitCommasFrom lawful fromStart
  have items : List.Forall₂ (Twins seams) (splitCommas left) (splitCommas right) := by
    change List.Forall₂ _ (splitCommasFrom ((0 : Nat) : Int) left)
      (splitCommasFrom ((0 : Nat) : Int) right)
    rw [split, split']
    exact .cons ⟨middle, same⟩ sameOthers
  have trimmed : List.Forall₂ (Twins seams) ((splitCommas left).map Text.trim)
      ((splitCommas right).map Text.trim) := by
    rw [List.forall₂_map_left_iff, List.forall₂_map_right_iff]
    exact items.imp fun _ _ twins => twins.trim lawful
  have empty : ((splitCommas left).map Text.trim).any List.isEmpty =
      ((splitCommas right).map Text.trim).any List.isEmpty := by
    rw [List.any_map, List.any_map]
    generalize splitCommas left = pieces at items
    generalize splitCommas right = pieces' at items
    clear trimmed
    induction items with
    | nil => rfl
    | @cons piece piece' _ _ first rest ih =>
        obtain ⟨_, first⟩ := first
        rw [List.any_cons, List.any_cons, ih, Function.comp_apply, Function.comp_apply,
          isEmpty_trim, isEmpty_trim, first.isBlank_eq lawful]
  unfold Call.splitArguments
  rw [twin.isBlank_eq lawful]
  split
  · exact .ok .nil
  · dsimp only
    rw [empty]
    split
    · exact .fault (fun _ => nofun) (fun _ => nofun)
    · exact .ok trimmed

end Twins

end QuantityFormula
