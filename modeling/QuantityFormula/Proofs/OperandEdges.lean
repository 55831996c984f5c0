import QuantityFormula.Proofs.ConstantPlaces
import QuantityFormula.Proofs.Shallow
import QuantityFormula.Proofs.TwinResolution
import QuantityFormula.Proofs.Words

/-!
Numbers as operands of their own. A number put into a text is one operand if no name, no digit, no
dot and no other number touches it, and no closing parenthesis stands in front of it. Then it makes
no difference whether the number stands in parentheses: neither the calls of the text nor its tokens
change, but for the parentheses.
-/

set_option autoImplicit false

namespace QuantityFormula

open Text

/-- Text of a number in parentheses. A negative one stands in parentheses anyway. -/
def groupedNumber (x : Float) : Text :=
  if x < 0 then inlineNumber x else '(' :: (inlineNumber x ++ [')'])

theorem exists_numeral_inlineNumber {x : Float} (finite : x.isFinite = true) :
    ∃ numeral : Numeral,
      inlineNumber x = '(' :: '-' :: (numeral.text ++ [')']) ∧ groupedNumber x = inlineNumber x ∨
        inlineNumber x = numeral.text ∧ groupedNumber x = '(' :: (numeral.text ++ [')']) := by
  unfold groupedNumber
  by_cases negative : x < 0
  · have signed := Magnitude.isNegative_of_lt_zero finite negative
    refine ⟨.ofMagnitude x, .inl ⟨?_, if_pos negative⟩⟩
    rw [inlineNumber, if_pos negative, write_of_finite finite, if_pos signed,
      List.cons_append, List.cons_append]
  rw [if_neg negative]
  by_cases zero : (x == 0) = true
  · have same : inlineNumber x = Numeral.text .zero := by
      rw [inlineNumber, if_neg negative, if_pos zero]
      rfl
    exact ⟨.zero, .inr ⟨same, by rw [same]⟩⟩
  · have nonzero := Bool.eq_false_iff.mpr zero
    have unsigned := Magnitude.isNegative_of_zero_lt finite negative nonzero
    have same : inlineNumber x = (Numeral.ofMagnitude x).text := by
      rw [inlineNumber, if_neg negative, if_neg zero, write_of_finite finite, unsigned,
        if_neg Bool.false_ne_true]
    exact ⟨.ofMagnitude x, .inr ⟨same, by rw [same]⟩⟩

/-! ### Edges -/

def isOperandChar (c : Char) : Bool :=
  Head.isNameChar c || c == '.'

/-- What stands in front of a place: nothing that an operand could join, the last character of an
operand, or the end of an operand with nothing behind it but blanks. -/
inductive Edge where
  | free (afterWord : Bool)
  | joined (c : Char)
  | ended
  deriving DecidableEq

namespace Edge

/-- Whether a character may follow. One of an operand follows an operand only if both
are of one name or number. -/
def admits : Edge → Char → Bool
  | free _, _ => true
  | joined last, c =>
    !isOperandChar c || (Head.isNameChar last && Head.isNameChar c) ||
      (Token.isNumberChar last && Token.isNumberChar c)
  | ended, c => !isOperandChar c

def behind (edge : Edge) (c : Char) : Edge :=
  if isOperandChar c then
    joined c
  else if c = ')' then
    ended
  else if isBlankChar c then
    match edge with
    | free _ => free false
    | joined _ | ended => ended
  else
    free (isWordChar c)

def afterWord : Edge → Bool
  | free afterWord => afterWord
  | joined c => isWordChar c
  | ended => false

def isFree : Edge → Bool
  | free _ => true
  | joined _ | ended => false

end Edge

def numberSeams : Seams where
  State := Edge
  start := .free false
  afterWord := Edge.afterWord
  Named edge := edge.isFree = false
  Admits edge c := edge.admits c = true
  behind := Edge.behind
  Block edge piece piece' next :=
    edge.isFree = true ∧ next = .ended ∧ ∃ x : Float, x.isFinite = true ∧ piece = inlineNumber x ∧
      piece' = groupedNumber x

theorem isOperandChar_of_isNameChar {c : Char} (named : Head.isNameChar c = true) :
    isOperandChar c = true := by
  rw [isOperandChar, named]
  rfl

theorem isOperandChar_of_isNumberChar {c : Char} (numeric : Token.isNumberChar c = true) :
    isOperandChar c = true := by
  unfold Token.isNumberChar at numeric
  unfold isOperandChar Head.isNameChar
  rw [Bool.or_eq_true] at numeric
  rcases numeric with digit | dot
  · simp [digit]
  · rw [dot, Bool.or_true]

private theorem isOperandChar_blank {c : Char} (blank : isBlankChar c = true) :
    isOperandChar c = false := by
  have separates := isBlankChar_separates blank
  have notDot : c ≠ '.' := by
    rintro rfl
    cases blank
  rw [isOperandChar, separates.2.1, beq_eq_false_iff_ne.mpr notDot]
  rfl

/-! ### Number texts -/

private theorem forall_mem_groupedNumber {x : Float} (finite : x.isFinite = true) :
    ∀ c ∈ groupedNumber x, Token.isNumberChar c = true ∨ c ∈ ['(', '-', ')'] := by
  intro c member
  unfold groupedNumber at member
  split at member
  · exact forall_mem_inlineNumber finite c member
  · rcases List.mem_cons.mp member with rfl | later
    · exact .inr (by decide)
    · rcases List.mem_append.mp later with inside | last
      · exact forall_mem_inlineNumber finite c inside
      · rw [List.mem_singleton.mp last]
        exact .inr (by decide)

private theorem isItem_groupedNumber (x : Float) : IsItem (groupedNumber x) := by
  unfold groupedNumber
  split
  · exact isItem_inlineNumber x
  · exact .group (isItem_inlineNumber x).isNeutral .nil

structure IsNumberText (text : Text) : Prop where
  isItem : IsItem text
  nonempty : text ≠ []
  plain : ∀ c ∈ text, Token.isNumberChar c = true ∨ c ∈ ['(', '-', ')']

namespace IsNumberText

variable {text : Text}

theorem inlineNumber {x : Float} (finite : x.isFinite = true) : IsNumberText (inlineNumber x) where
  isItem := isItem_inlineNumber x
  nonempty := by
    obtain ⟨numeral, ⟨same, _⟩ | ⟨same, _⟩⟩ := exists_numeral_inlineNumber finite
    · rw [same]
      exact List.cons_ne_nil _ _
    · rw [same]
      exact numeral.text_ne_nil
  plain := forall_mem_inlineNumber finite

theorem groupedNumber {x : Float} (finite : x.isFinite = true) :
    IsNumberText (groupedNumber x) where
  isItem := isItem_groupedNumber x
  nonempty := by
    obtain ⟨numeral, ⟨same, grouped⟩ | ⟨_, grouped⟩⟩ := exists_numeral_inlineNumber finite
    · rw [grouped, same]
      exact List.cons_ne_nil _ _
    · rw [grouped]
      exact List.cons_ne_nil _ _
  plain := forall_mem_groupedNumber finite

theorem notStart (number : IsNumberText text) : ∀ c ∈ text, Head.isNameStart c = false := by
  intro c member
  rcases number.plain c member with numeric | sign
  · exact Head.isNameStart_of_isNumberChar numeric
  · exact forall_eq_false_of_any rfl c sign

theorem isFirm (number : IsNumberText text) : IsFirm text := by
  have solid (c : Char) (member : c ∈ text) : isBlankChar c = false :=
    isBlankChar_eq_false (number.plain c member)
  obtain ⟨first, others, shape⟩ := List.exists_cons_of_ne_nil number.nonempty
  refine ⟨⟨first, by rw [shape]; rfl, solid first (by rw [shape]; exact List.mem_cons_self)⟩, ?_⟩
  exact ⟨text.getLast number.nonempty, List.getLast?_eq_getLast_of_ne_nil number.nonempty,
    solid _ (List.getLast_mem number.nonempty)⟩

end IsNumberText

private theorem Head.all_of_head? {text : Text} (notStart : ∀ c ∈ text.head?, isNameStart c = false)
    (afterWord : Bool) :
    all afterWord text = all false text := by
  cases text with
  | nil => rfl
  | cons c text =>
      rw [all, all, here?, here?, notStart c rfl, Bool.and_false, Bool.and_false]

namespace numberSeams

variable {state final : numberSeams.State} {left right : Text}

/-- Behind a number no operand follows. -/
theorem isOperandChar_head? (atEnd : state = Edge.ended)
    (twin : Twin numberSeams state left right final) :
    (∀ c ∈ left.head?, isOperandChar c = false) ∧ ∀ c ∈ right.head?, isOperandChar c = false := by
  cases twin with
  | nil => exact ⟨nofun, nofun⟩
  | @char _ _ c _ _ admitted rest =>
      rw [atEnd] at admitted
      have other : isOperandChar c = false := (Bool.not_eq_true' _).mp admitted
      constructor <;>
        · rintro _ ⟨⟩
          exact other
  | block block rest =>
      rw [atEnd] at block
      cases block.1

theorem isNameStart_head? {text : Text} (other : ∀ c ∈ text.head?, isOperandChar c = false) :
    ∀ c ∈ text.head?, Head.isNameStart c = false := by
  intro c first
  refine Bool.eq_false_iff.mpr fun starts => ?_
  have outside := other c first
  rw [isOperandChar_of_isNameChar (Head.isNameChar_of_isNameStart starts)] at outside
  cases outside

theorem behind_of_isOperandChar (edge : Edge) {c : Char} (member : isOperandChar c = true) :
    edge.behind c = .joined c :=
  if_pos member

private theorem behind_blank (edge : Edge) {c : Char} (blank : isBlankChar c = true) :
    edge.behind c = if edge.isFree = true then .free false else .ended := by
  have notClosing : c ≠ ')' := by
    rintro rfl
    cases blank
  unfold Edge.behind
  rw [isOperandChar_blank blank, if_neg Bool.false_ne_true, if_neg notClosing, if_pos blank]
  cases edge <;> rfl

theorem afterWord_behind (edge : Edge) (c : Char) : (edge.behind c).afterWord = isWordChar c := by
  unfold Edge.behind
  split
  · rfl
  split
  · rename_i closing
    rw [closing]
    rfl
  split
  · rename_i blank
    rw [(isBlankChar_separates blank).1]
    cases edge <;> rfl
  · rfl

theorem lawful : numberSeams.Lawful where
  separator := by
    rintro state c (rfl | rfl) <;> rfl
  blank c blank := behind_blank (.free false) blank
  closing _ := rfl
  afterWord_start := rfl
  afterWord_behind := afterWord_behind
  named_of_name state c named _ := by
    change (Edge.behind state c).isFree = false
    rw [behind_of_isOperandChar state (isOperandChar_of_isNameChar named)]
    rfl
  named_of_blank state c blank named := by
    change (Edge.behind state c).isFree = false
    change Edge.isFree state = false at named
    rw [behind_blank state blank, named]
    rfl
  standsOff := by
    rintro state piece piece' next ⟨free, _⟩ named
    rw [show Edge.isFree state = false from named] at free
    cases free
  isItem := by
    rintro state piece piece' next ⟨_, _, x, finite, rfl, rfl⟩
    exact ⟨(IsNumberText.inlineNumber finite).isItem, (IsNumberText.groupedNumber finite).isItem⟩
  isFirm := by
    rintro state piece piece' next ⟨_, _, x, finite, rfl, rfl⟩
    exact ⟨(IsNumberText.inlineNumber finite).isFirm, (IsNumberText.groupedNumber finite).isFirm⟩
  heads := by
    rintro state piece piece' next left right final ⟨_, atEnd, x, finite, rfl, rfl⟩ twin
    obtain ⟨other, other'⟩ := isOperandChar_head? atEnd twin
    rw [Head.all_append_of_notStart (IsNumberText.inlineNumber finite).notStart,
      Head.all_append_of_notStart (IsNumberText.groupedNumber finite).notStart,
      Head.all_of_head? (isNameStart_head? other), Head.all_of_head? (isNameStart_head? other'),
      atEnd]
    exact ⟨rfl, rfl⟩

theorem isFree_of_opens (opens : numberSeams.Opens state) : Edge.isFree state = true := by
  obtain ⟨c, admitted, starts, fresh⟩ := opens
  have named := Head.isNameChar_of_isNameStart starts
  have member := isOperandChar_of_isNameChar named
  change Edge.admits state c = true at admitted
  change Edge.afterWord state = false at fresh
  cases state with
  | free => rfl
  | ended =>
      rw [Edge.admits, member] at admitted
      cases admitted
  | joined last =>
      rw [Edge.admits, member, Bool.not_true, Bool.false_or, Bool.or_eq_true,
        Bool.and_eq_true, Bool.and_eq_true]
        at admitted
      rcases admitted with ⟨lastNamed, _⟩ | ⟨_, numeric⟩
      · rw [Edge.afterWord, Head.isWordChar_of_isNameChar lastNamed] at fresh
        cases fresh
      · rw [Head.isNameStart_of_isNumberChar numeric] at starts
        cases starts

end numberSeams

end QuantityFormula
