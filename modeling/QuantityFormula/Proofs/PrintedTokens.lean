import QuantityFormula.Proofs.LexicalGrammar
import QuantityFormula.Proofs.Templates

/-!
Tokens as they are printed: numbers in decimal digits, operators by their symbols, and blanks
anywhere between them. They are read back exactly if a blank stands between any two numbers and any
two multiplications that follow one another. Without it the digits are one run and the asterisks one
power, so there are fewer tokens in the text than were printed.
-/

set_option autoImplicit false

namespace QuantityFormula

namespace Token

/-! ### Texts of tokens -/

def printed : Token → Text
  | number value => Decimal.write value
  | operator sign => [sign.symbol]
  | leftParen => ['(']
  | rightParen => [')']

/-- Whether a token is the token of a text: every one is but a number that is not finite or has a
sign. -/
def isPrintable : Token → Bool
  | number value => value.isFinite && !Magnitude.isNegative value
  | _ => true

/-- Whether two tokens are read as others if there is nothing between them. -/
def merges : Token → Token → Bool
  | number _, number _ => true
  | operator .multiply, operator .multiply => true
  | _, _ => false

private theorem cases_printed {token : Token} (printable : token.isPrintable = true) :
    (∃ numeral : Numeral, token = number numeral.value ∧ token.printed = numeral.text) ∨
      ∃ c, token.printed = [c] ∧ ofChar? c = some token := by
  cases token with
  | number value =>
      rw [isPrintable, Bool.and_eq_true, Bool.not_eq_true'] at printable
      have read : Decimal.read? (Decimal.write value) = some value :=
        Decimal.read?_write printable.1 printable.2
      refine .inl ⟨⟨Decimal.write value, isNumeral_of_read? read⟩, ?_, rfl⟩
      rw [Numeral.value, read]
      rfl
  | operator sign => exact .inr ⟨sign.symbol, rfl, ofChar?_symbol sign⟩
  | leftParen => exact .inr ⟨'(', rfl, rfl⟩
  | rightParen => exact .inr ⟨')', rfl, rfl⟩

private theorem isNumberChar_of_ofChar? {c : Char} {token : Token} (sign : ofChar? c = some token) :
    isNumberChar c = false :=
  Text.forall_eq_false_of_any rfl c (mem_of_ofChar? sign)

private theorem scan_printed {token : Token} (printable : token.isPrintable = true) :
    scan [] token.printed = .ok [token] := by
  rcases cases_printed printable with ⟨numeral, same, text⟩ | ⟨c, text, sign⟩
  · have alone := scan_numberChars numeral.isNumeral.1 [] []
    rw [List.append_nil, List.nil_append, scan, ofRun_numeral, ← text, ← same] at alone
    exact alone
  · rw [text]
    exact scan_sign sign (by simp) ofRun_nil ofRun_nil

private theorem ofPieces_printed {token : Token} (printable : token.isPrintable = true) :
    ofPieces token.printed = [token] :=
  (@eq_ofPieces_of_scan [] token.printed nofun _ (scan_printed printable)).symm

/-! ### Neighbours -/

private theorem cases_merges {left right : Token} (merging : left.merges right = true) :
    (∃ value, left = number value) ∧ (∃ value, right = number value) ∨
      left = operator .multiply ∧ right = operator .multiply := by
  unfold merges at merging
  split at merging
  · exact .inl ⟨⟨_, rfl⟩, ⟨_, rfl⟩⟩
  · exact .inr ⟨rfl, rfl⟩
  · cases merging

private theorem numeric_printed {value : Float} (printable : (number value).isPrintable = true) :
    ∀ c ∈ (number value).printed, isNumberChar c = true := by
  rw [isPrintable, Bool.and_eq_true, Bool.not_eq_true'] at printable
  exact (isNumeral_of_read? (Decimal.read?_write printable.1 printable.2)).1

private theorem exists_number_of_mem {token : Token} {c : Char} (member : c ∈ token.printed)
    (numeric : isNumberChar c = true) :
    ∃ value, token = number value := by
  cases token with
  | number value => exact ⟨value, rfl⟩
  | operator sign =>
      rw [List.mem_singleton.mp member, isNumberChar_of_ofChar? (ofChar?_symbol sign)] at numeric
      cases numeric
  | leftParen | rightParen =>
      rw [List.mem_singleton.mp member] at numeric
      cases numeric

private theorem eq_multiply_of_mem {token : Token} (printable : token.isPrintable = true)
    (member : '*' ∈ token.printed) :
    token = operator .multiply := by
  rcases cases_printed printable with ⟨numeral, _, text⟩ | ⟨c, text, sign⟩
  · rw [text] at member
    cases numeral.isNumeral.1 '*' member
  · rw [text, List.mem_singleton] at member
    rw [← member] at sign
    exact (Option.some.inj sign).symm

private theorem printed_ne_nil {token : Token} (printable : token.isPrintable = true) :
    token.printed ≠ [] := by
  rcases cases_printed printable with ⟨numeral, _, text⟩ | ⟨c, text, _⟩
  · rw [text]
    exact numeral.text_ne_nil
  · rw [text]
    exact List.cons_ne_nil c []

private theorem merges_of_adheres {left right : Token} (leftPrintable : left.isPrintable = true)
    (rightPrintable : right.isPrintable = true) {c d : Char} (last : c ∈ left.printed)
    (first : d ∈ right.printed) (together : adheres c d = true) : left.merges right = true := by
  rw [adheres, Bool.or_eq_true, Bool.and_eq_true, Bool.and_eq_true, beq_iff_eq,
    beq_iff_eq] at together
  rcases together with ⟨numeric, numeric'⟩ | ⟨star, star'⟩
  · obtain ⟨value, rfl⟩ := exists_number_of_mem last numeric
    obtain ⟨value', rfl⟩ := exists_number_of_mem first numeric'
    rfl
  · rw [star] at last
    rw [star'] at first
    rw [eq_multiply_of_mem leftPrintable last, eq_multiply_of_mem rightPrintable first]
    rfl

/-! ### Printed lists -/

def AreSpaced (places : List (Text × Token)) : Prop :=
  ∀ place ∈ places, Text.isBlank place.1 = true ∧ place.2.isPrintable = true

/-- There is a blank between any two tokens that merge. -/
def AreSeparated (places : List (Text × Token)) : Prop :=
  places.IsChain fun left right => left.2.merges right.2 = true → right.1 ≠ []

variable {places : List (Text × Token)} {rest : Text}

/-- Where a token is read together with what is printed behind it, the next one stands
there and merges with it. -/
theorem exists_merging (spaced : AreSpaced places)
    (blank : Text.isBlank rest = true) {token : Token}
    (printable : token.isPrintable = true) {c d : Char} (last : c ∈ token.printed)
    (first : d ∈ (Text.Cuts.fill printed ⟨places, rest⟩).head?) (together : adheres c d = true) :
    ∃ next others, places = ([], next) :: others ∧ token.merges next = true := by
  have notBlank : Text.isBlankChar d = false := by
    rw [Bool.eq_false_iff]
    intro blank
    rw [adheres_of_isBlankChar blank] at together
    cases together
  have outside (gap : Text) (blank : Text.isBlank gap = true) : d ∉ gap := by
    intro member
    rw [List.all_eq_true.mp blank d member] at notBlank
    cases notBlank
  cases places with
  | nil => exact absurd (List.mem_of_head? first) (outside rest blank)
  | cons place others =>
      obtain ⟨gap, next⟩ := place
      obtain ⟨gapBlank, nextPrintable⟩ := spaced _ List.mem_cons_self
      rw [Text.Cuts.fill_cons] at first
      cases gap with
      | cons e gap =>
          cases first
          exact absurd List.mem_cons_self (outside _ gapBlank)
      | nil =>
          rw [List.nil_append, List.head?_append_of_ne_nil _
            (printed_ne_nil nextPrintable)] at first
          exact ⟨next, others, rfl, merges_of_adheres printable nextPrintable last
            (List.mem_of_head? first) together⟩

private theorem scan_fill_printed (spaced : AreSpaced places) (blank : Text.isBlank rest = true)
    (separated : AreSeparated places) :
    scan [] (Text.Cuts.fill printed ⟨places, rest⟩) = .ok (places.map Prod.snd) := by
  induction places with
  | nil =>
      have ended : scan [] [] = .ok [] := ofRun_nil
      have read := scan_gap blank ofRun_nil ended ended
      rwa [List.append_nil] at read
  | cons place places ih =>
      obtain ⟨gap, token⟩ := place
      obtain ⟨⟨gapBlank, printable⟩, spacedBehind⟩ := List.forall_mem_cons.mp spaced
      obtain ⟨apart, separatedBehind⟩ := List.isChain_cons.mp separated
      have direct : scan [] (token.printed ++ Text.Cuts.fill printed ⟨places, rest⟩) =
          .ok (token :: places.map Prod.snd) := by
        refine scan_append ?_ (List.forall_mem_nil _) (scan_printed printable)
          (ih spacedBehind separatedBehind)
        intro c last d first
        rw [Bool.eq_false_iff]
        intro together
        obtain ⟨next, others, rfl, merging⟩ :=
          exists_merging spacedBehind blank printable (List.mem_of_getLast? last) first together
        exact apart _ rfl merging rfl
      rw [Text.Cuts.fill_cons]
      exact scan_gap gapBlank ofRun_nil direct direct

/-! ### Tokens that merge -/

private theorem ofPieces_blanks {gap : Text} (blank : Text.isBlank gap = true) (text : Text) :
    ofPieces (gap ++ text) = ofPieces text := by
  induction gap with
  | nil => rfl
  | cons c gap ih =>
      rw [Text.isBlank, List.all_cons, Bool.and_eq_true] at blank
      have other := (Text.isBlankChar_separates blank.1).2.2.2.1
      have notStar : c ≠ '*' := by
        rintro rfl
        cases blank.1
      have parted := @ofPieces_cons [] (List.forall_mem_nil _) c other (gap ++ text) fun star =>
        absurd star notStar
      rw [ofPieces_singleton other, ofChar?_of_isBlankChar blank.1, ih blank.2] at parted
      exact parted

private theorem length_ofPieces_run {run : Text} (nonempty : run ≠ [])
    (numeric : ∀ c ∈ run, isNumberChar c = true) :
    (ofPieces run).length = 1 := by
  have together : ∀ c ∈ run, ∀ d ∈ run, adheres c d = true := by
    intro c first d second
    rw [adheres, numeric c first, numeric d second]
    rfl
  rw [ofPieces_chain nonempty together]
  cases run with
  | nil => exact absurd rfl nonempty
  | cons c rest =>
      rw [ofPiece, if_pos (numeric c List.mem_cons_self)]
      rfl

private theorem length_ofPieces_digits {run digits : Text}
    (numeric : ∀ c ∈ run, isNumberChar c = true)
    (numeric' : ∀ c ∈ digits, isNumberChar c = true) (nonempty : digits ≠ []) (text : Text) :
    (ofPieces (run ++ (digits ++ text))).length = (ofPieces (digits ++ text)).length := by
  -- Both are one run up to the first character that is no digit, with the same text behind it.
  have spanned := List.takeWhile_append_dropWhile (p := isNumberChar) (l := digits ++ text)
  have stops : ∀ d ∈ ((digits ++ text).dropWhile isNumberChar).head?, isNumberChar d = false := by
    intro d first
    have stopped := List.head?_dropWhile_not isNumberChar (digits ++ text)
    rw [Option.mem_def.mp first] at stopped
    simpa using stopped
  have within : ∀ c ∈ (digits ++ text).takeWhile isNumberChar, isNumberChar c = true :=
    fun c member => List.mem_takeWhile_imp member
  have present : (digits ++ text).takeWhile isNumberChar ≠ [] := by
    rw [List.takeWhile_append_of_pos numeric']
    exact List.append_ne_nil_of_left_ne_nil nonempty _
  generalize (digits ++ text).takeWhile isNumberChar = more at spanned within present
  generalize (digits ++ text).dropWhile isNumberChar = behind at spanned stops
  have parted (front : Text) (frontNumeric : ∀ c ∈ front, isNumberChar c = true)
      (frontNonempty : front ≠ []) :
      (ofPieces (front ++ behind)).length = 1 + (ofPieces behind).length := by
    rw [ofPieces_append, List.length_append, length_ofPieces_run frontNonempty frontNumeric]
    intro c last d first
    exact adheres_of_not_isNumberChar (frontNumeric c (List.mem_of_getLast? last)) (stops d first)
  rw [← spanned, ← List.append_assoc, parted more within present,
    parted (run ++ more) (List.forall_mem_append.mpr ⟨numeric, within⟩)
      (List.append_ne_nil_of_right_ne_nil run present)]

private theorem length_ofPieces_fill (spaced : AreSpaced places)
    (blank : Text.isBlank rest = true) :
    (ofPieces (Text.Cuts.fill printed ⟨places, rest⟩)).length ≤ places.length ∧
      ((ofPieces (Text.Cuts.fill printed ⟨places, rest⟩)).length = places.length →
        AreSeparated places) := by
  -- Two multiplications that merge are one power, so the induction may have to go on two tokens
  -- later.
  induction size : places.length using Nat.strongRecOn generalizing places with
  | ind length ih =>
  subst size
  cases places with
  | nil =>
      have nothing := ofPieces_blanks blank []
      rw [List.append_nil] at nothing
      change (ofPieces rest).length ≤ 0 ∧ ((ofPieces rest).length = 0 → AreSeparated [])
      rw [nothing]
      exact ⟨Nat.le_refl 0, fun _ => .nil⟩
  | cons place places =>
  obtain ⟨gap, token⟩ := place
  obtain ⟨⟨gapBlank, printable⟩, spacedBehind⟩ := List.forall_mem_cons.mp spaced
  obtain ⟨most, exact⟩ := ih places.length (Nat.lt_succ_self _) spacedBehind rfl
  rw [Text.Cuts.fill_cons, ofPieces_blanks gapBlank]
  by_cases joined : ∃ next others, places = ([], next) :: others ∧ token.merges next = true
  · obtain ⟨next, others, rfl, merging⟩ := joined
    have fewer :
        (ofPieces (token.printed ++ Text.Cuts.fill printed ⟨([], next) :: others, rest⟩)).length <
          ((gap, token) :: ([], next) :: others).length := by
      obtain ⟨⟨_, nextPrintable⟩, spacedOthers⟩ := List.forall_mem_cons.mp spacedBehind
      rw [Text.Cuts.fill_cons, List.nil_append] at most ⊢
      rcases cases_merges merging with ⟨⟨value, rfl⟩, ⟨other, rfl⟩⟩ | ⟨rfl, rfl⟩
      · rw [length_ofPieces_digits (numeric_printed printable) (numeric_printed nextPrintable)
          (printed_ne_nil nextPrintable)]
        exact Nat.lt_succ_of_le most
      · have few := (ih others.length (by simp) spacedOthers rfl).1
        change (ofPieces ('*' :: '*' :: Text.Cuts.fill printed ⟨others, rest⟩)).length <
          others.length + 1 + 1
        rw [ofPieces_doubleStar, List.length_cons]
        omega
    exact ⟨Nat.le_of_lt fewer, fun same => absurd same (Nat.ne_of_lt fewer)⟩
  · have apart : ∀ c ∈ token.printed.getLast?, ∀ d ∈ (Text.Cuts.fill printed ⟨places, rest⟩).head?,
        adheres c d = false := by
      intro c last d first
      rw [Bool.eq_false_iff]
      exact fun together => joined
        (exists_merging spacedBehind blank printable (List.mem_of_getLast? last) first together)
    rw [ofPieces_append apart, ofPieces_printed printable, List.length_append,
      List.length_singleton, List.length_cons]
    refine ⟨by omega, fun same => List.isChain_cons.mpr ⟨?_, exact (by omega)⟩⟩
    intro place next merging direct
    obtain ⟨others, rfl⟩ := List.head?_eq_some_iff.mp next
    obtain ⟨gap, right⟩ := place
    cases direct
    exact joined ⟨right, others, rfl, merging⟩

/-! ### Main result -/

/-- Printed tokens are read back exactly if there is a blank between any two numbers and any two
multiplications that follow one another. -/
theorem ofText_fill_printed_iff {written : Text.Cuts Token} (spaced : AreSpaced written.places)
    (blank : Text.isBlank written.rest = true) :
    ofText (written.fill printed) = .ok (written.places.map Prod.snd) ↔
      AreSeparated written.places := by
  constructor
  · intro read
    have tokens := eq_ofPieces_of_scan (List.forall_mem_nil _) read
    have count := congrArg List.length tokens
    rw [List.length_map] at count
    exact (length_ofPieces_fill spaced blank).2 count.symm
  · exact fun separated => scan_fill_printed spaced blank separated

instance (places : List (Text × Token)) : Decidable (AreSpaced places) :=
  inferInstanceAs (Decidable (∀ place ∈ places, _))

instance (places : List (Text × Token)) : Decidable (AreSeparated places) :=
  inferInstanceAs (Decidable (places.IsChain _))

def spacedTokens : Text.Cuts Token :=
  ⟨[(['\t'], .number 2), ([' '], .number 0.5), ([], .operator .multiply),
    (['\n'], .operator .multiply), ([], .operator .power), ([], .leftParen)], [' ']⟩

def starredTokens : Text.Cuts Token :=
  ⟨[(['\t'], .number 2), ([' '], .number 0.5), ([], .operator .multiply), ([], .operator .multiply),
    ([], .operator .power), ([], .leftParen)], [' ']⟩

theorem ofText_fill_printed_iff_stars :
    (AreSpaced spacedTokens.places ∧
      ofText (spacedTokens.fill printed) = .ok (spacedTokens.places.map Prod.snd)) ∧
      AreSpaced starredTokens.places ∧
      ofText (starredTokens.fill printed) ≠ .ok (starredTokens.places.map Prod.snd) := by
  have spaced : AreSpaced spacedTokens.places := by decide +kernel
  have spaced' : AreSpaced starredTokens.places := by decide +kernel
  have separated : AreSeparated spacedTokens.places := by decide +kernel
  have joined : ¬AreSeparated starredTokens.places := by decide +kernel
  exact ⟨⟨spaced, (ofText_fill_printed_iff spaced (by decide)).mpr separated⟩,
    spaced', fun read => joined ((ofText_fill_printed_iff spaced' (by decide)).mp read)⟩

end Token
end QuantityFormula
