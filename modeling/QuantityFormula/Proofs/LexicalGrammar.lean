import QuantityFormula.Proofs.Balance
import QuantityFormula.Proofs.Tokenizing

/-!
The texts that have tokens. They consist of characters of arithmetic, and each of their runs of
digits and dots is a number. A text is cut into the runs of digits and dots, the runs of asterisks,
and single characters, and has the tokens of these pieces. A text without tokens fails for what is
wrong in it first, from the left: a character that is none of arithmetic where it stands, and a run
that is no number where it ends.
-/

set_option autoImplicit false

namespace QuantityFormula

namespace Token

/-! ### Characters -/

def isLegal (c : Char) : Bool :=
  isNumberChar c || Text.isBlankChar c || (ofChar? c).isSome

private theorem isSome_ofChar?_iff {c : Char} :
    (ofChar? c).isSome = true ↔ c ∈ ['+', '-', '*', '/', '%', '^', '(', ')'] := by
  constructor
  · intro sign
    obtain ⟨token, found⟩ := Option.isSome_iff_exists.mp sign
    have listed := mem_of_ofChar? found
    simp only [List.mem_cons, List.not_mem_nil, or_false] at listed ⊢
    tauto
  · have signs : ['+', '-', '*', '/', '%', '^', '(', ')'].all (fun sign => (ofChar? sign).isSome) =
      true := rfl
    exact List.all_eq_true.mp signs c

private theorem isLegal_iff {c : Char} : isLegal c = true ↔
    c.isDigit = true ∨ c = '.' ∨ Text.isBlankChar c = true ∨
      c ∈ ['+', '-', '*', '/', '%', '^', '(', ')'] := by
  rw [isLegal, Bool.or_eq_true, Bool.or_eq_true, isSome_ofChar?_iff, isNumberChar, Bool.or_eq_true,
    beq_iff_eq, or_assoc, or_assoc]

private theorem isLegal_of_isNumberChar {c : Char}
    (numeric : isNumberChar c = true) : isLegal c = true := by
  rw [isLegal, numeric]
  rfl

theorem ofChar?_of_isBlankChar {c : Char}
    (blank : Text.isBlankChar c = true) : ofChar? c = none := by
  cases sign : ofChar? c with
  | none => rfl
  | some token =>
      have notBlank : Text.isBlankChar c = false :=
        Text.forall_eq_false_of_any rfl c (mem_of_ofChar? sign)
      rw [notBlank] at blank
      cases blank

/-! ### Pieces -/

/-- Characters that are read together if they stand side by side. -/
def adheres (left right : Char) : Bool :=
  isNumberChar left && isNumberChar right || left == '*' && right == '*'

/-- A text cut wherever two characters are not read together. -/
def pieces (text : Text) : List Text :=
  text.splitBy adheres

/-- The tokens of some asterisks in a row, which are powers two by two. -/
def ofStars (count : Nat) : List Token :=
  List.replicate (count / 2) (operator .power) ++ List.replicate (count % 2) (operator .multiply)

/-- The tokens of a piece: a number for a run of digits and dots, and one at most
for a character by itself. -/
def ofPiece : Text → List Token
  | [] => []
  | c :: rest =>
    if isNumberChar c then
      [number ((Decimal.read? (c :: rest)).getD 0)]
    else if c = '*' then
      ofStars (rest.length + 1)
    else
      (ofChar? c).toList

def ofPieces (text : Text) : List Token :=
  (pieces text).flatMap ofPiece

theorem adheres_of_not_isNumberChar {c d : Char} (numeric : isNumberChar c = true)
    (apart : isNumberChar d = false) :
    adheres c d = false := by
  have notStar : c ≠ '*' := by
    rintro rfl
    cases numeric
  rw [adheres, apart, Bool.and_false, beq_eq_false_iff_ne.mpr notStar]
  rfl

theorem adheres_of_isBlankChar {d : Char} (blank : Text.isBlankChar d = true) (c : Char) :
    adheres c d = false := by
  have separate := Text.isBlankChar_separates blank
  have notStar : d ≠ '*' := by
    rintro rfl
    cases blank
  rw [adheres, separate.2.2.2.1, beq_eq_false_iff_ne.mpr notStar, Bool.and_false, Bool.and_false]
  rfl

/-- Two texts are read one after the other if no character at the end of the first is read
together with the second. -/
theorem scan_append {run left right : Text} {before behind : List Token}
    (apart : ∀ c ∈ (run ++ left).getLast?, ∀ d ∈ right.head?, adheres c d = false)
    (numeric : ∀ c ∈ run, isNumberChar c = true) (scanned : scan run left = .ok before)
    (scannedRight : scan [] right = .ok behind) :
    scan run (left ++ right) = .ok (before ++ behind) := by
  fun_induction scan run left generalizing before with
  | case1 run =>
      cases run using List.reverseRecOn with
      | nil =>
          cases scanned
          exact scannedRight
      | append_singleton run c =>
          rw [List.nil_append, scan_of_ofRun scanned, scannedRight]
          · rfl
          · intro d first
            have same := apart c (by simp) d first
            rw [adheres, numeric c (by simp), Bool.true_and, Bool.or_eq_false_iff] at same
            exact same.1
  | case2 run text ih =>
      obtain ⟨number, ended, scanned⟩ := exists_of_bind_eq_ok scanned
      obtain ⟨following, read, scanned⟩ := exists_of_bind_eq_ok scanned
      cases scanned
      have rest : scan [] (text ++ right) = .ok (following ++ behind) := by
        refine ih (fun c last => apart c ?_) (List.forall_mem_nil _) read
        exact List.mem_getLast?_append_of_mem_getLast?
          (List.mem_getLast?_cons (List.mem_getLast?_cons last))
      rw [List.append_assoc]
      exact scan_doubleStar ended rest
  | case3 run c text notPower isNumeric ih =>
      have notStar : c ≠ '*' := by
        rintro rfl
        cases isNumeric
      have longer : ∀ d ∈ run ++ [c], isNumberChar d = true :=
        List.forall_mem_append.mpr ⟨numeric, List.forall_mem_singleton.mpr isNumeric⟩
      rw [List.cons_append, scan.eq_3 _ _ _ (fun _ star => absurd star notStar), if_pos isNumeric]
      exact ih (by simpa using apart) longer scanned
  | case4 run c text notPower notNumeric blank ih =>
      obtain ⟨number, ended, scanned⟩ := exists_of_bind_eq_ok scanned
      obtain ⟨following, read, scanned⟩ := exists_of_bind_eq_ok scanned
      cases scanned
      have rest : scan [] (text ++ right) = .ok (following ++ behind) := by
        refine ih (fun d last => apart d ?_) (List.forall_mem_nil _) read
        exact List.mem_getLast?_append_of_mem_getLast? (List.mem_getLast?_cons last)
      rw [List.append_assoc]
      exact scan_blankChar blank ended rest
  | case5 run c text notPower notNumeric notBlank token sign ih =>
      obtain ⟨number, ended, scanned⟩ := exists_of_bind_eq_ok scanned
      obtain ⟨following, read, scanned⟩ := exists_of_bind_eq_ok scanned
      cases scanned
      have rest : scan [] (text ++ right) = .ok (following ++ behind) := by
        refine ih (fun d last => apart d ?_) (List.forall_mem_nil _) read
        exact List.mem_getLast?_append_of_mem_getLast? (List.mem_getLast?_cons last)
      have single : c = '*' → (text ++ right).head? ≠ some '*' := by
        rintro rfl star
        cases text with
        | nil => exact absurd (apart '*' (by simp) '*' star) (by decide)
        | cons d text =>
            cases star
            exact notPower text rfl rfl
      rw [List.append_assoc]
      exact scan_sign sign single ended rest
  | case6 => cases scanned

theorem ofPieces_append {left right : Text}
    (apart : ∀ c ∈ left.getLast?, ∀ d ∈ right.head?, adheres c d = false) :
    ofPieces (left ++ right) = ofPieces left ++ ofPieces right := by
  rw [ofPieces, pieces, List.splitBy_append apart, List.flatMap_append]
  rfl

theorem ofPieces_chain {piece : Text} (nonempty : piece ≠ [])
    (together : ∀ c ∈ piece, ∀ d ∈ piece, adheres c d = true) :
    ofPieces piece = ofPiece piece := by
  have chain : piece.IsChain fun c d => adheres c d = true :=
    (List.pairwise_of_forall_mem_list together).isChain
  rw [ofPieces, pieces, List.splitBy_of_isChain nonempty chain]
  exact List.append_nil _

private theorem ofPieces_run {run : Text} (numeric : ∀ c ∈ run, isNumberChar c = true)
    {tokens : List Token} (read : ofRun run = .ok tokens) : ofPieces run = tokens := by
  cases run with
  | nil =>
      cases read
      rfl
  | cons c rest =>
      have together : ∀ d ∈ c :: rest, ∀ e ∈ c :: rest, adheres d e = true := by
        intro d first e second
        rw [adheres, numeric d first, numeric e second]
        rfl
      rw [ofPieces_chain (List.cons_ne_nil c rest) together, ofPiece,
        if_pos (numeric c List.mem_cons_self)]
      unfold ofRun at read
      split at read
      · contradiction
      split at read
      · rename_i value found
        cases read
        rw [found]
        rfl
      · cases read

private theorem ofPieces_stars (count : Nat) {rest : Text} (unstarred : rest.head? ≠ some '*') :
    ofPieces (List.replicate count '*' ++ rest) = ofStars count ++ ofPieces rest := by
  cases count with
  | zero => rfl
  | succ count =>
      have stars : ofPieces (List.replicate (count + 1) '*') = ofStars (count + 1) := by
        rw [ofPieces_chain (by simp [List.replicate_succ])]
        · rw [List.replicate_succ, ofPiece, if_neg (by decide), if_pos rfl, List.length_replicate]
        · intro c first d second
          rw [List.eq_of_mem_replicate first, List.eq_of_mem_replicate second]
          rfl
      rw [ofPieces_append, stars]
      intro c last d first
      have isStar : c = '*' := List.eq_of_mem_replicate (List.mem_of_getLast? last)
      have notStar : d ≠ '*' := by
        rintro rfl
        exact unstarred first
      rw [isStar, adheres, beq_eq_false_iff_ne.mpr notStar]
      rfl

private theorem exists_stars (text : Text) :
    ∃ count rest, text = List.replicate count '*' ++ rest ∧ rest.head? ≠ some '*' := by
  induction text with
  | nil => exact ⟨0, [], rfl, nofun⟩
  | cons c text ih =>
      by_cases star : c = '*'
      · obtain ⟨count, rest, rfl, unstarred⟩ := ih
        exact ⟨count + 1, rest, by rw [star, List.replicate_succ]; rfl, unstarred⟩
      · exact ⟨0, c :: text, rfl, fun same => star (Option.some.inj same)⟩

theorem ofPieces_doubleStar (text : Text) :
    ofPieces ('*' :: '*' :: text) = operator .power :: ofPieces text := by
  obtain ⟨count, rest, rfl, unstarred⟩ := exists_stars text
  have more := ofPieces_stars (count + 2) unstarred
  rw [List.replicate_succ, List.replicate_succ] at more
  rw [ofPieces_stars count unstarred, ← List.cons_append, ← List.cons_append, more, ofStars,
    Nat.add_div_right count (by decide), Nat.add_mod_right, List.replicate_succ]
  rfl

theorem ofPieces_singleton {c : Char} (other : isNumberChar c = false) :
    ofPieces [c] = (ofChar? c).toList := by
  change ofPiece [c] ++ [] = _
  rw [List.append_nil, ofPiece, if_neg (Bool.eq_false_iff.mp other)]
  split
  · rename_i star
    rw [star]
    rfl
  · rfl

/-- A character that is no digit and no dot begins a piece, and ends one unless it is the
first of two asterisks. -/
theorem ofPieces_cons {run : Text} (numeric : ∀ c ∈ run, isNumberChar c = true) {c : Char}
    (other : isNumberChar c = false) {text : Text} (single : c = '*' → text.head? ≠ some '*') :
    ofPieces (run ++ c :: text) = ofPieces run ++ (ofPieces [c] ++ ofPieces text) := by
  rw [ofPieces_append, ← List.singleton_append, ofPieces_append]
  · intro d last e first
    obtain rfl : c = d := Option.some.inj last
    rw [adheres, other, Bool.false_and, Bool.false_or, Bool.and_eq_false_iff, beq_eq_false_iff_ne,
      beq_eq_false_iff_ne]
    by_cases star : c = '*'
    · exact .inr fun same => single star (same ▸ first)
    · exact .inl star
  · intro d last e first
    obtain rfl : c = e := Option.some.inj first
    exact adheres_of_not_isNumberChar (numeric d (List.mem_of_getLast? last)) other

/-- The tokens of a text are those of its pieces. -/
theorem eq_ofPieces_of_scan {run text : Text} (numeric : ∀ c ∈ run, isNumberChar c = true)
    {tokens : List Token}
    (scanned : scan run text = .ok tokens) : tokens = ofPieces (run ++ text) := by
  fun_induction scan run text generalizing tokens with
  | case1 run =>
      rw [List.append_nil]
      exact (ofPieces_run numeric scanned).symm
  | case2 run text ih =>
      obtain ⟨before, ended, scanned⟩ := exists_of_bind_eq_ok scanned
      obtain ⟨following, read, same⟩ := exists_of_bind_eq_ok scanned
      cases same
      have starApart : ∀ c ∈ run.getLast?,
          ∀ d ∈ ('*' :: '*' :: text).head?, adheres c d = false := by
        intro c last d first
        obtain rfl : '*' = d := Option.some.inj first
        exact adheres_of_not_isNumberChar (numeric c (List.mem_of_getLast? last)) rfl
      rw [ofPieces_append starApart, ofPieces_doubleStar, ofPieces_run numeric ended,
        ih (List.forall_mem_nil _) read]
      rfl
  | case3 run c text notPower isNumeric ih =>
      have longer : ∀ d ∈ run ++ [c], isNumberChar d = true :=
        List.forall_mem_append.mpr ⟨numeric, List.forall_mem_singleton.mpr isNumeric⟩
      rw [ih longer scanned, List.append_assoc]
      rfl
  | case4 run c text notPower notNumeric blank ih =>
      obtain ⟨before, ended, scanned⟩ := exists_of_bind_eq_ok scanned
      obtain ⟨following, read, same⟩ := exists_of_bind_eq_ok scanned
      cases same
      have other := Bool.eq_false_iff.mpr notNumeric
      have notStar : c ≠ '*' := by
        rintro rfl
        cases blank
      rw [ofPieces_cons numeric other fun star => absurd star notStar, ofPieces_singleton other,
        ofChar?_of_isBlankChar blank, ofPieces_run numeric ended, ih (List.forall_mem_nil _) read]
      rfl
  | case5 run c text notPower notNumeric notBlank token sign ih =>
      obtain ⟨before, ended, scanned⟩ := exists_of_bind_eq_ok scanned
      obtain ⟨following, read, same⟩ := exists_of_bind_eq_ok scanned
      cases same
      have other := Bool.eq_false_iff.mpr notNumeric
      have single : c = '*' → text.head? ≠ some '*' := by
        rintro rfl star
        obtain ⟨rest, rfl⟩ := List.head?_eq_some_iff.mp star
        exact notPower rest rfl rfl
      rw [ofPieces_cons numeric other single, ofPieces_singleton other, sign,
        ofPieces_run numeric ended, ih (List.forall_mem_nil _) read]
      rfl
  | case6 => cases scanned

/-! ### Offences -/

structure IsMaximalRun (before run after : Text) : Prop where
  nonempty : run ≠ []
  numeric : ∀ c ∈ run, isNumberChar c = true
  starts : ∀ c ∈ before.getLast?, isNumberChar c = false
  ends : ∀ c ∈ after.head?, isNumberChar c = false

/-- What is wrong at a place in a text: the character behind it is none of arithmetic, or the run of
digits and dots in front of it is no number. The character counts if both are wrong. -/
inductive Offence : (before after : Text) → Fault → Prop
  | character {before : Text} {c : Char} {after : Text} (illegal : isLegal c = false) :
      Offence before (c :: after) (.malformed (.unexpectedCharacter c))
  | run {place after : Text} (before run : Text) (taken : place = before ++ run)
      (maximal : IsMaximalRun before run after) (bad : ¬IsNumeral run)
        (legal : ∀ c ∈ after.head?, isLegal c = true) :
      Offence place after (.malformed (.invalidNumber run))

def FirstOffence (text : Text) (fault : Fault) : Prop :=
  ∃ before after, text = before ++ after ∧ Offence before after fault ∧
    ∀ earlier later other, text = earlier ++ later → earlier.length < before.length →
      ¬Offence earlier later other

private theorem ofRun_eq_error_iff {run : Text} {fault : Fault} :
    ofRun run = .error fault ↔
      run ≠ [] ∧ ¬IsNumeral run ∧ fault = .malformed (.invalidNumber run) := by
  constructor
  · intro failed
    unfold ofRun at failed
    split at failed
    · cases failed
    split at failed
    · cases failed
    · rename_i nonempty _ unread
      cases failed
      refine ⟨by simpa using nonempty, ?_, rfl⟩
      intro numeral
      obtain ⟨value, read⟩ := read?_of_isNumeral numeral
      rw [read] at unread
      cases unread
  · rintro ⟨nonempty, bad, rfl⟩
    cases read : Decimal.read? run with
    | some value => exact absurd (isNumeral_of_read? read) bad
    | none => rw [ofRun, if_neg (by simpa using nonempty), read]

private theorem Offence.exists_behind {run text before after : Text}
    (numeric : ∀ c ∈ run, isNumberChar c = true)
    (whole : run ++ text = before ++ after) {fault : Fault} (offence : Offence before after fault) :
    ∃ behind, before = run ++ behind ∧ text = behind ++ after := by
  rcases List.append_eq_append_iff.mp whole with ⟨behind, atPlace, rest⟩ | ⟨inside, within, rest⟩
  · exact ⟨behind, atPlace, rest⟩
  cases inside with
  | nil => exact ⟨[], by simpa using within.symm, by simpa using rest.symm⟩
  | cons c inside =>
      have digit : isNumberChar c = true := numeric c (by rw [within]; simp)
      subst rest
      cases offence with
      | character illegal =>
          rw [isLegal_of_isNumberChar digit] at illegal
          cases illegal
      | run before run taken maximal bad legal =>
          rw [maximal.ends c rfl] at digit
          cases digit

private theorem Offence.isFirst {run after : Text} (numeric : ∀ c ∈ run, isNumberChar c = true)
    {fault : Fault} (offence : Offence run after fault) : FirstOffence (run ++ after) fault := by
  refine ⟨run, after, rfl, offence, ?_⟩
  intro earlier later reason whole shorter offenceEarlier
  obtain ⟨behind, rfl, _⟩ := offenceEarlier.exists_behind numeric whole
  rw [List.length_append] at shorter
  omega

/-- Where a run ends, and no illegal character follows, nothing but the run can be wrong. -/
private theorem offence_run_iff {run after : Text} (numeric : ∀ c ∈ run, isNumberChar c = true)
    (ends : ∀ c ∈ after.head?, isNumberChar c = false)
    (legal : ∀ c ∈ after.head?, isLegal c = true) {fault : Fault} :
    Offence run after fault ↔ ofRun run = .error fault := by
  rw [ofRun_eq_error_iff]
  constructor
  · intro offence
    cases offence with
    | character illegal =>
        rw [legal _ rfl] at illegal
        cases illegal
    | run before run taken maximal bad _ =>
        have alone : before = [] := by
          cases last : before.getLast? with
          | none => exact List.getLast?_eq_none_iff.mp last
          | some c =>
              have digit := numeric c
                (by rw [taken]; exact List.mem_append_left _ (List.mem_of_getLast? last))
              rw [maximal.starts c last] at digit
              cases digit
        rw [alone, List.nil_append] at taken
        subst taken
        exact ⟨maximal.nonempty, bad, rfl⟩
  · rintro ⟨nonempty, bad, rfl⟩
    exact .run [] run (List.nil_append run).symm ⟨nonempty, numeric, nofun, ends⟩ bad legal

/-- What is wrong behind a character that is no digit and no dot has nothing to do with
what is in front of it. -/
theorem offence_append_cons_iff (front : Text) {c : Char} (other : isNumberChar c = false)
    {before after : Text}
    {fault : Fault} : Offence (front ++ c :: before) after fault ↔ Offence before after fault := by
  constructor
  · intro offence
    cases offence with
    | character illegal => exact .character illegal
    | run start run taken maximal bad legal =>
        rw [← List.singleton_append, ← List.append_assoc] at taken
        rcases List.append_eq_append_iff.mp taken with ⟨between, rfl, rfl⟩ | ⟨inside, within, rfl⟩
        · refine .run _ _ rfl ⟨maximal.nonempty, maximal.numeric, ?_, maximal.ends⟩ bad legal
          exact fun d last => maximal.starts d (List.mem_getLast?_append_of_mem_getLast? last)
        · rcases inside.eq_nil_or_concat with rfl | ⟨inner, d, rfl⟩
          · exact .run [] _ rfl ⟨maximal.nonempty, maximal.numeric, nofun, maximal.ends⟩ bad legal
          · rw [List.concat_eq_append, ← List.append_assoc] at within
            have same := (List.append_inj' within rfl).2
            have digit := maximal.numeric c (by simp [List.singleton_inj.mp same])
            rw [other] at digit
            cases digit
  · intro offence
    cases offence with
    | character illegal => exact .character illegal
    | run start run taken maximal bad legal =>
        refine .run (front ++ c :: start) run (by rw [taken]; simp) ?_ bad legal
        refine ⟨maximal.nonempty, maximal.numeric, ?_, maximal.ends⟩
        intro d last
        rw [List.getLast?_append_cons] at last
        cases start with
        | nil =>
            obtain rfl : c = d := Option.some.inj last
            exact other
        | cons e start => exact maximal.starts d last

/-- In a text that begins with a run, something is wrong only where the run ends or
behind the next character. -/
theorem Offence.cases_place {run text before after : Text}
    (numeric : ∀ c ∈ run, isNumberChar c = true) {c : Char}
    (other : isNumberChar c = false) (whole : run ++ c :: text = before ++ after) {fault : Fault}
    (offence : Offence before after fault) :
    before = run ∧ after = c :: text ∨
      ∃ behind, before = run ++ c :: behind ∧ text = behind ++ after ∧
        Offence behind after fault := by
  obtain ⟨behind, rfl, rest⟩ := offence.exists_behind numeric whole
  cases behind with
  | nil => exact .inl ⟨List.append_nil run, rest.symm⟩
  | cons d behind =>
      obtain ⟨rfl, rfl⟩ := List.cons.inj rest
      exact .inr ⟨behind, rfl, rfl, (offence_append_cons_iff run other).mp offence⟩

private theorem firstOffence_run_iff {run : Text} (numeric : ∀ c ∈ run, isNumberChar c = true)
    {fault : Fault} :
    FirstOffence run fault ↔ ofRun run = .error fault := by
  have ended (fault : Fault) : Offence run [] fault ↔ ofRun run = .error fault :=
    offence_run_iff numeric (by simp) (by simp)
  constructor
  · rintro ⟨before, after, whole, offence, _⟩
    obtain ⟨behind, rfl, rest⟩ := offence.exists_behind numeric ((List.append_nil run).trans whole)
    obtain ⟨rfl, rfl⟩ := List.append_eq_nil_iff.mp rest.symm
    rw [List.append_nil] at offence
    exact (ended fault).mp offence
  · intro failed
    have first := ((ended fault).mpr failed).isFirst numeric
    rwa [List.append_nil] at first

private theorem firstOffence_illegal_iff {run text : Text}
    (numeric : ∀ c ∈ run, isNumberChar c = true) {c : Char}
    (illegal : isLegal c = false) {fault : Fault} :
    FirstOffence (run ++ c :: text) fault ↔ fault = .malformed (.unexpectedCharacter c) := by
  have other : isNumberChar c = false := by
    cases digit : isNumberChar c with
    | false => rfl
    | true =>
        rw [isLegal_of_isNumberChar digit] at illegal
        cases illegal
  constructor
  · rintro ⟨before, after, whole, offence, first⟩
    rcases offence.cases_place numeric other whole with ⟨rfl, rfl⟩ | ⟨behind, rfl, _⟩
    · cases offence with
      | character => rfl
      | run start run taken maximal bad legal =>
          rw [legal c rfl] at illegal
          cases illegal
    · exact absurd (.character illegal) (first run (c :: text) _ rfl (by simp))
  · rintro rfl
    exact Offence.isFirst numeric (.character illegal)

private theorem firstOffence_legal_iff {run text : Text}
    (numeric : ∀ c ∈ run, isNumberChar c = true) {c : Char}
    (other : isNumberChar c = false) (legal : isLegal c = true) {fault : Fault} :
    FirstOffence (run ++ c :: text) fault ↔
      ofRun run = .error fault ∨ (∀ reason, ofRun run ≠ .error reason) ∧
        FirstOffence text fault := by
  have ended (fault : Fault) : Offence run (c :: text) fault ↔ ofRun run = .error fault := by
    apply offence_run_iff numeric
    · rintro d ⟨⟩
      exact other
    · rintro d ⟨⟩
      exact legal
  constructor
  · rintro ⟨before, after, whole, offence, first⟩
    rcases offence.cases_place numeric other whole with
        ⟨rfl, rfl⟩ | ⟨behind, rfl, rfl, offenceBehind⟩
    · exact .inl ((ended fault).mp offence)
    · refine .inr ⟨fun reason failed =>
        first run _ reason rfl (by simp) ((ended reason).mpr failed), ?_⟩
      refine ⟨behind, after, rfl, offenceBehind, ?_⟩
      intro earlier later reason rest shorter offenceEarlier
      refine first (run ++ c :: earlier) later reason ?_ (by simpa using shorter)
        ((offence_append_cons_iff run other).mpr offenceEarlier)
      rw [rest, List.append_assoc]
      rfl
  · rintro (failed | ⟨numeral, before, after, rfl, offence, first⟩)
    · exact ((ended fault).mpr failed).isFirst numeric
    · refine ⟨run ++ c :: before,
        after, by rw [List.append_assoc]; rfl, (offence_append_cons_iff run other).mpr offence, ?_⟩
      intro earlier later reason whole shorter offenceEarlier
      rcases offenceEarlier.cases_place numeric other whole with
          ⟨rfl, rfl⟩ | ⟨behind, rfl, rest, offenceBehind⟩
      · exact numeral reason ((ended reason).mp offenceEarlier)
      · exact first behind later reason rest (by simpa using shorter) offenceBehind

private theorem firstOffence_cons_iff {text : Text} {c : Char} (other : isNumberChar c = false)
    (legal : isLegal c = true)
    {fault : Fault} : FirstOffence (c :: text) fault ↔ FirstOffence text fault := by
  have alone : FirstOffence (c :: text) fault ↔
      ofRun [] = .error fault ∨ (∀ reason, ofRun [] ≠ .error reason) ∧ FirstOffence text fault :=
    @firstOffence_legal_iff [] text nofun c other legal fault
  rw [alone]
  constructor
  · rintro (⟨⟨⟩⟩ | ⟨_, first⟩)
    exact first
  · exact fun first => .inr ⟨nofun, first⟩

/-! ### Faults of a scan -/

/-- Tokens that are read one part after the other fail for the first part that fails. -/
private theorem eq_error_of_parts_iff {first second : Except Fault (List Token)}
    {join : List Token → List Token → List Token} {fault : Fault} : (do
      let before ← first
      let behind ← second
      return join before behind) = .error fault ↔
        first = .error fault ∨ (∀ reason, first ≠ .error reason) ∧ second = .error fault := by
  cases first with
  | error reason =>
      constructor
      · exact .inl
      · rintro (failed | ⟨succeeds, _⟩)
        · exact failed
        · exact absurd rfl (succeeds reason)
  | ok before =>
      cases second with
      | error reason =>
          constructor
          · exact fun failed => .inr ⟨nofun, failed⟩
          · rintro (⟨⟨⟩⟩ | ⟨_, failed⟩)
            exact failed
      | ok behind =>
          constructor
          · nofun
          · rintro (⟨⟨⟩⟩ | ⟨_, ⟨⟩⟩)

private theorem scan_eq_error_iff {run text : Text} (numeric : ∀ c ∈ run, isNumberChar c = true)
    {fault : Fault} :
    scan run text = .error fault ↔ FirstOffence (run ++ text) fault := by
  fun_induction scan run text with
  | case1 run =>
      rw [List.append_nil]
      exact (firstOffence_run_iff numeric).symm
  | case2 run text ih =>
      have rest : scan [] text = .error fault ↔ FirstOffence text fault :=
        ih (List.forall_mem_nil _)
      rw [firstOffence_legal_iff numeric rfl rfl, firstOffence_cons_iff rfl rfl, ← rest]
      exact eq_error_of_parts_iff
  | case3 run c text notPower isNumeric ih =>
      have longer : ∀ d ∈ run ++ [c], isNumberChar d = true :=
        List.forall_mem_append.mpr ⟨numeric, List.forall_mem_singleton.mpr isNumeric⟩
      rw [ih longer, List.append_assoc]
      rfl
  | case4 run c text notPower notNumeric blank ih =>
      have rest : scan [] text = .error fault ↔ FirstOffence text fault :=
        ih (List.forall_mem_nil _)
      have legal : isLegal c = true := by
        rw [isLegal, blank, Bool.or_true]
        rfl
      rw [firstOffence_legal_iff numeric (Bool.eq_false_iff.mpr notNumeric) legal, ← rest]
      exact eq_error_of_parts_iff
  | case5 run c text notPower notNumeric notBlank token sign ih =>
      have rest : scan [] text = .error fault ↔ FirstOffence text fault :=
        ih (List.forall_mem_nil _)
      have legal : isLegal c = true := by
        rw [isLegal, sign]
        exact Bool.or_true _
      rw [firstOffence_legal_iff numeric (Bool.eq_false_iff.mpr notNumeric) legal, ← rest]
      exact eq_error_of_parts_iff
  | case6 run c text notPower notNumeric notBlank unknown =>
      have illegal : isLegal c = false := by
        rw [isLegal, Bool.eq_false_iff.mpr notNumeric, Bool.eq_false_iff.mpr notBlank, unknown]
        rfl
      rw [firstOffence_illegal_iff numeric illegal, Except.error.injEq]
      exact eq_comm

private theorem ofText_eq_error_iff {text : Text} {fault : Fault} :
    ofText text = .error fault ↔ FirstOffence text fault :=
  @scan_eq_error_iff [] text nofun fault

/-! ### Texts without tokens -/

private theorem exists_firstOffence {text before after : Text} {fault : Fault}
    (whole : text = before ++ after)
    (offence : Offence before after fault) : ∃ fault, FirstOffence text fault := by
  induction length : before.length using Nat.strongRecOn generalizing before after fault with
  | ind size ih =>
  by_cases first : ∀ earlier later other, text = earlier ++ later → earlier.length < before.length →
      ¬Offence earlier later other
  · exact ⟨fault, before, after, whole, offence, first⟩
  · push Not at first
    obtain ⟨earlier, later, other, wholeEarlier, shorter, offenceEarlier⟩ := first
    exact ih earlier.length (length ▸ shorter) wholeEarlier offenceEarlier rfl

/-- Nothing is wrong anywhere in a text exactly if its characters are of arithmetic
and its runs are numbers. -/
theorem forall_not_offence_iff {text : Text} :
    (∀ before after fault, text = before ++ after → ¬Offence before after fault) ↔
      (∀ c ∈ text, isLegal c = true) ∧
        ∀ before run after, text = before ++ run ++ after →
          IsMaximalRun before run after → IsNumeral run := by
  constructor
  · intro clean
    have legal : ∀ c ∈ text, isLegal c = true := by
      intro c member
      obtain ⟨before, after, whole⟩ := List.append_of_mem member
      cases illegal : isLegal c with
      | true => rfl
      | false => exact absurd (.character illegal) (clean before (c :: after) _ whole)
    refine ⟨legal, ?_⟩
    intro before run after whole maximal
    by_contra bad
    refine clean (before ++ run) after _ whole (.run before run rfl maximal bad ?_)
    intro c first
    exact legal c (by rw [whole]; exact List.mem_append_right _ (List.mem_of_head? first))
  · rintro ⟨legal, numerals⟩ before after fault rfl offence
    cases offence with
    | character illegal =>
        rw [legal _ (by simp)] at illegal
        cases illegal
    | run start run taken maximal bad =>
        exact bad (numerals start run after (by rw [taken]) maximal)

theorem exists_ofText_iff {text : Text} :
    (∃ tokens, ofText text = .ok tokens) ↔
      (∀ c ∈ text, isLegal c = true) ∧
      ∀ before run after, text = before ++ run ++ after →
        IsMaximalRun before run after → IsNumeral run := by
  rw [← forall_not_offence_iff]
  constructor
  · rintro ⟨tokens, read⟩ before after fault whole offence
    obtain ⟨reason, first⟩ := exists_firstOffence whole offence
    have failed : ofText text = .error reason := ofText_eq_error_iff.mpr first
    rw [read] at failed
    cases failed
  · intro clean
    cases outcome : ofText text with
    | ok tokens => exact ⟨tokens, rfl⟩
    | error fault =>
        obtain ⟨before, after, whole, offence, _⟩ := ofText_eq_error_iff.mp outcome
        exact absurd offence (clean before after fault whole)

/-! ### Main result -/

/-- A text has tokens exactly if each of its characters is a digit, a dot, a blank or a sign, and
each of its runs of digits and dots is a number. They are the tokens of its pieces. Without tokens
it fails for the first thing that is wrong in it from the left. -/
theorem ofText_follows_grammar (text : Text) :
    ((∃ tokens, ofText text = .ok tokens) ↔
      (∀ c ∈ text, c.isDigit = true ∨ c = '.' ∨ Text.isBlankChar c = true ∨
        c ∈ ['+', '-', '*', '/', '%', '^', '(', ')']) ∧
      ∀ before run after, text = before ++ run ++ after →
        IsMaximalRun before run after → IsNumeral run) ∧
    (∀ tokens, ofText text = .ok tokens → tokens = (pieces text).flatMap ofPiece) ∧
    ∀ fault, ofText text = .error fault ↔ FirstOffence text fault := by
  refine ⟨?_, fun tokens read => @eq_ofPieces_of_scan [] text nofun tokens read,
    fun fault => ofText_eq_error_iff⟩
  rw [exists_ofText_iff]
  simp only [isLegal_iff]

def threeStars : Text :=
  "1.5***2".toList

theorem ofText_follows_grammar_threeStars :
    (∀ before run after, threeStars = before ++ run ++ after →
        IsMaximalRun before run after → IsNumeral run) ∧
      [number 1.5, operator .power, operator .multiply, number 2] =
        (pieces threeStars).flatMap ofPiece ∧
      FirstOffence "1.2.3x".toList (.malformed (.unexpectedCharacter 'x')) ∧
      FirstOffence "1.2.3 x".toList (.malformed (.invalidNumber "1.2.3".toList)) := by
  have read : ofText threeStars = .ok [number 1.5, operator .power, operator .multiply, number 2] :=
    eq_ok_of_toOption_eq_some (by decide +kernel)
  obtain ⟨accepted, tokens, _⟩ := ofText_follows_grammar threeStars
  exact ⟨(accepted.mp ⟨_, read⟩).2, tokens _ read, ((ofText_follows_grammar _).2.2 _).mp rfl,
    ((ofText_follows_grammar _).2.2 _).mp rfl⟩

end Token

end QuantityFormula
