import QuantityFormula.Proofs.ArgumentLists
import QuantityFormula.Proofs.FaultOrigins
import QuantityFormula.Proofs.Invocation

/-!
Spans of calls. The call that is replaced next begins with the leftmost head of a guard or, in a
text without guards, with the rightmost head. It ends with the first parenthesis behind which as
many are closed as opened, and the search for this parenthesis never counts below zero. So its
arguments balance, and a pass leaves all around it as it was.
-/

set_option autoImplicit false

namespace QuantityFormula

namespace Text

/-! ### The search for a closing parenthesis -/

def StaysOpen (text : Text) : Prop :=
  ∀ piece, piece <+: text → piece ≠ [] → 0 < parenDepth piece

/-- The shortest piece at the start of a text that closes as many parentheses as it opens. -/
structure IsFirstGroup (group text : Text) : Prop where
  starts : group <+: text
  nonempty : group ≠ []
  closed : parenDepth group = 0
  shortest : ∀ piece, piece <+: text → piece ≠ [] → parenDepth piece = 0 →
    group.length ≤ piece.length

/-- What a search for a closing parenthesis comes to: its counter behind each character that it
reads, and the place of the parenthesis that it ends at. -/
structure Search where
  counts : List Int
  place? : Option Nat

/-- Counts the parentheses of a text up to the first that closes with the counter at zero. Nothing
but the text keeps the counter from going below zero. -/
def seekClosing : (count : Int) → Text → Search
  | _, [] => ⟨[], none⟩
  | count, c :: text =>
    let next := count + parenWeight c
    if c = ')' ∧ next = 0 then
      ⟨[next], some 0⟩
    else
      let later := seekClosing next text
      ⟨next :: later.counts, later.place?.map (· + 1)⟩

private theorem seekClosing_cons {depth : Nat} {c : Char}
    (inside : ¬(depth = 0 ∧ c = ')')) (text : Text) :
    let inner : Nat := if c = '(' then depth + 1 else if c = ')' then depth - 1 else depth
    seekClosing (depth + 1) (c :: text) =
      ⟨(inner + 1) :: (seekClosing (inner + 1) text).counts,
        (seekClosing (inner + 1) text).place?.map (· + 1)⟩ := by
  intro inner
  have counted : (depth : Int) + 1 + parenWeight c = inner + 1 := by
    rw [add_right_comm, add_parenWeight inside]
  rw [seekClosing, counted, if_neg (by omega)]

private theorem place?_seekClosing (depth : Nat) (text : Text) :
    (seekClosing (depth + 1) text).place? = (splitClosing? depth text).map fun parts =>
      parts.1.length := by
  fun_induction splitClosing? depth text with
  | case1 => rfl
  | case2 text => rfl
  | case3 depth c text notClosing inner ih =>
      rw [seekClosing_cons fun closes => notClosing closes.1 closes.2]
      dsimp only
      rw [ih, Option.map_map, Option.map_map]
      rfl

private theorem nonneg_of_mem_counts (depth : Nat) (text : Text) :
    ∀ count ∈ (seekClosing (depth + 1) text).counts, 0 ≤ count := by
  fun_induction splitClosing? depth text with
  | case1 =>
      intro count member
      cases member
  | case2 text =>
      intro count member
      rw [List.mem_singleton.mp member]
      rfl
  | case3 depth c text notClosing inner ih =>
      rw [seekClosing_cons fun closes => notClosing closes.1 closes.2]
      intro count member
      rcases List.mem_cons.mp member with rfl | later
      · omega
      · exact ih count later

private theorem splitClosing?_eq_none_iff {depth : Nat} {text : Text} :
    splitClosing? depth text = none ↔ ∀ piece, piece <+: text → 0 ≤ depth + parenDepth piece := by
  fun_induction splitClosing? depth text with
  | case1 depth =>
      refine iff_of_true rfl fun piece starts => ?_
      rw [List.prefix_nil.mp starts, parenDepth_nil]
      omega
  | case2 text =>
      refine iff_of_false (Option.some_ne_none _) fun opened => ?_
      exact absurd (opened [')'] ⟨text, rfl⟩) (by decide)
  | case3 depth c text notClosing inner ih =>
      have counted : (depth : Int) + parenWeight c = inner :=
        add_parenWeight fun closes => notClosing closes.1 closes.2
      rw [Option.map_eq_none_iff, ih]
      constructor
      · intro opened piece starts
        rcases List.prefix_cons_iff.mp starts with rfl | ⟨behind, rfl, startsBehind⟩
        · rw [parenDepth_nil]
          omega
        · rw [parenDepth_cons, ← add_assoc, counted]
          exact opened behind startsBehind
      · intro opened piece starts
        rw [← counted, add_assoc, ← parenDepth_cons]
        exact opened _ (List.cons_prefix_cons.mpr ⟨rfl, starts⟩)

/-- What stays open behind a parenthesis is exactly what cannot be cut where this parenthesis is
closed. -/
theorem staysOpen_iff {after : Text} : StaysOpen ('(' :: after) ↔ splitClosing? 0 after = none := by
  have deeper (piece : Text) : parenDepth ('(' :: piece) = 1 + parenDepth piece :=
    parenDepth_cons '(' piece
  rw [splitClosing?_eq_none_iff]
  constructor
  · intro opened piece starts
    have positive := opened ('(' :: piece) (List.cons_prefix_cons.mpr ⟨rfl, starts⟩)
      (List.cons_ne_nil _ _)
    rw [deeper] at positive
    omega
  · intro opened piece starts nonempty
    rcases List.prefix_cons_iff.mp starts with rfl | ⟨behind, rfl, startsBehind⟩
    · exact absurd rfl nonempty
    · have nonneg := opened behind startsBehind
      rw [deeper]
      omega

private theorem Closes.isFirstGroup {inside : Text} (closes : Closes inside) (behind : Text) :
    IsFirstGroup ('(' :: (inside ++ [')'])) ('(' :: (inside ++ ')' :: behind)) where
  starts := ⟨behind, by simp⟩
  nonempty := List.cons_ne_nil _ _
  closed := by
    have balanced := closes.closed
    simp only [parenDepth, List.map_cons, List.map_append, List.sum_cons, List.sum_append,
      List.map_nil, List.sum_nil]
      at balanced ⊢
    have opening : parenWeight '(' = 1 := rfl
    have closing : parenWeight ')' = -1 := rfl
    omega
  shortest := by
    intro piece starts nonempty level
    rcases List.prefix_cons_iff.mp starts with rfl | ⟨early, rfl, startsBehind⟩
    · exact absurd rfl nonempty
    -- A shorter piece would end inside of the group, where the count is never negative.
    by_contra shorter
    have within : early <+: inside := by
      refine List.prefix_of_prefix_length_le startsBehind ⟨_, rfl⟩ ?_
      simp only [List.length_cons, List.length_append, List.length_nil] at shorter
      omega
    have nonneg := closes.opened early within
    have opening : parenDepth ('(' :: early) = 1 + parenDepth early := parenDepth_cons '(' early
    omega

end Text

open Text

/-! ### The head that is due -/

namespace Head

/-- A head as it is written in a text: a name as long as it can be with no word character in front
of it, some blanks, and an opening parenthesis. -/
structure IsWritten (head : Head) (gap text : Text) : Prop where
  whole : text = head.before ++ (head.name ++ (gap ++ '(' :: head.after))
  starts : head.name.head?.any isNameStart = true
  named : head.name.all isNameChar = true
  longest : ∀ c ∈ (gap ++ '(' :: head.after).head?, isNameChar c = false
  apart : ∀ c ∈ head.before.getLast?, isWordChar c = false
  blank : isBlank gap = true

def StandsIn (head : Head) (text : Text) : Prop :=
  ∃ gap, head.IsWritten gap text

private theorem standsIn_iff {head : Head} {text : Text} :
    head.StandsIn text ↔ head ∈ all false text := by
  rw [mem_all_iff]
  constructor
  · rintro ⟨gap, written⟩
    obtain ⟨name, named⟩ := FunctionName.exists_text ⟨written.starts, written.named⟩
    refine ⟨name, gap, written.blank, named.symm, ?_, continuesWord_eq_false_iff.mpr written.apart⟩
    rw [named]
    exact written.whole
  · rintro ⟨name, gap, blank, named, whole, fresh⟩
    refine ⟨gap, ?_⟩
    constructor
    · rw [named]
      exact whole
    · rw [named, FunctionName.text, List.head?_cons, Option.any_some, name.start]
    · rw [named, FunctionName.text, List.all_cons, isNameChar_of_isNameStart name.start,
        Bool.true_and]
      exact List.all_eq_true.mpr name.following
    · intro c first
      cases gap with
      | nil =>
          cases first
          rfl
      | cons d gap =>
          cases first
          rw [isBlank, List.all_cons, Bool.and_eq_true] at blank
          exact (isBlankChar_separates blank.1).2.1
    · exact continuesWord_eq_false_iff.mp fresh
    · exact blank

/-- The head of the call that is due in a text: the leftmost head of a guard or, in a text without
guards, the rightmost head. -/
inductive IsDueIn (head : Head) (text : Text) : Prop
  | guarded (stands : head.StandsIn text) (guards : head.name = Builtin.ifError.name.toList)
      (leftmost : ∀ other : Head, other.StandsIn text → other.name = Builtin.ifError.name.toList →
        head.before.length ≤ other.before.length)
  | unguarded (stands : head.StandsIn text)
      (free : ∀ other : Head, other.StandsIn text → other.name ≠ Builtin.ifError.name.toList)
      (rightmost : ∀ other : Head, other.StandsIn text → other.before.length ≤ head.before.length)

variable {text : Text} {head other : Head}

theorem IsDueIn.stands (due : head.IsDueIn text) : head.StandsIn text := by
  cases due with
  | guarded stands | unguarded stands => exact stands

/-- At each place of a text stands no more than one head. -/
theorem StandsIn.eq_of_length (stands : head.StandsIn text) (otherStands : other.StandsIn text)
    (level : head.before.length = other.before.length) : head = other := by
  have apart : ((all false text).map fun head => head.before.length).Nodup := by
    rw [List.Nodup, List.pairwise_map]
    exact (pairwise_all false text).imp Nat.ne_of_lt
  exact List.inj_on_of_nodup_map apart (standsIn_iff.mp stands) (standsIn_iff.mp otherStands) level

/-- No more than one head is due. -/
theorem IsDueIn.unique (due : head.IsDueIn text)
    (otherDue : other.IsDueIn text) : head = other := by
  cases due with
  | guarded stands guards leftmost =>
      cases otherDue with
      | guarded otherStands otherGuards otherLeftmost =>
          have level := Nat.le_antisymm (leftmost other otherStands otherGuards)
            (otherLeftmost head stands guards)
          exact stands.eq_of_length otherStands level
      | unguarded otherStands otherFree otherRightmost =>
          exact absurd guards (otherFree head stands)
  | unguarded stands free rightmost =>
      cases otherDue with
      | guarded otherStands otherGuards otherLeftmost =>
          exact absurd otherGuards (free other otherStands)
      | unguarded otherStands otherFree otherRightmost =>
          have level := Nat.le_antisymm (otherRightmost head stands) (rightmost other otherStands)
          exact stands.eq_of_length otherStands level

end Head

namespace Call

private theorem isGuardedName_iff {name : Text} :
    isGuardedName name = true ↔ name = Builtin.ifError.name.toList := by
  constructor
  · intro guarded
    exact beq_iff_eq.mp (guardWords_counts guarded)
  · rintro rfl
    exact isGuardedName_name .ifError

private theorem isDueIn_of_pick {text : Text} {head : Head}
    (picked : pick (Head.all false text) = some head) :
    head.IsDueIn text := by
  have stands : head.StandsIn text := Head.standsIn_iff.mpr (mem_of_pick picked)
  have order := Head.pairwise_all false text
  cases guarded : isGuardedName head.name with
  | true =>
      obtain ⟨earlier, later, split, free, _⟩ := exists_of_pick picked
      rw [split, List.pairwise_append, List.pairwise_cons] at order
      refine .guarded stands (isGuardedName_iff.mp guarded) fun other otherStands guards => ?_
      rw [Head.standsIn_iff, split, List.mem_append, List.mem_cons] at otherStands
      rcases otherStands with inFront | rfl | behind
      · have unguarded := free other inFront
        rw [isGuardedName_iff.mpr guards] at unguarded
        cases unguarded
      · exact Nat.le_refl _
      · exact Nat.le_of_lt (order.2.1.1 other behind)
  | false =>
      obtain ⟨free, earlier, split⟩ := unguarded_of_pick picked guarded
      rw [split, List.pairwise_append] at order
      refine .unguarded stands (fun other otherStands guards => ?_) fun other otherStands => ?_
      · have unguarded := free other (Head.standsIn_iff.mp otherStands)
        rw [isGuardedName_iff.mpr guards] at unguarded
        cases unguarded
      · rw [Head.standsIn_iff, split, List.mem_append, List.mem_singleton] at otherStands
        rcases otherStands with inFront | rfl
        · exact Nat.le_of_lt (order.2.2 other inFront head (List.mem_singleton_self head))
        · exact Nat.le_refl _

/-- A text with a head has one that is due, and this is the one that is picked. -/
theorem exists_isDueIn {text : Text} {head : Head} (stands : head.StandsIn text) :
    ∃ due : Head, (∀ other : Head, other.IsDueIn text ↔ other = due) ∧
      next? text = some <$> ofHead due := by
  cases picked : pick (Head.all false text) with
  | none =>
      have member := Head.standsIn_iff.mp stands
      rw [pick_eq_none_iff.mp picked] at member
      cases member
  | some due =>
      have isDue := isDueIn_of_pick picked
      refine ⟨due, fun other => ⟨fun otherDue => otherDue.unique isDue, ?_⟩, ?_⟩
      · rintro rfl
        exact isDue
      · rw [next?_eq_pick, picked]

/-! ### The span of a head -/

def group (call : Call) : Text :=
  '(' :: (call.arguments ++ [')'])

def span (gap : Text) (call : Call) : Text :=
  call.name ++ (gap ++ call.group)

/-- The call of a head in a text: the head with the first group at its parenthesis, and what the
parentheses of the group hold for the arguments. -/
structure IsSpanOf (call : Call) (head : Head) (text : Text) : Prop where
  before : call.before = head.before
  name : call.name = head.name
  placed : ∃ gap, head.IsWritten gap text ∧ text = call.before ++ (call.span gap ++ call.after)
  first : IsFirstGroup call.group ('(' :: head.after)
  balanced : Closes call.arguments

def closingPlace? : Except Fault (Option Call) → Option Nat
  | .ok (some call) => some (call.arguments.length + 1)
  | _ => none

private theorem place?_seekClosing_head (head : Head) :
    (seekClosing 0 ('(' :: head.after)).place? = closingPlace? (some <$> ofHead head) := by
  change (seekClosing ((0 : Nat) + 1) head.after).place?.map (· + 1) = _
  rw [place?_seekClosing, Option.map_map, ofHead]
  cases splitClosing? 0 head.after <;> rfl

private theorem nonneg_of_mem_counts_head (head : Head) :
    ∀ count ∈ (seekClosing 0 ('(' :: head.after)).counts, 0 ≤ count := by
  intro count member
  rcases List.mem_cons.mp member with rfl | later
  · decide
  · exact nonneg_of_mem_counts 0 head.after count later

/-- A head has a call unless its group stays open. -/
theorem ofHead_cases {head : Head} {text : Text} (stands : head.StandsIn text) :
    StaysOpen ('(' :: head.after) ∧ ofHead head = .error .unbalancedParentheses ∨
      ¬StaysOpen ('(' :: head.after) ∧
        ∃ call, ofHead head = .ok call ∧ call.IsSpanOf head text := by
  rw [staysOpen_iff, ofHead]
  cases closed : splitClosing? 0 head.after with
  | none => exact .inl ⟨rfl, rfl⟩
  | some parts =>
      obtain ⟨inside, behind⟩ := parts
      obtain ⟨shape, balanced⟩ := splitClosing?_eq_some_iff.mp closed
      have closes : Closes inside := isBalanced_iff.mp balanced
      have first := closes.isFirstGroup behind
      rw [← shape] at first
      obtain ⟨gap, written⟩ := stands
      have whole : text = head.before ++
          (span gap ⟨head.before, head.name, inside, behind⟩ ++ behind) := by
        rw [written.whole, shape, span, group]
        simp
      exact .inr ⟨Option.some_ne_none _, _, rfl, rfl, rfl, ⟨gap, written, whole⟩, first, closes⟩

/-- The search for the next call has no other fault. -/
theorem eq_unbalancedParentheses {text : Text} {fault : Fault}
    (failed : next? text = .error fault) :
    fault = .unbalancedParentheses := by
  rw [next?_eq_pick] at failed
  split at failed
  · rename_i head picked
    rcases ofHead_cases (isDueIn_of_pick picked).stands with ⟨_, unclosed⟩ | ⟨_, call, located, _⟩
    · rw [unclosed] at failed
      cases failed
      rfl
    · rw [located] at failed
      cases failed
  · cases failed

end Call

namespace Resolver

namespace Evaluation

/-! ### Passes -/

/-- A pass: a number takes the place of the next call, and the text on both sides of
the call stays as it was. -/
inductive Replaces : Evaluation → Evaluation → Prop
  | pass {resolver after : Resolver} {call : Call} {gap : Text} {x : Float}
    (blank : isBlank gap = true)
      (next : Call.next? (call.before ++ (call.span gap ++ call.after)) = .ok (some call))
      (within : resolver.passes < resolver.maxPasses)
      (valued : (callValue evaluate call).run resolver.counted = (.ok x, after)) :
      Replaces ⟨resolver, call.before ++ (call.span gap ++ call.after)⟩
        ⟨after, call.before ++ (inlineNumber x ++ call.after)⟩

/-- Where passes end: at a text without calls, and at a call that is not closed, is
refused or has no value. -/
inductive Ends : Evaluation → Except Fault Text × Resolver → Prop
  | resolved {resolver : Resolver} {text : Text} (blocked : Call.next? text = .ok none) :
      Ends ⟨resolver, text⟩ (.ok text, resolver)
  | unclosed {resolver : Resolver} {text : Text}
      (failed : Call.next? text = .error .unbalancedParentheses) :
      Ends ⟨resolver, text⟩ (.error .unbalancedParentheses, resolver)
  | refused {resolver : Resolver} {text : Text} {call : Call}
      (next : Call.next? text = .ok (some call))
      (full : resolver.maxPasses ≤ resolver.passes) :
      Ends ⟨resolver, text⟩ (.error (.tooComplex resolver.maxPasses), resolver.counted)
  | failed {resolver after : Resolver} {text : Text} {call : Call} {fault : Fault}
      (next : Call.next? text = .ok (some call)) (within : resolver.passes < resolver.maxPasses)
      (failed : (callValue evaluate call).run resolver.counted = (.error fault, after)) :
      Ends ⟨resolver, text⟩ (.error fault, after)

variable {text : Text} {call : Call} {resolver after : Resolver}

private theorem replaces_of_next (next : Call.next? text = .ok (some call))
    (within : resolver.passes < resolver.maxPasses)
    {x : Float} (valued : (callValue evaluate call).run resolver.counted = (.ok x, after)) :
    Replaces ⟨resolver, text⟩ ⟨after, call.replaceBy (inlineNumber x)⟩ := by
  obtain ⟨name, gap, blank, named, whole, _, _⟩ := Call.parts_of_next? next
  have spanned : text = call.before ++ (call.span gap ++ call.after) := by
    rw [whole, Call.span, Call.group, named]
    simp
  rw [spanned] at next ⊢
  rw [Call.replaceBy, List.append_assoc]
  exact .pass blank next within valued

private theorem run_resolve_within (next : Call.next? text = .ok (some call))
    (within : resolver.passes < resolver.maxPasses) :
    (resolve text).run resolver = (do
      let x ← callValue evaluate call
      resolve (call.replaceBy (inlineNumber x))).run resolver.counted :=
  (run_resolve_of_next next resolver).trans (Resolution.run_bind_ok (run_countPass_within within) _)

/-- A resolution comes to the same from behind a pass. -/
theorem Replaces.run_resolve_eq {earlier later : Evaluation} (replaces : Replaces earlier later) :
    (resolve earlier.text).run earlier.resolver = (resolve later.text).run later.resolver := by
  cases replaces with
  | pass blank next within valued =>
      rw [run_resolve_within next within, Resolution.run_bind_ok valued,
        Call.replaceBy, List.append_assoc]

/-- A resolution is one pass after another, up to where they end. -/
theorem exists_ends (text : Text) (resolver : Resolver) :
    ∃ last, Relation.ReflTransGen Replaces ⟨resolver, text⟩ last ∧
      last.Ends ((resolve text).run resolver) := by
  induction text using Text.callInduction generalizing resolver with
  | blocked text nothing =>
      have ran : (resolve text).run resolver = (.ok text, resolver) :=
        run_resolveWithin_of_none nothing _ resolver
      rw [ran]
      exact ⟨_, .refl, .resolved nothing⟩
  | failed text fault failed =>
      have ran : (resolve text).run resolver = (.error fault, resolver) :=
        run_resolveWithin_of_error failed _ resolver
      rw [ran]
      cases Call.eq_unbalancedParentheses failed
      exact ⟨_, .refl, .unclosed failed⟩
  | next text call next each behind =>
      rcases Nat.lt_or_ge resolver.passes resolver.maxPasses with within | full
      · cases ran : (callValue evaluate call).run resolver.counted with
        | mk valued after =>
            cases valued with
            | error fault =>
                rw [run_resolve_within next within, Resolution.run_bind_error ran]
                exact ⟨_, .refl, .failed next within ran⟩
            | ok x =>
                have replaces := replaces_of_next next within ran
                have same : (resolve text).run resolver =
                    (resolve (call.replaceBy (inlineNumber x))).run after :=
                  replaces.run_resolve_eq
                obtain ⟨last, passes, ends⟩ := behind x (isFinite_of_run_callValue ran) after
                rw [same]
                exact ⟨last, .head replaces passes, ends⟩
      · rw [run_resolve_of_next next, Resolution.run_bind_error (run_countPass_beyond full)]
        exact ⟨_, .refl, .refused next full⟩

end Evaluation

/-- A text has no next call exactly if it has no head. If it has heads, one of them is due, and the
next call lacks its closing parenthesis exactly if the text stays open from that head on. Otherwise
it is the shortest span from the head that closes what it opens, with its arguments between the
parentheses. A counter that may go below zero finds the same parenthesis and does not go below zero.
And all passes of a resolution leave the text around the spans that they replace as it was. -/
theorem replaces_delimited_spans (text : Text) :
    (Call.next? text = .ok none ↔ ∀ head : Head, ¬head.StandsIn text) ∧
    ((∃ head : Head, head.StandsIn text) → ∃ head : Head,
      (∀ other : Head, other.IsDueIn text ↔ other = head) ∧
      (Call.next? text = .error .unbalancedParentheses ↔ StaysOpen ('(' :: head.after)) ∧
      (¬StaysOpen ('(' :: head.after) →
        ∃ call, Call.next? text = .ok (some call) ∧ call.IsSpanOf head text) ∧
      (seekClosing 0 ('(' :: head.after)).place? = Call.closingPlace? (Call.next? text) ∧
      ∀ count ∈ (seekClosing 0 ('(' :: head.after)).counts, 0 ≤ count) ∧
    ∀ resolver, ∃ last, Relation.ReflTransGen Evaluation.Replaces ⟨resolver, text⟩ last ∧
      last.Ends ((resolve text).run resolver) := by
  refine ⟨?_, ?_, Evaluation.exists_ends text⟩
  · rw [Call.next?_eq_none_iff, List.eq_nil_iff_forall_not_mem]
    exact forall_congr' fun head => not_congr Head.standsIn_iff.symm
  · rintro ⟨_, stands⟩
    obtain ⟨head, due, next⟩ := Call.exists_isDueIn stands
    have dueStands := ((due head).mpr rfl).stands
    refine ⟨head, due, ?_⟩
    rw [next]
    refine ⟨?_, ?_, Call.place?_seekClosing_head head, Call.nonneg_of_mem_counts_head head⟩
    · rcases Call.ofHead_cases dueStands with ⟨opened, unclosed⟩ | ⟨closed, call, located, _⟩
      · rw [unclosed]
        exact iff_of_true rfl opened
      · rw [located]
        exact iff_of_false nofun closed
    · intro closed
      rcases Call.ofHead_cases dueStands with ⟨opened, _⟩ | ⟨_, call, located, span⟩
      · exact absurd opened closed
      · rw [located]
        exact ⟨call, rfl, span⟩

def callBeforeGuards : Text :=
  "MAX(1) + IFERROR (ABS(2), (3)) * IFERROR(4".toList

def firstGuard : Head :=
  ⟨"MAX(1) + ".toList, "IFERROR".toList, "ABS(2), (3)) * IFERROR(4".toList⟩

theorem replaces_delimited_spans_firstGuard :
    firstGuard.StandsIn callBeforeGuards ∧ ¬StaysOpen ('(' :: firstGuard.after) ∧
      (∀ other : Head, other.IsDueIn callBeforeGuards ↔ other = firstGuard) ∧
      ∃ call : Call, Call.next? callBeforeGuards = .ok (some call) ∧
        call.IsSpanOf firstGuard callBeforeGuards ∧
        call.arguments = "ABS(2), (3)".toList := by
  have due : firstGuard.IsDueIn callBeforeGuards := Call.isDueIn_of_pick rfl
  have closed : ¬StaysOpen ('(' :: firstGuard.after) := by
    rw [staysOpen_iff]
    decide +kernel
  obtain ⟨_, spans, _⟩ := replaces_delimited_spans callBeforeGuards
  obtain ⟨head, only, _, goesOn, _⟩ := spans ⟨firstGuard, due.stands⟩
  cases (only firstGuard).mp due
  obtain ⟨call, next, span⟩ := goesOn closed
  refine ⟨due.stands, closed, only, call, next, span, ?_⟩
  have found : Call.next? callBeforeGuards =
      .ok (some ⟨"MAX(1) + ".toList, "IFERROR".toList, "ABS(2), (3)".toList,
        " * IFERROR(4".toList⟩) := rfl
  rw [next] at found
  cases found
  rfl

end Resolver

end QuantityFormula
