import QuantityFormula.Proofs.Invocation

/-!
Calculations on arguments with calls of their own. The calls of all arguments are replaced on one
text, those of a guard from the left and then the others from the right. Each pass is one that the
argument takes alone, in the order in which it takes them alone, so every argument comes to its own
value and none is passed over if it fails.
-/

set_option autoImplicit false

namespace QuantityFormula

open Text

/-! ### Arguments on both sides of one -/

def argumentsBefore (pieces : List Text) : Text :=
  pieces.flatMap fun piece => piece ++ [',']

def argumentsAfter (pieces : List Text) : Text :=
  pieces.flatMap fun piece => ',' :: piece

private theorem argumentsBefore_cons (piece : Text) (pieces : List Text) :
    argumentsBefore (piece :: pieces) = piece ++ ',' :: argumentsBefore pieces := by
  rw [argumentsBefore, List.flatMap_cons, List.append_assoc]
  rfl

private theorem argumentsAfter_cons (piece : Text) (pieces : List Text) :
    argumentsAfter (piece :: pieces) = ',' :: (piece ++ argumentsAfter pieces) :=
  List.flatMap_cons

private theorem intercalate_eq_append_argumentsAfter (piece : Text) (pieces : List Text) :
    [','].intercalate (piece :: pieces) = piece ++ argumentsAfter pieces := by
  induction pieces generalizing piece with
  | nil => simp [List.intercalate, argumentsAfter]
  | cons second pieces ih =>
      rw [List.intercalate_cons_cons, ih, argumentsAfter_cons, List.append_assoc]
      rfl

private theorem intercalate_eq_argumentsBefore_append (before : List Text) (piece : Text)
    (after : List Text) :
    [','].intercalate (before ++ piece :: after) =
      argumentsBefore before ++ (piece ++ argumentsAfter after) := by
  induction before with
  | nil => exact intercalate_eq_append_argumentsAfter piece after
  | cons first before ih =>
      obtain ⟨second, others, shape⟩ := List.exists_cons_of_ne_nil
        (List.append_ne_nil_of_right_ne_nil before (List.cons_ne_nil piece after))
      rw [List.cons_append, shape, List.intercalate_cons_cons, ← shape, ih,
        argumentsBefore_cons, List.append_assoc, List.append_assoc]
      rfl

namespace Head

theorem all_separator {c : Char} (apart : isWordChar c = false) (afterWord : Bool) (text : Text) :
    all afterWord (c :: text) = (all false text).map (keepAll [c]) := by
  have notStart : ∀ other ∈ [c], isNameStart other = false := by
    intro other member
    rw [List.mem_singleton.mp member]
    exact isNameStart_eq_false (isNameChar_eq_false apart)
  rw [← List.singleton_append, all_append_of_notStart notStart, continuesWord,
    List.foldl_cons, apart]
  rfl

private theorem exists_all_argumentsBefore (pieces : List Text) (text : Text) :
    ∃ earlier, all false (argumentsBefore pieces ++ text) =
        earlier ++ (all false text).map (keepAll (argumentsBefore pieces)) ∧
      ∀ head ∈ earlier, ∃ piece ∈ pieces, ∃ own ∈ all false piece, head.name = own.name := by
  induction pieces with
  | nil => exact ⟨[], (List.map_id _).symm, nofun⟩
  | cons piece pieces ih =>
      obtain ⟨earlier, split, owned⟩ := ih
      have closes : Closes (',' :: (argumentsBefore pieces ++ text)) :=
        closes_cons rfl rfl (by decide) _
      have whole : argumentsBefore (piece :: pieces) ++ text =
          piece ++ ',' :: (argumentsBefore pieces ++ text) := by
        rw [argumentsBefore_cons, List.append_assoc]
        rfl
      refine ⟨(all false piece).map (extend (',' :: (argumentsBefore pieces ++ text))) ++
        (earlier.map (keepAll [','])).map (keepAll piece), ?_, ?_⟩
      · rw [whole, all_append closes, all_separator rfl, split, argumentsBefore_cons]
        simp only [List.map_append, List.map_map, keepAll_comp_keepAll, List.append_assoc,
          List.singleton_append]
      · intro head member
        rcases List.mem_append.mp member with here | later
        · obtain ⟨own, ownMember, rfl⟩ := List.mem_map.mp here
          exact ⟨piece, List.mem_cons_self, own, ownMember, rfl⟩
        · rw [List.map_map] at later
          obtain ⟨other, otherMember, rfl⟩ := List.mem_map.mp later
          obtain ⟨otherPiece, pieceMember, own, ownMember, same⟩ := owned other otherMember
          exact ⟨otherPiece, List.mem_cons_of_mem _ pieceMember, own, ownMember, same⟩

private theorem closes_argumentsAfter (pieces : List Text) :
    Closes (argumentsAfter pieces ++ [')']) := by
  cases pieces with
  | nil => exact closes_cons rfl rfl (by decide) []
  | cons piece pieces =>
      rw [argumentsAfter_cons]
      exact closes_cons rfl rfl (by decide) _

private theorem exists_of_mem_argumentsAfter {pieces : List Text} {afterWord : Bool} {head : Head}
    (member : head ∈ all afterWord (argumentsAfter pieces ++ [')'])) :
    ∃ piece ∈ pieces, ∃ own ∈ all false piece, head.name = own.name := by
  induction pieces generalizing afterWord head with
  | nil =>
      change head ∈ all afterWord [')'] at member
      rw [all_separator rfl] at member
      cases member
  | cons piece pieces ih =>
      rw [argumentsAfter_cons, List.cons_append, List.append_assoc, all_separator rfl,
        all_append (closes_argumentsAfter pieces)] at member
      obtain ⟨inner, innerMember, rfl⟩ := List.mem_map.mp member
      rcases List.mem_append.mp innerMember with here | later
      · obtain ⟨own, ownMember, rfl⟩ := List.mem_map.mp here
        exact ⟨piece, List.mem_cons_self, own, ownMember, rfl⟩
      · obtain ⟨other, otherMember, rfl⟩ := List.mem_map.mp later
        obtain ⟨otherPiece, pieceMember, own, ownMember, same⟩ := ih otherMember
        exact ⟨otherPiece, List.mem_cons_of_mem _ pieceMember, own, ownMember, same⟩

end Head

/-! ### The call of a calculation -/

def Calculation.textOn (c : Calculation) (pieces : List Text) : Text :=
  c.name.toList ++ '(' :: ([','].intercalate pieces ++ [')'])

namespace Call

private theorem all_textOn (c : Calculation) (pieces : List Text) :
    Head.all false (c.textOn pieces) = ⟨[], c.name.toList, [','].intercalate pieces ++ [')']⟩ ::
      (Head.all false ([','].intercalate pieces ++ [')'])).map
        (Head.keepAll (c.name.toList ++ ['('])) := by
  obtain ⟨name, named⟩ := (Builtin.calculation c).exists_functionName
  change name.text = c.name.toList at named
  have heads := Head.all_name name isBlank_nil ([','].intercalate pieces ++ [')'])
  rw [List.nil_append, Head.all_separator rfl, List.map_map, Head.keepAll_comp_keepAll] at heads
  rw [Calculation.textOn, ← named]
  exact heads

private theorem isGuardedName_calculation (c : Calculation) : isGuardedName c.name.toList = false :=
  isGuardedName_name (.calculation c)

/-- The next call of the text is that of an argument with no guard in front of it, if the argument
has a guard or is the last one with a call. -/
private theorem next?_textOn_middle (c : Calculation) {before after : List Text}
    {piece : Text} {call : Call} (next : next? piece = .ok (some call))
    (unguarded : ∀ other ∈ before, ∀ head ∈ Head.all false other, isGuardedName head.name = false)
    (due : (∃ head ∈ Head.all false piece, isGuardedName head.name = true) ∨
      ∀ other ∈ after, Head.all false other = []) :
    next? (c.textOn (before ++ piece :: after)) = .ok (some (call.surround
      (c.name.toList ++ '(' :: argumentsBefore before) (argumentsAfter after ++ [')']))) := by
  apply next?_surround next
  obtain ⟨earlier, split, owned⟩ :=
    Head.exists_all_argumentsBefore before (piece ++ (argumentsAfter after ++ [')']))
  have closes := Head.closes_argumentsAfter after
  have whole : [','].intercalate (before ++ piece :: after) ++ [')'] =
      argumentsBefore before ++ (piece ++ (argumentsAfter after ++ [')'])) := by
    rw [intercalate_eq_argumentsBefore_append, List.append_assoc, List.append_assoc]
  rw [all_textOn, whole, split, Head.all_append closes]
  -- The heads are that of the call, those in front, those of the argument, and those behind.
  simp only [List.map_append, List.map_map, Head.keepAll_comp_keepAll]
  rw [← List.cons_append, pick_middle, pick_map]
  · congr 1
    funext head
    simp [Head.keepAll, Head.extend]
  · intro head
    rfl
  · intro head member
    rcases List.mem_cons.mp member with rfl | inFront
    · exact isGuardedName_calculation c
    · obtain ⟨other, otherMember, rfl⟩ := List.mem_map.mp inFront
      obtain ⟨owner, ownerMember, own, ownMember, same⟩ := owned other otherMember
      change isGuardedName other.name = false
      rw [same]
      exact unguarded owner ownerMember own ownMember
  · rcases due with ⟨head, member, guarded⟩ | behind
    · exact .inl ⟨_, List.mem_map_of_mem member, guarded⟩
    · refine .inr ⟨?_, ?_⟩
      · intro nothing
        rw [next?_eq_none_iff.mpr (List.map_eq_nil_iff.mp nothing)] at next
        cases next
      · rw [List.map_eq_nil_iff, List.eq_nil_iff_forall_not_mem]
        intro head member
        obtain ⟨other, otherMember, own, ownMember, _⟩ := Head.exists_of_mem_argumentsAfter member
        rw [behind other otherMember] at ownMember
        cases ownMember

private theorem next?_textOn_of_none (c : Calculation) {pieces : List Text}
    (each : ∀ piece ∈ pieces, IsItem piece)
    (none : ∀ piece ∈ pieces, Head.all false piece = []) (nonempty : pieces ≠ []) :
    next? (c.textOn pieces) = .ok (some ⟨[], c.name.toList, [','].intercalate pieces, []⟩) := by
  have inner : Head.all false ([','].intercalate pieces ++ [')']) = [] := by
    obtain ⟨piece, others, rfl⟩ := List.exists_cons_of_ne_nil nonempty
    rw [intercalate_eq_append_argumentsAfter, List.append_assoc,
      Head.all_append (Head.closes_argumentsAfter others), none piece List.mem_cons_self,
      List.map_nil, List.nil_append, List.map_eq_nil_iff, List.eq_nil_iff_forall_not_mem]
    intro head member
    obtain ⟨other, otherMember, own, ownMember, _⟩ := Head.exists_of_mem_argumentsAfter member
    rw [none other (List.mem_cons_of_mem _ otherMember)] at ownMember
    cases ownMember
  have neutral := isNeutral_intercalate fun piece member => (each piece member).isNeutral
  have closed : splitClosing? 0 ([','].intercalate pieces ++ [')']) =
      some ([','].intercalate pieces, []) :=
    splitClosing?_eq_some_iff.mpr ⟨rfl, isNeutral_iff.mp neutral⟩
  have picked : pick [⟨[], c.name.toList, [','].intercalate pieces ++ [')']⟩] =
      some ⟨[], c.name.toList, [','].intercalate pieces ++ [')']⟩ := by
    simp [pick, isGuardedName_calculation]
  rw [next?_eq_pick, all_textOn, inner, List.map_nil, picked]
  dsimp only
  rw [ofHead, closed]
  rfl

theorem exists_due {pieces : List Text} (some : ∃ piece ∈ pieces, Head.all false piece ≠ []) :
    ∃ before piece after, pieces = before ++ piece :: after ∧ Head.all false piece ≠ [] ∧
      (∀ other ∈ before, ∀ head ∈ Head.all false other, isGuardedName head.name = false) ∧
      ((∃ head ∈ Head.all false piece, isGuardedName head.name = true) ∨ ∀ other ∈ after,
        Head.all false other = []) := by
  induction pieces with
  | nil =>
      obtain ⟨_, member, _⟩ := some
      cases member
  | cons first pieces ih =>
      by_cases guarded : ∃ head ∈ Head.all false first, isGuardedName head.name = true
      · refine ⟨[], first, pieces, rfl, ?_, nofun, .inl guarded⟩
        obtain ⟨head, member, _⟩ := guarded
        exact List.ne_nil_of_mem member
      by_cases later : ∃ piece ∈ pieces, Head.all false piece ≠ []
      · obtain ⟨before, piece, after, rfl, calls, unguarded, due⟩ := ih later
        refine ⟨first :: before, piece, after, rfl, calls, ?_, due⟩
        intro other member head headMember
        rcases List.mem_cons.mp member with rfl | inFront
        · exact Bool.eq_false_iff.mpr fun guards => guarded ⟨head, headMember, guards⟩
        · exact unguarded other inFront head headMember
      · have behind : ∀ other ∈ pieces, Head.all false other = [] :=
          fun other member => Classical.byContradiction fun calls => later ⟨other, member, calls⟩
        obtain ⟨piece, member, calls⟩ := some
        rcases List.mem_cons.mp member with rfl | inside
        · exact ⟨[], piece, pieces, rfl, calls, nofun, .inr behind⟩
        · exact absurd (behind piece inside) calls

private theorem isBlank_inlineNumber {x : Float} (finite : x.isFinite = true) :
    isBlank (inlineNumber x) = false := by
  have chars := forall_mem_inlineNumber finite
  obtain ⟨c, rest, shape⟩ := List.exists_cons_of_ne_nil (inlineNumber_ne_nil finite)
  rw [shape] at chars ⊢
  rw [isBlank, List.all_cons, isBlankChar_eq_false (chars c List.mem_cons_self)]
  rfl

private theorem isItem_replaceBy {text : Text} (isItem : IsItem text) {call : Call}
    (parts : call.Parts text) {x : Float} (finite : x.isFinite = true) :
    IsItem (call.replaceBy (inlineNumber x)) ∧
      isBlank (call.replaceBy (inlineNumber x)) = false := by
  obtain ⟨name, gap, blank, _, rfl, _, balanced⟩ := parts
  have named : IsItem name.text := by
    apply isItem_of_class Head.isNameChar rfl
    intro c member
    rcases List.mem_cons.mp member with rfl | later
    · exact Head.isNameChar_of_isNameStart name.start
    · exact name.following c later
  have group : IsItem ('(' :: (call.arguments ++ ')' :: [])) :=
    .group (isNeutral_iff.mpr balanced) .nil
  have span := named.append ((isItem_blank blank).append group)
  have split : name.text ++ (gap ++ '(' :: (call.arguments ++ ')' :: call.after)) =
      (name.text ++ (gap ++ '(' :: (call.arguments ++ ')' :: []))) ++ call.after := by simp
  rw [split] at isItem
  rw [replaceBy, List.append_assoc]
  refine ⟨isItem.replace span (isItem_inlineNumber x), ?_⟩
  rw [isBlank_append, isBlank_append, isBlank_inlineNumber finite, Bool.false_and, Bool.and_false]

end Call

namespace Resolver

def Sums (c : Calculation) (pieces : List Text) : Prop :=
  match (pieces.map (outcome 0)).mapM id with
  | .ok values => outcome 0 (c.textOn pieces) = (c.apply values >>=
    fun x => unsignedZero <$> Arithmetic.requireFinite x)
  | .error _ => ∃ fault, outcome 0 (c.textOn pieces) = .error fault

private theorem sums_of_none (c : Calculation) {pieces : List Text} (nonempty : pieces ≠ [])
    (each : ∀ piece ∈ pieces, IsItem piece ∧ isBlank piece = false)
    (none : ∀ piece ∈ pieces, Head.all false piece = []) : Sums c pieces := by
  have next := Call.next?_textOn_of_none c (fun piece member => (each piece member).1) none nonempty
  have whole : outcome 0 (c.textOn pieces) = _ :=
    @outcome_of_whole (.calculation c) _ _ _ next (Call.splitArguments_intercalate nonempty each) 0
  have listed (items : List Text) : items.mapM (outcome 0) = (items.map (outcome 0)).mapM id := by
    rw [List.mapM_map]
    rfl
  have trimmed : (pieces.map trim).map (outcome 0) = pieces.map (outcome 0) := by
    rw [List.map_map]
    exact List.map_congr_left fun piece member => outcome_trim (each piece member).1 0
  rw [applied, listed, trimmed] at whole
  unfold Sums
  rw [whole]
  cases (pieces.map (outcome 0)).mapM id with
  | error fault => exact ⟨fault, rfl⟩
  | ok values => rfl

private theorem outcome_textOn_of_next (c : Calculation) {before after : List Text}
    {piece : Text} {call : Call} (next : Call.next? piece = .ok (some call))
    (whole : Call.next? (c.textOn (before ++ piece :: after)) = .ok (some (call.surround
      (c.name.toList ++ '(' :: argumentsBefore before) (argumentsAfter after ++ [')'])))) :
    (∃ fault, outcome 0 piece = .error fault ∧
        outcome 0 (c.textOn (before ++ piece :: after)) = .error fault) ∨
      ∃ x : Float, x.isFinite = true ∧
        outcome 0 piece = outcome 0 (call.replaceBy (inlineNumber x)) ∧
        outcome 0 (c.textOn (before ++ piece :: after)) =
          outcome 0 (c.textOn (before ++ call.replaceBy (inlineNumber x) :: after)) := by
  have same : replacement 0 (call.surround (c.name.toList ++ '(' :: argumentsBefore before)
      (argumentsAfter after ++ [')'])) = replacement 0 call := rfl
  have replaced (x : Float) : (call.surround (c.name.toList ++ '(' :: argumentsBefore before)
      (argumentsAfter after ++ [')'])).replaceBy (inlineNumber x) =
        c.textOn (before ++ call.replaceBy (inlineNumber x) :: after) := by
    rw [Call.replaceBy_surround, Calculation.textOn, intercalate_eq_argumentsBefore_append]
    simp only [List.append_assoc, List.cons_append]
  rw [outcome_of_next next, outcome_of_next whole, same]
  cases valued : replacement 0 call with
  | error fault => exact .inl ⟨fault, rfl, rfl⟩
  | ok x => exact .inr ⟨x, isFinite_of_replacement valued, rfl, congrArg (outcome 0) (replaced x)⟩

/-- A calculation sums up the outcomes of its arguments. -/
theorem sums (c : Calculation) {pieces : List Text} (nonempty : pieces ≠ [])
    (each : ∀ piece ∈ pieces, IsItem piece ∧ isBlank piece = false) : Sums c pieces := by
  -- By the number of words in all arguments. A pass takes some from one of them
  -- and leaves the others alone.
  induction size : (pieces.map nameWords.count).sum using Nat.strongRecOn generalizing pieces with
  | ind count ih =>
      by_cases calls : ∃ piece ∈ pieces, Head.all false piece ≠ []
      · obtain ⟨before, piece, after, rfl, calls, unguarded, due⟩ := Call.exists_due calls
        obtain ⟨isItem, solid⟩ := each piece (by simp)
        rcases Call.next?_of_balanced (isNeutral_iff.mp isItem.isNeutral) with
            ⟨nothing, _⟩ | ⟨call, next⟩
        · exact absurd nothing calls
        have parts := Call.parts_of_next? next
        unfold Sums
        rcases outcome_textOn_of_next c next (Call.next?_textOn_middle c next unguarded due) with
          ⟨fault, failed, wholeFailed⟩ | ⟨x, finite, same, wholeSame⟩
        · have member : .error fault ∈ (before ++ piece :: after).map (outcome 0) :=
            List.mem_map.mpr ⟨piece, by simp, failed⟩
          obtain ⟨first, failed⟩ := exists_error_of_mem member
          rw [failed]
          exact ⟨fault, wholeFailed⟩
        · rw [List.map_append, List.map_cons, same, ← List.map_cons, ← List.map_append, wholeSame]
          refine ih _ ?_ (by simp) ?_ rfl
          · have words := nameWords.count_of_parts parts
            have fewer := nameWords.count_replaceBy_le parts finite
            rw [nameWords_counts parts, if_pos rfl] at words
            rw [← size]
            simp only [List.map_append, List.map_cons, List.sum_append, List.sum_cons]
            omega
          · intro other member
            rcases List.mem_append.mp member with inFront | here
            · exact each other (List.mem_append_left _ inFront)
            rcases List.mem_cons.mp here with rfl | behind
            · exact Call.isItem_replaceBy isItem parts finite
            · exact each other (List.mem_append_right _ (List.mem_cons_of_mem _ behind))
      · apply sums_of_none c nonempty each
        intro piece member
        exact Classical.byContradiction fun nonempty => calls ⟨piece, member, nonempty⟩

theorem callText_calculation (c : Calculation) (arguments : List Text) :
    (Builtin.calculation c).callText arguments = c.textOn (spaced arguments) := by
  rw [Builtin.callText, intercalate_spaced]
  rfl

private theorem count_le_of_mem_arguments (kind : WordKind) (builtin : Builtin)
    {arguments : List Text}
    (each : ∀ argument ∈ arguments, IsItem argument ∧ isBlank argument = false) {argument : Text}
    (member : argument ∈ arguments) :
    kind.count argument ≤ kind.count (builtin.callText arguments) := by
  obtain ⟨name, named⟩ := builtin.exists_functionName
  have parts : (builtin.call arguments).Parts (builtin.callText arguments) := by
    refine ⟨name, [], rfl, named.symm, ?_, rfl, ?_⟩
    · rw [named]
      rfl
    · exact isNeutral_iff.mp (isNeutral_spaced fun argument member => (each argument member).1)
  have split := Call.splitArguments_spaced (List.ne_nil_of_mem member) each
  have few := kind.count_le_of_mem_splitArguments split (List.mem_map_of_mem member)
  have words := kind.count_of_parts parts
  rw [kind.count_trim] at few
  change _ = _ + _ + kind.count ([',', ' '].intercalate arguments) + _ at words
  omega

theorem mapM_of_forall₂ {arguments : List Text} {values : List Float}
    {evaluate : Text → Except Fault Float}
    (valued : List.Forall₂ (fun argument value => evaluate argument = .ok value) arguments values) :
    (arguments.map evaluate).mapM id = .ok values := by
  induction valued with
  | nil => rfl
  | cons first rest ih =>
      rw [List.map_cons, List.mapM_cons, id, first, ih]
      rfl

/-- A calculation has the value of its function on the values of its arguments, and
fails if one of them does. -/
theorem evaluate_calculation (c : Calculation) {arguments : List Text} (nonempty : arguments ≠ [])
    (each : ∀ argument ∈ arguments, IsItem argument ∧ isBlank argument = false) {maxPasses : Nat}
    (enough : nameWords.count ((Builtin.calculation c).callText arguments) ≤ maxPasses) :
    (∀ values,
      List.Forall₂ (fun argument value => runFresh maxPasses (evaluate argument) = .ok value)
        arguments values →
      runFresh maxPasses (evaluate ((Builtin.calculation c).callText arguments)) =
        (c.apply values >>= fun x => unsignedZero <$> Arithmetic.requireFinite x)) ∧
    ∀ argument ∈ arguments, ∀ fault, runFresh maxPasses (evaluate argument) = .error fault →
      ∃ first, runFresh maxPasses (evaluate ((Builtin.calculation c).callText arguments)) =
        .error first := by
  have alone : ∀ argument ∈ arguments, runFresh maxPasses (evaluate argument) =
      outcome 0 argument :=
    fun argument member => runFresh_evaluate
      ((count_le_of_mem_arguments nameWords (.calculation c) each member).trans enough)
  have someSpaced : spaced arguments ≠ [] := by
    obtain ⟨first, others, rfl⟩ := List.exists_cons_of_ne_nil nonempty
    exact List.cons_ne_nil _ _
  have sameOutcomes : (spaced arguments).map (outcome 0) = arguments.map (outcome 0) := by
    apply map_spaced
    intro argument member
    have balanced := isNeutral_iff.mp (each argument member).1.isNeutral
    have unspaced : outcome 0 ([' '] ++ (argument ++ [])) = outcome 0 argument :=
      outcome_blanks rfl rfl balanced 0
    rwa [List.append_nil] at unspaced
  have summed := sums c someSpaced (forall_mem_spaced each isArgument_cons_blank)
  unfold Sums at summed
  rw [sameOutcomes, ← callText_calculation] at summed
  rw [runFresh_evaluate enough]
  constructor
  · intro values valued
    have owned : List.Forall₂
        (fun argument value => outcome 0 argument = .ok value) arguments values :=
      ((List.forall₂_and_left _ _).mpr ⟨alone, valued⟩).imp fun _ _ both => both.1.symm.trans both.2
    rw [mapM_of_forall₂ owned] at summed
    exact summed
  · intro argument member fault failed
    rw [alone argument member] at failed
    obtain ⟨first, failedFirst⟩ := exists_error_of_mem (List.mem_map.mpr ⟨argument, member, failed⟩)
    rw [failedFirst] at summed
    exact summed

/-- A choice on the word of a guard, and one that fails for the branch it does not take. -/
theorem evaluate_calculation_choose :
    runFresh 3 (evaluate ((Builtin.calculation .choose).callText
        (["IFERROR(1/0, 1)", "ABS(-2)", "4"].map String.toList))) = .ok 2 ∧
      ∃ fault, runFresh 1 (evaluate ((Builtin.calculation .choose).callText
        (["1", "2", "1/0"].map String.toList))) = .error fault := by
  constructor
  · rw [(evaluate_calculation .choose (by decide) (by decide +kernel) (by decide +kernel)).1
      [1, 2, 4] ?_]
    · decide +kernel
    · refine .cons ?_ (.cons ?_ (.cons ?_ .nil)) <;> decide +kernel
  · exact (evaluate_calculation .choose (by decide) (by decide +kernel) (by decide +kernel)).2
      "1/0".toList
      (by decide +kernel) .divisionByZero (by decide +kernel)

end Resolver

end QuantityFormula
