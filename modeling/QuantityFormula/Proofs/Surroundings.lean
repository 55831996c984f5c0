import QuantityFormula.Proofs.Heads
import QuantityFormula.Proofs.Items

/-!
Heads and calls of a text that stands inside of another. A head is a name, blanks and a parenthesis
behind no word, wherever it stands. So a text keeps its heads in any surroundings that do not reach
into it, and if its parentheses balance it keeps its calls.
-/

set_option autoImplicit false

namespace QuantityFormula

open Text

namespace Head

/-! ### Where heads are -/

private theorem continuesWord_append (afterWord : Bool) (left right : Text) :
    continuesWord afterWord (left ++ right) =
      continuesWord (continuesWord afterWord left) right := by
  rw [continuesWord, List.foldl_append]
  rfl

theorem continuesWord_eq_false_iff {before : Text} :
    continuesWord false before = false ↔ ∀ c ∈ before.getLast?, isWordChar c = false := by
  rcases List.eq_nil_or_concat before with rfl | ⟨front, c, rfl⟩
  · exact iff_of_true rfl nofun
  · rw [List.concat_eq_append, continuesWord_append, List.getLast?_concat]
    constructor
    · rintro apart _ ⟨⟩
      exact apart
    · exact fun apart => apart c rfl

private theorem mem_all_append {head : Head} {left right : Text} {afterWord : Bool}
    (member : head ∈ all (continuesWord afterWord left) right) :
    keepAll left head ∈ all afterWord (left ++ right) := by
  induction left generalizing afterWord with
  | nil => exact member
  | cons c left ih =>
      rw [List.cons_append, all]
      exact List.mem_append_right _ (List.mem_map.mpr ⟨_, ih member, rfl⟩)

private theorem exists_of_here? {afterWord : Bool} {text : Text} {head : Head}
    (found : here? afterWord text = some head) :
    ∃ (name : FunctionName) (gap : Text),
      isBlank gap = true ∧ head.name = name.text ∧ head.before = [] ∧
      text = name.text ++ (gap ++ '(' :: head.after) ∧ afterWord = false := by
  unfold here? at found
  split at found
  · cases found
  rename_i c following
  split at found
  · rename_i starts
    rw [Bool.and_eq_true, Bool.not_eq_true'] at starts
    split at found
    · rename_i after opened
      cases found
      refine ⟨⟨c, following.takeWhile isNameChar, starts.2,
        fun c member => List.mem_takeWhile_imp member⟩,
        (following.dropWhile isNameChar).takeWhile isBlankChar, List.all_takeWhile,
        rfl, rfl, ?_, starts.1⟩
      have behindName := List.takeWhile_append_dropWhile (p := isBlankChar) (l :=
        following.dropWhile isNameChar)
      rw [opened] at behindName
      rw [FunctionName.text, List.cons_append, behindName, List.takeWhile_append_dropWhile]
    · cases found
  · cases found

/-- A head of a text is a name, blanks and an opening parenthesis in it, with no
word in front of the name. -/
theorem mem_all_iff {afterWord : Bool} {text : Text} {head : Head} :
    head ∈ all afterWord text ↔ ∃ (name : FunctionName) (gap : Text),
      isBlank gap = true ∧ head.name = name.text ∧
      text = head.before ++ (name.text ++ (gap ++ '(' :: head.after)) ∧
      continuesWord afterWord head.before = false := by
  constructor
  · intro member
    induction text generalizing afterWord head with
    | nil => cases member
    | cons c text ih =>
        rw [all, List.mem_append, Option.mem_toList, List.mem_map] at member
        rcases member with here | ⟨later, laterMember, rfl⟩
        · obtain ⟨name, gap, blank, named, atStart, whole, fresh⟩ := exists_of_here? here
          exact ⟨name, gap, blank,
            named, by rw [atStart]; exact whole, by rw [atStart]; exact fresh⟩
        · obtain ⟨name, gap, blank, named, rfl, fresh⟩ := ih laterMember
          exact ⟨name, gap, blank, named, rfl, fresh⟩
  · rintro ⟨name, gap, blank, named, rfl, fresh⟩
    have first : (⟨[], name.text, head.after⟩ : Head) ∈ all false
        (name.text ++ (gap ++ '(' :: head.after)) := by
      rw [all_name name blank]
      exact List.mem_cons_self
    rw [← fresh] at first
    have member := mem_all_append first
    rw [keepAll, List.append_nil] at member
    rw [← named] at member ⊢
    exact member

/-! ### A text behind -/

/-- A text that neither goes on with a name in front of it nor opens a parenthesis for it. -/
def Closes (text : Text) : Prop :=
  (∀ c ∈ text.head?, isNameChar c = false) ∧ (text.dropWhile isBlankChar).head? ≠ some '('

theorem closes_cons {c : Char} (unnamed : isNameChar c = false)
    (solid : isBlankChar c = false) (other : c ≠ '(') (text : Text) : Closes (c :: text) := by
  refine ⟨?_, ?_⟩
  · rintro _ ⟨⟩
    exact unnamed
  · rw [List.dropWhile_cons, solid, if_neg Bool.false_ne_true]
    rintro ⟨⟩
    exact other rfl

theorem closes_blank {gap : Text} (blank : isBlank gap = true) : Closes gap := by
  refine ⟨?_, ?_⟩
  · intro c first
    exact (isBlankChar_separates (List.all_eq_true.mp blank c (List.mem_of_mem_head? first))).2.1
  · rw [List.dropWhile_eq_nil_iff.mpr (List.all_eq_true.mp blank)]
    nofun

def extend (behind : Text) (head : Head) : Head :=
  ⟨head.before, head.name, head.after ++ behind⟩

def opened? : Text → Option Text
  | '(' :: after => some after
  | _ => none

theorem opened?_eq_none {text : Text} (unopened : text.head? ≠ some '(') : opened? text = none := by
  unfold opened?
  split
  · exact absurd rfl unopened
  · rfl

private theorem opened?_append (c : Char) (text behind : Text) :
    opened? (c :: (text ++ behind)) = (opened? (c :: text)).map (· ++ behind) := by
  by_cases opens : c = '('
  · subst opens
    rfl
  · have other (text : Text) : (c :: text).head? ≠ some '(' :=
      fun same => opens (Option.some.inj same)
    rw [opened?_eq_none (other _), opened?_eq_none (other _)]
    rfl

theorem here?_cons (afterWord : Bool) (c : Char) (text : Text) :
    here? afterWord (c :: text) =
      if (!afterWord && isNameStart c) = true then
        (opened? ((text.dropWhile isNameChar).dropWhile isBlankChar)).map fun after =>
          ⟨[], c :: text.takeWhile isNameChar, after⟩
      else
        none := by
  rw [here?]
  split
  · split
    · rename_i after found
      rw [found]
      rfl
    · rename_i other
      rw [opened?_eq_none]
      · rfl
      · intro same
        obtain ⟨after, found⟩ := List.head?_eq_some_iff.mp same
        exact other after found
  · rfl

private theorem here?_append {behind : Text} (closes : Closes behind) (afterWord : Bool)
    (c : Char) (text : Text) :
    here? afterWord (c :: (text ++ behind)) = (here? afterWord (c :: text)).map
      (extend behind) := by
  obtain ⟨stops, unopened⟩ := closes
  have stopped : behind.takeWhile isNameChar = [] ∧ behind.dropWhile isNameChar = behind := by
    cases behind with
    | nil => exact ⟨rfl, rfl⟩
    | cons d behind =>
        rw [List.takeWhile_cons, List.dropWhile_cons, stops d rfl]
        exact ⟨rfl, rfl⟩
  -- The name ends in the text itself, since the text behind does not go on with it.
  have name : (text ++ behind).takeWhile isNameChar = text.takeWhile isNameChar := by
    rw [List.takeWhile_append]
    split
    · rename_i all
      rw [stopped.1, List.append_nil]
      exact ((List.takeWhile_prefix isNameChar).eq_of_length all).symm
    · rfl
  have rest : (text ++ behind).dropWhile isNameChar = text.dropWhile isNameChar ++ behind := by
    rw [List.dropWhile_append]
    split
    · rename_i empty
      rw [stopped.2, List.isEmpty_iff.mp empty, List.nil_append]
    · rfl
  have opened : opened? (((text ++ behind).dropWhile isNameChar).dropWhile isBlankChar) =
      (opened? ((text.dropWhile isNameChar).dropWhile isBlankChar)).map (· ++ behind) := by
    rw [rest, List.dropWhile_append]
    cases (text.dropWhile isNameChar).dropWhile isBlankChar with
    | nil =>
        rw [List.isEmpty_nil, if_pos rfl, opened?_eq_none unopened]
        rfl
    | cons d tail =>
        rw [List.isEmpty_cons, if_neg Bool.false_ne_true]
        exact opened?_append d tail behind
  rw [here?_cons, here?_cons, name, opened]
  split
  · rw [Option.map_map, Option.map_map]
    rfl
  · rfl

/-- Behind a text that closes it a text has the heads it has alone. -/
theorem all_append {behind : Text} (closes : Closes behind) (afterWord : Bool) (text : Text) :
    all afterWord (text ++ behind) =
      (all afterWord text).map (extend behind) ++ (all (continuesWord afterWord text) behind).map
        (keepAll text) := by
  induction text generalizing afterWord with
  | nil => exact (List.map_id _).symm
  | cons c text ih =>
      rw [List.cons_append, all, here?_append closes, ih, all, List.map_append,
        List.map_append, List.map_map, List.map_map, List.map_map,
        List.append_assoc, Option.toList_map]
      rfl

theorem pairwise_all (afterWord : Bool) (text : Text) :
    (all afterWord text).Pairwise fun earlier later =>
      earlier.before.length < later.before.length := by
  induction text generalizing afterWord with
  | nil => exact .nil
  | cons c text ih =>
      rw [all, List.pairwise_append]
      refine ⟨?_, ?_, ?_⟩
      · cases here? afterWord (c :: text) with
        | none => exact .nil
        | some head => exact List.pairwise_singleton _ _
      · rw [List.pairwise_map]
        exact (ih _).imp Nat.succ_lt_succ
      · intro head here later member
        obtain ⟨other, _, rfl⟩ := List.mem_map.mp member
        obtain ⟨_, _, _, _, atStart, _⟩ := exists_of_here? (Option.mem_toList.mp here)
        rw [atStart]
        exact Nat.succ_pos _

end Head

/-- In front of a parenthesis of a text that balances groups may be open, and
behind it there is one more. -/
theorem Text.exists_depth {before after : Text} {depth : Nat}
    (balanced : isBalancedFrom depth (before ++ '(' :: after) = true) :
    ∃ depth, isBalancedFrom (depth + 1) after = true := by
  induction before generalizing depth with
  | nil => exact ⟨depth, balanced⟩
  | cons c before ih =>
      by_cases unopened : depth = 0 ∧ c = ')'
      · obtain ⟨rfl, rfl⟩ := unopened
        cases balanced
      · rw [List.cons_append, isBalancedFrom_cons _ _ _ unopened] at balanced
        exact ih balanced

namespace Call

/-! ### The head of the next call -/

def pick (heads : List Head) : Option Head :=
  (heads.find? fun head => isGuardedName head.name).or heads.getLast?

theorem next?_eq_pick (text : Text) :
    next? text = match pick (Head.all false text) with
      | some head => some <$> ofHead head
      | none => .ok none := by
  unfold next? pick
  rw [Head.first?_eq_find?, Head.last?_eq_getLast?]
  cases (Head.all false text).find? fun head => isGuardedName head.name <;> rfl

theorem pick_eq_none_iff {heads : List Head} : pick heads = none ↔ heads = [] := by
  constructor
  · intro nothing
    exact List.getLast?_eq_none_iff.mp (Option.or_eq_none_iff.mp nothing).2
  · rintro rfl
    rfl

theorem pick_cons_of_guarded {head : Head} (guarded : isGuardedName head.name = true)
    (heads : List Head) :
    pick (head :: heads) = some head := by
  simp [pick, guarded]

theorem next?_eq_none_iff {text : Text} : next? text = .ok none ↔ Head.all false text = [] := by
  rw [next?_eq_pick, ← pick_eq_none_iff]
  cases pick (Head.all false text) with
  | none => exact iff_of_true rfl rfl
  | some head =>
      refine iff_of_false (fun blocked => ?_) nofun
      obtain ⟨_, _, same⟩ := exists_of_map_eq_ok blocked
      cases same

/-- In front of the head that is picked no head is guarded, and if it is not
guarded itself it is the last. -/
theorem exists_of_pick {heads : List Head} {head : Head} (picked : pick heads = some head) :
    ∃ earlier later, heads = earlier ++ head :: later ∧
      (∀ other ∈ earlier, isGuardedName other.name = false) ∧
      (isGuardedName head.name = false → later = []) := by
  unfold pick at picked
  cases guarded : heads.find? fun head => isGuardedName head.name with
  | some first =>
      rw [guarded] at picked
      cases picked
      obtain ⟨guards, earlier, later, split, unguarded⟩ := List.find?_eq_some_iff_append.mp guarded
      refine ⟨earlier, later, split, fun other member => by simpa using unguarded other member, ?_⟩
      intro free
      rw [guards] at free
      cases free
  | none =>
      rw [guarded, Option.none_or] at picked
      obtain ⟨earlier, rfl⟩ := List.getLast?_eq_some_iff.mp picked
      have unguarded := List.find?_eq_none.mp guarded
      refine ⟨earlier, [], rfl, fun other member => ?_, fun _ => rfl⟩
      simpa using unguarded other (List.mem_append_left _ member)

theorem mem_of_pick {heads : List Head} {head : Head}
    (picked : pick heads = some head) : head ∈ heads := by
  obtain ⟨earlier, later, rfl, _⟩ := exists_of_pick picked
  exact List.mem_append_right _ List.mem_cons_self

/-- If the head that is picked is not guarded, no head is, and it is the last one. -/
theorem unguarded_of_pick {heads : List Head} {head : Head} (picked : pick heads = some head)
    (unguarded : isGuardedName head.name = false) :
    (∀ other ∈ heads, isGuardedName other.name = false) ∧ ∃ earlier, heads = earlier ++ [head] := by
  obtain ⟨earlier, later, rfl, free, last⟩ := exists_of_pick picked
  cases last unguarded
  refine ⟨?_, earlier, rfl⟩
  intro other member
  rcases List.mem_append.mp member with inFront | itself
  · exact free other inFront
  · rw [List.mem_singleton.mp itself]
    exact unguarded

theorem pick_map {place : Head → Head} (named : ∀ head, (place head).name = head.name)
    (heads : List Head) :
    pick (heads.map place) = (pick heads).map place := by
  unfold pick
  rw [List.find?_map, List.getLast?_map]
  have same : ((fun head => isGuardedName head.name) ∘ place) = fun head : Head =>
      isGuardedName head.name := by
    funext head
    exact congrArg isGuardedName (named head)
  rw [same]
  cases heads.find? fun head => isGuardedName head.name <;> rfl

/-- Some heads have the next call among them if none in front of them is guarded, and if one of them
is guarded or none stands behind them. -/
theorem pick_middle {before heads after : List Head}
    (unguarded : ∀ head ∈ before, isGuardedName head.name = false)
    (due : (∃ head ∈ heads, isGuardedName head.name = true) ∨ heads ≠ [] ∧ after = []) :
    pick (before ++ (heads ++ after)) = pick heads := by
  have nothing : before.find? (fun head => isGuardedName head.name) = none := by
    rw [List.find?_eq_none]
    intro head member
    rw [unguarded head member]
    exact Bool.false_ne_true
  unfold pick
  rw [List.find?_append, nothing, Option.none_or, List.find?_append]
  cases guarded : heads.find? fun head => isGuardedName head.name with
  | some head => rfl
  | none =>
      rcases due with ⟨head, member, guards⟩ | ⟨nonempty, rfl⟩
      · exact absurd guards (List.find?_eq_none.mp guarded head member)
      · obtain ⟨first, others, rfl⟩ := List.exists_cons_of_ne_nil nonempty
        rw [List.append_nil, List.getLast?_append, List.getLast?_cons, Option.some_or]
        rfl

/-! ### Where calls are -/

def Parts (call : Call) (text : Text) : Prop :=
  ∃ (name : FunctionName) (gap : Text), isBlank gap = true ∧ call.name = name.text ∧
    text = call.before ++ (name.text ++ (gap ++ '(' :: (call.arguments ++ ')' :: call.after))) ∧
    Head.continuesWord false call.before = false ∧ isBalanced call.arguments = true

theorem ofHead_eq_ok {head : Head} {call : Call} (located : ofHead head = .ok call) :
    call.before = head.before ∧ call.name = head.name ∧
      head.after = call.arguments ++ ')' :: call.after ∧
      isBalanced call.arguments = true := by
  unfold ofHead at located
  split at located
  · rename_i arguments after closed
    cases located
    obtain ⟨shape, balanced⟩ := splitClosing?_eq_some_iff.mp closed
    exact ⟨rfl, rfl, shape, balanced⟩
  · cases located

private theorem exists_pick_of_next? {text : Text} {call : Call}
    (next : next? text = .ok (some call)) :
    ∃ head, pick (Head.all false text) = some head ∧ ofHead head = .ok call := by
  rw [next?_eq_pick] at next
  split at next
  · rename_i head picked
    obtain ⟨located, ofHead, same⟩ := exists_of_map_eq_ok next
    cases same
    exact ⟨head, picked, ofHead⟩
  · cases next

theorem parts_of_next? {text : Text} {call : Call}
    (next : next? text = .ok (some call)) : call.Parts text := by
  obtain ⟨head, picked, located⟩ := exists_pick_of_next? next
  obtain ⟨name, gap, blank, named, rfl, fresh⟩ := Head.mem_all_iff.mp (mem_of_pick picked)
  obtain ⟨before, same, after, balanced⟩ := ofHead_eq_ok located
  rw [after, ← before]
  exact ⟨name, gap, blank, same.trans named, rfl, by rw [before]; exact fresh, balanced⟩

/-- A call that is not guarded is next only where no head is guarded, and holds no other. -/
theorem unguarded_of_next? {text : Text} {call : Call} (next : next? text = .ok (some call))
    (unguarded : isGuardedName call.name = false) :
    (∀ head ∈ Head.all false text, isGuardedName head.name = false) ∧
      Head.all false call.arguments = [] := by
  obtain ⟨name, gap, blank, named, whole, _, _⟩ := parts_of_next? next
  obtain ⟨head, picked, located⟩ := exists_pick_of_next? next
  obtain ⟨before, same, _, _⟩ := ofHead_eq_ok located
  rw [same] at unguarded
  obtain ⟨free, earlier, split⟩ := unguarded_of_pick picked unguarded
  refine ⟨free, ?_⟩
  rw [List.eq_nil_iff_forall_not_mem]
  intro inner member
  -- A head in the arguments would stand behind that of the call.
  have closes : Head.Closes (')' :: call.after) := Head.closes_cons rfl rfl (by decide) _
  have extended : inner.extend (')' :: call.after) ∈ Head.all false
      (call.arguments ++ ')' :: call.after) := by
    rw [Head.all_append closes]
    exact List.mem_append_left _ (List.mem_map_of_mem member)
  have placed : Head.keepAll (call.before ++ (name.text ++ (gap ++ ['('])))
      (inner.extend (')' :: call.after)) ∈ Head.all false text := by
    have fresh : Head.continuesWord false (call.before ++ (name.text ++ (gap ++ ['(']))) =
        false := by
      simp [Head.continuesWord]
      rfl
    rw [← fresh] at extended
    have member := Head.mem_all_append extended
    rw [whole]
    simpa using member
  have order := Head.pairwise_all false text
  rw [split] at order placed
  rcases List.mem_append.mp placed with inFront | itself
  · have shorter := (List.pairwise_append.mp order).2.2 _ inFront _ (List.mem_singleton_self head)
    rw [← before] at shorter
    simp [Head.keepAll, Head.extend] at shorter
  · have length := congrArg (fun head : Head => head.before.length) (List.mem_singleton.mp itself)
    rw [← before] at length
    simp [Head.keepAll, Head.extend, FunctionName.text] at length

private theorem ofHead_of_balanced {afterWord : Bool} {text : Text}
    (balanced : isBalanced text = true) {head : Head}
    (member : head ∈ Head.all afterWord text) : ∃ call, ofHead head = .ok call := by
  obtain ⟨name, gap, _, _, rfl, _⟩ := Head.mem_all_iff.mp member
  rw [← List.append_assoc, ← List.append_assoc] at balanced
  obtain ⟨depth, opened⟩ := exists_depth balanced
  have inner : isBalancedFrom (depth + 1 + 0) head.after = true := opened
  obtain ⟨inside, after, closed⟩ := exists_splitClosing? inner
  exact ⟨_, by rw [ofHead, closed]⟩

theorem next?_of_balanced {text : Text} (balanced : isBalanced text = true) :
    Head.all false text = [] ∧ next? text = .ok none ∨ ∃ call, next? text = .ok (some call) := by
  rw [next?_eq_pick]
  cases picked : pick (Head.all false text) with
  | none => exact .inl ⟨pick_eq_none_iff.mp picked, rfl⟩
  | some head =>
      obtain ⟨call, located⟩ := ofHead_of_balanced balanced (mem_of_pick picked)
      exact .inr ⟨call, by dsimp only; rw [located]; rfl⟩

/-! ### Surroundings -/

def surround (before after : Text) (call : Call) : Call :=
  ⟨before ++ call.before, call.name, call.arguments, call.after ++ after⟩

theorem replaceBy_surround (before after : Text) (call : Call) (replacement : Text) :
    (call.surround before after).replaceBy replacement =
      before ++ (call.replaceBy replacement ++ after) := by
  simp [surround, replaceBy]

private theorem ofHead_surround {head : Head} {call : Call} (located : ofHead head = .ok call)
    (before after : Text) :
    ofHead (Head.keepAll before (head.extend after)) = .ok (call.surround before after) := by
  obtain ⟨same, named, shape, balanced⟩ := ofHead_eq_ok located
  have closed : splitClosing? 0 (head.after ++ after) =
      some (call.arguments, call.after ++ after) :=
    splitClosing?_eq_some_iff.mpr ⟨by rw [shape, List.append_assoc]; rfl, balanced⟩
  rw [ofHead, show (Head.keepAll before (head.extend after)).after = head.after ++ after from rfl,
    closed, surround, same, named]
  rfl

/-- A text keeps its next call in surroundings whose own heads are not due before. -/
theorem next?_surround {text whole before after : Text} {call : Call}
    (next : next? text = .ok (some call)) (picked : pick (Head.all false whole) =
      (pick (Head.all false text)).map fun head => Head.keepAll before (head.extend after)) :
    next? whole = .ok (some (call.surround before after)) := by
  obtain ⟨head, own, located⟩ := exists_pick_of_next? next
  rw [own] at picked
  rw [next?_eq_pick, picked]
  change some <$> ofHead (Head.keepAll before (head.extend after)) = _
  rw [ofHead_surround located]
  rfl

end Call

end QuantityFormula
