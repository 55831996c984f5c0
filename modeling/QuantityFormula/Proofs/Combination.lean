import QuantityFormula.Proofs.EagerCalls
import QuantityFormula.Proofs.Passes
import QuantityFormula.Proofs.StackFrames

/-!
Evaluation follows the operators between texts. Two texts in parentheses with a sign between them
are resolved on one text, those calls first that have a guard, but each pass is one that one of the
two takes alone, in the order in which it takes them alone. So they come to the texts they come to
alone, their passes add up, and the value is that of the operator on the two values.
-/

set_option autoImplicit false

namespace QuantityFormula

open Text

/-! ### Two texts -/

def Text.joint (sign : Text) : Text :=
  ')' :: (sign ++ ['('])

private theorem Text.combined_eq (left sign right : Text) :
    combined left sign right = '(' :: (left ++ (joint sign ++ (right ++ [')']))) := by
  simp [combined, joint]

private theorem Operator.IsSpelled.forall_mem_joint {operator : Operator} {sign : Text}
    (spelled : operator.IsSpelled sign) :
    ∀ c ∈ joint sign, isWordChar c = false := by
  rcases spelled with rfl | ⟨_, rfl⟩
  · cases operator <;> exact forall_eq_false_of_any rfl
  · exact forall_eq_false_of_any rfl

variable {operator : Operator} {sign : Text}

/-- The heads of two texts are those of the one and then those of the other. -/
theorem Head.all_combined (spelled : operator.IsSpelled sign) (left right : Text) :
    all false (combined left sign right) =
      (all false left).map (fun head =>
        keepAll ['('] (head.extend (joint sign ++ (right ++ [')'])))) ++
        (all false right).map (fun head => keepAll ('(' :: (left ++ joint sign))
          (head.extend [')'])) := by
  have notStart : ∀ c ∈ joint sign, isNameStart c = false :=
    fun c member => isNameStart_eq_false (isNameChar_eq_false (spelled.forall_mem_joint c member))
  have fresh (afterWord : Bool) : continuesWord afterWord (joint sign) = false := by
    simp [joint, continuesWord]
    rfl
  have closing (afterWord : Bool) : all afterWord [')'] = [] := by
    rw [all_separator rfl]
    rfl
  have closes : Closes (joint sign ++ (right ++ [')'])) := closes_cons rfl rfl (by decide) _
  rw [combined_eq, all_separator rfl, all_append closes, all_append_of_notStart notStart, fresh,
    all_append (closes_cons rfl rfl (by decide) []), closing]
  simp only [List.map_append, List.map_map, List.map_nil, List.append_nil]
  refine congrArg₂ (· ++ ·) rfl (List.map_congr_left fun head _ => ?_)
  simp [keepAll, extend]

namespace Call

private theorem pick_append_of_due {heads after : List Head}
    (due : (∃ head ∈ heads, isGuardedName head.name = true) ∨ heads ≠ [] ∧ after = []) :
    pick (heads ++ after) = pick heads :=
  @pick_middle [] heads after nofun due

private theorem pick_append_of_unguarded {before heads : List Head}
    (unguarded : ∀ head ∈ before, isGuardedName head.name = false) (calls : heads ≠ []) :
    pick (before ++ heads) = pick heads := by
  have picked := @pick_middle before heads [] unguarded (.inr ⟨calls, rfl⟩)
  rwa [List.append_nil] at picked

private theorem all_ne_nil_of_next? {text : Text} {call : Call}
    (next : next? text = .ok (some call)) :
    Head.all false text ≠ [] := by
  intro nothing
  rw [next?_eq_none_iff.mpr nothing] at next
  cases next

private theorem next?_combined_left (spelled : operator.IsSpelled sign) {left : Text} {call : Call}
    (next : next? left = .ok (some call)) {right : Text}
    (due : (∃ head ∈ Head.all false left, isGuardedName head.name = true) ∨
      Head.all false right = []) :
    next? (combined left sign right) =
      .ok (some (call.surround ['('] (joint sign ++ (right ++ [')'])))) := by
  apply next?_surround next
  rw [Head.all_combined spelled, pick_append_of_due, pick_map]
  · exact fun head => rfl
  · rcases due with ⟨head, member, guarded⟩ | nothing
    · exact .inl ⟨_, List.mem_map_of_mem member, guarded⟩
    · refine .inr ⟨mt List.map_eq_nil_iff.mp (all_ne_nil_of_next? next), ?_⟩
      rw [nothing]
      rfl

private theorem next?_combined_right (spelled : operator.IsSpelled sign)
    {right : Text} {call : Call} (next : next? right = .ok (some call)) {left : Text}
    (unguarded : ∀ head ∈ Head.all false left, isGuardedName head.name = false) :
    next? (combined left sign right) =
      .ok (some (call.surround ('(' :: (left ++ joint sign)) [')'])) := by
  apply next?_surround next
  rw [Head.all_combined spelled, pick_append_of_unguarded, pick_map]
  · exact fun head => rfl
  · intro head member
    obtain ⟨own, ownMember, rfl⟩ := List.mem_map.mp member
    exact unguarded own ownMember
  · exact mt List.map_eq_nil_iff.mp (all_ne_nil_of_next? next)

end Call

namespace Resolver

variable {depth : Nat}

/-! ### Passes of two texts -/

/-- The calls of a text are replaced in so many passes, which leaves the rest. -/
structure ResolvesTo (depth : Nat) (text : Text) (passes : Nat) (rest : Text) : Prop where
  resolved : resolved depth text = .ok rest
  spent : spent depth text = passes

namespace ResolvesTo

variable {text rest : Text} {call : Call} {passes : Nat}

theorem of_none (blocked : Call.next? text = .ok none) : ResolvesTo depth text 0 text := by
  constructor
  · exact resolved_of_settles (settles_of_none blocked depth _)
  · obtain ⟨passes, none, costs⟩ := settles_of_none blocked depth 0
    rw [spent_of_costs costs]
    exact Nat.le_zero.mp none

private theorem of_value (next : Call.next? text = .ok (some call)) {x : Float}
    (valued : replacement depth call = .ok x)
    (goesOn : ResolvesTo depth (call.replaceBy (inlineNumber x)) passes rest) :
    ResolvesTo depth text (1 + (spentOnCall depth call + passes)) rest := by
  constructor
  · rw [resolved_of_next next, valued]
    exact goesOn.resolved
  · rw [spent_of_next next, spentBehind, valued, ← goesOn.spent]

private theorem exists_value (resolves : ResolvesTo depth text passes rest)
    (next : Call.next? text = .ok (some call)) :
    ∃ x more, replacement depth call = .ok x ∧
      ResolvesTo depth (call.replaceBy (inlineNumber x)) more rest ∧
      passes = 1 + (spentOnCall depth call + more) := by
  obtain ⟨succeeds, rfl⟩ := resolves
  rw [resolved_of_next next] at succeeds
  obtain ⟨x, valued, succeeds⟩ := exists_of_bind_eq_ok succeeds
  refine ⟨x, _, valued, ⟨succeeds, rfl⟩, ?_⟩
  rw [spent_of_next next, spentBehind, valued]

private theorem exists_next? (resolves : ResolvesTo depth text passes rest) :
    ∃ call?, Call.next? text = .ok call? := by
  cases next : Call.next? text with
  | error fault =>
      have failed := resolved_of_settles (settles_of_error next depth _)
      rw [resolves.resolved] at failed
      cases failed
  | ok call? => exact ⟨call?, rfl⟩

private theorem eq_of_none (resolves : ResolvesTo depth text passes rest)
    (blocked : Call.next? text = .ok none) :
    passes = 0 ∧ rest = text := by
  have alone : ResolvesTo depth text 0 text := of_none blocked
  constructor
  · rw [← resolves.spent, alone.spent]
  · have same := resolves.resolved
    rw [alone.resolved] at same
    exact (Except.ok.inj same).symm

private theorem of_value_left (spelled : operator.IsSpelled sign) {left right : Text}
    (next : Call.next? left = .ok (some call))
    (due : (∃ head ∈ Head.all false left, Call.isGuardedName head.name = true) ∨
      Head.all false right = [])
    {x : Float} (valued : replacement depth call = .ok x)
    (goesOn : ResolvesTo depth
      (combined (call.replaceBy (inlineNumber x)) sign right) passes rest) :
    ResolvesTo depth (combined left sign right) (1 + (spentOnCall depth call + passes)) rest := by
  rw [combined_eq, ← List.singleton_append, ← Call.replaceBy_surround] at goesOn
  have added := of_value (Call.next?_combined_left spelled next due) valued goesOn
  exact added

private theorem of_value_right (spelled : operator.IsSpelled sign) {left right : Text}
    (next : Call.next? right = .ok (some call))
    (unguarded : ∀ head ∈ Head.all false left, Call.isGuardedName head.name = false)
    {x : Float} (valued : replacement depth call = .ok x)
    (goesOn : ResolvesTo depth (combined left sign (call.replaceBy (inlineNumber x))) passes rest) :
    ResolvesTo depth (combined left sign right) (1 + (spentOnCall depth call + passes)) rest := by
  rw [combined_eq, ← List.append_assoc, ← List.cons_append, ← Call.replaceBy_surround] at goesOn
  have added := of_value (Call.next?_combined_right spelled next unguarded) valued goesOn
  exact added

end ResolvesTo

section

variable {left right leftRest rightRest : Text} {leftPasses rightPasses : Nat}

/-- Whose call is replaced next: that of the left text if it has a guard or stands alone,
else that of the right one. -/
theorem cases_next?_combined (leftResolves : ResolvesTo depth left leftPasses leftRest)
    (rightResolves : ResolvesTo depth right rightPasses rightRest) :
    (Call.next? left = .ok none ∧ Call.next? right = .ok none) ∨
      (∃ call, Call.next? left = .ok (some call) ∧
        ((∃ head ∈ Head.all false left, Call.isGuardedName head.name = true) ∨
          Head.all false right = [])) ∨
      ∃ call, Call.next? right = .ok (some call) ∧
        ∀ head ∈ Head.all false left, Call.isGuardedName head.name = false := by
  obtain ⟨leftCall?, leftNext⟩ := leftResolves.exists_next?
  obtain ⟨rightCall?, rightNext⟩ := rightResolves.exists_next?
  cases leftCall? with
  | none =>
      have nothing := Call.next?_eq_none_iff.mp leftNext
      cases rightCall? with
      | none => exact .inl ⟨leftNext, rightNext⟩
      | some call => exact .inr (.inr ⟨call, rightNext, by rw [nothing]; exact nofun⟩)
  | some leftCall =>
      by_cases guarded : ∃ head ∈ Head.all false left, Call.isGuardedName head.name = true
      · exact .inr (.inl ⟨leftCall, leftNext, .inl guarded⟩)
      cases rightCall? with
      | none => exact .inr (.inl ⟨leftCall, leftNext, .inr (Call.next?_eq_none_iff.mp rightNext)⟩)
      | some call =>
          refine .inr (.inr ⟨call, rightNext, fun head member =>
            Bool.eq_false_iff.mpr fun guards => ?_⟩)
          exact guarded ⟨head, member, guards⟩

/-- Two texts are resolved to what each is resolved to, in the passes of both. -/
theorem resolves_combined (spelled : operator.IsSpelled sign)
    (leftResolves : ResolvesTo depth left leftPasses leftRest)
    (rightResolves : ResolvesTo depth right rightPasses rightRest) :
    ResolvesTo depth (combined left sign right) (leftPasses + rightPasses)
      (combined leftRest sign rightRest) := by
  -- By the number of words in both. A pass takes some from one of them and leaves the other alone.
  induction size : nameWords.count left + nameWords.count right using Nat.strongRecOn
    generalizing left right leftPasses rightPasses with
  | ind count ih =>
      rcases cases_next?_combined leftResolves rightResolves with
        ⟨leftBlocked, rightBlocked⟩ | ⟨call, next, due⟩ | ⟨call, next, unguarded⟩
      · obtain ⟨rfl, rfl⟩ := leftResolves.eq_of_none leftBlocked
        obtain ⟨rfl, rfl⟩ := rightResolves.eq_of_none rightBlocked
        apply ResolvesTo.of_none
        rw [Call.next?_eq_none_iff, Head.all_combined spelled,
          Call.next?_eq_none_iff.mp leftBlocked, Call.next?_eq_none_iff.mp rightBlocked]
        rfl
      · obtain ⟨x, more, valued, goesOn, rfl⟩ := leftResolves.exists_value next
        have shorter := nameWords_replaceBy_lt (Call.parts_of_next? next)
          (isFinite_of_replacement valued)
        have behind := ih _ (by omega) goesOn rightResolves rfl
        rw [Nat.add_assoc, Nat.add_assoc]
        exact .of_value_left spelled next due valued behind
      · obtain ⟨x, more, valued, goesOn, rfl⟩ := rightResolves.exists_value next
        have shorter := nameWords_replaceBy_lt (Call.parts_of_next? next)
          (isFinite_of_replacement valued)
        have behind := ih _ (by omega) leftResolves goesOn rfl
        rw [Nat.add_left_comm leftPasses, Nat.add_left_comm leftPasses]
        exact .of_value_right spelled next unguarded valued behind

end

/-! ### Value of two texts -/

private theorem resolves_of_run {text : Text} {resolver after : Resolver} {x : Float}
    (ran : (evaluate text).run resolver = (.ok x, after)) :
    ∃ rest passes, ResolvesTo resolver.depth text passes rest ∧ Arithmetic.evaluate rest = .ok x ∧
      after = resolver.advance passes := by
  rw [run_evaluate] at ran
  by_cases permits : resolver.Permits (spent resolver.depth text)
  · rw [spend_within permits] at ran
    obtain ⟨valued, rfl⟩ := Prod.mk.inj ran
    obtain ⟨rest, resolves, valued⟩ := exists_of_bind_eq_ok valued
    exact ⟨rest, _, ⟨resolves, rfl⟩, valued, rfl⟩
  · rw [spend_beyond permits] at ran
    cases ran

/-- The value of two texts is that of the operator between them on their values, and
takes the passes of both. -/
theorem evaluate_combined (spelled : operator.IsSpelled sign) {left right : Text}
    {leftLimit rightLimit : Nat} {x y : Float} {leftAfter rightAfter : Resolver}
    (leftValued : (evaluate left).run (fresh leftLimit) = (.ok x, leftAfter))
    (rightValued : (evaluate right).run (fresh rightLimit) = (.ok y, rightAfter)) {maxPasses : Nat}
    (enough : leftAfter.passes + rightAfter.passes ≤ maxPasses) :
    (evaluate (combined left sign right)).run (fresh maxPasses) =
      (operator.apply x y >>= Arithmetic.requireFinite,
        ⟨maxPasses, leftAfter.passes + rightAfter.passes, 0⟩) := by
  obtain ⟨leftRest, leftPasses, leftResolves, leftArithmetic, rfl⟩ := resolves_of_run leftValued
  obtain ⟨rightRest, rightPasses, rightResolves, rightArithmetic, rfl⟩ :=
    resolves_of_run rightValued
  have both := resolves_combined spelled leftResolves rightResolves
  have added : ((fresh leftLimit).advance leftPasses).passes +
      ((fresh rightLimit).advance rightPasses).passes =
      leftPasses + rightPasses := by
    unfold advance fresh
    dsimp only
    omega
  rw [added] at enough ⊢
  have permits : (fresh maxPasses).Permits (leftPasses + rightPasses) := by
    right
    unfold fresh
    dsimp only
    omega
  have valued : outcome 0 (combined left sign right) = operator.apply x y >>=
      Arithmetic.requireFinite := by
    rw [outcome, show resolved 0 (combined left sign right) = _ from both.resolved]
    exact Arithmetic.evaluate_signBetween spelled leftArithmetic rightArithmetic
  have passes : spent 0 (combined left sign right) = leftPasses + rightPasses := both.spent
  rw [run_evaluate, show (fresh maxPasses).depth = 0 from rfl, valued, passes,
    spend_within permits, advance, fresh, Nat.zero_add]

/-- A sign behind its operands in the one text, and a guard that falls back
on a call in the other. -/
theorem evaluate_combined_signBehind :
    (evaluate (combined "2 3 +".toList "/".toList "IFERROR(1/0, ABS(-2))".toList)).run (fresh 2) =
      (.ok 2.5, ⟨2, 2, 0⟩) := by
  have left : (evaluate "2 3 +".toList).run (fresh 0) = (.ok 5, ⟨0, 0, 0⟩) :=
    Prod.ext (by decide +kernel) (by decide +kernel)
  have right : (evaluate "IFERROR(1/0, ABS(-2))".toList).run (fresh 2) = (.ok 2, ⟨2, 2, 0⟩) :=
    Prod.ext (by decide +kernel) (by decide +kernel)
  have slash : Operator.divide.IsSpelled "/".toList := .inl rfl
  have value : Operator.divide.apply 5 2 >>= Arithmetic.requireFinite = .ok 2.5 := by decide +kernel
  rw [evaluate_combined slash left right (Nat.le_refl 2), value]
  rfl

end Resolver

end QuantityFormula
