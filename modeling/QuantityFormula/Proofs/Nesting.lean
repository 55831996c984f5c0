import QuantityFormula.Proofs.Allowance
import QuantityFormula.Proofs.EagerCalls
import QuantityFormula.Proofs.ParenthesisChecks

/-!
Guards inside of one another. Nothing but a guard takes further passes inside of a pass: any other
call is replaced only in a text without guards, and its arguments hold no calls. A guard that is
opened has a word of its own in the text, so no more guards are open at a time than the limit allows
and the text has words for, and all of them are closed again.
-/

set_option autoImplicit false

namespace QuantityFormula

open Text

/-! ### Arguments without heads -/

private theorem Head.all_of_intercalate {pieces : List Text}
    (headless : all false ([','].intercalate pieces) = []) :
    ∀ piece ∈ pieces, all false piece = [] := by
  induction pieces with
  | nil => exact nofun
  | cons first pieces ih =>
      cases pieces with
      | nil =>
          intro piece member
          rw [List.mem_singleton.mp member]
          simpa [List.intercalate] using headless
      | cons second pieces =>
          have closes : Closes (',' :: [','].intercalate (second :: pieces)) :=
            closes_cons rfl rfl (by decide) _
          rw [List.intercalate_cons_cons, List.append_assoc,
            List.singleton_append, all_append closes, all_separator rfl, List.append_eq_nil_iff,
            List.map_eq_nil_iff, List.map_eq_nil_iff, List.map_eq_nil_iff] at headless
          intro piece member
          rcases List.mem_cons.mp member with rfl | later
          · exact headless.1
          · exact ih headless.2 piece later

private theorem Head.all_trim {text : Text} (headless : all false text = []) :
    all false (trim text) = [] := by
  obtain ⟨before, after, beforeBlank, afterBlank, whole⟩ := exists_trim text
  rw [whole, all_blanks beforeBlank afterBlank, List.map_eq_nil_iff] at headless
  exact headless

private theorem Call.all_of_mem_splitArguments {arguments : Text}
    (headless : Head.all false arguments = [])
    {items : List Text} (split : splitArguments arguments = .ok items) :
    ∀ item ∈ items, Head.all false item = [] := by
  unfold splitArguments at split
  split at split
  · cases split
    exact nofun
  dsimp only at split
  split at split
  · cases split
  cases split
  intro item member
  obtain ⟨piece, inside, rfl⟩ := List.mem_map.mp member
  have joined : Head.all false ([','].intercalate (splitCommas arguments)) = [] := by
    rw [splitCommas, intercalate_splitCommasFrom]
    exact headless
  exact Head.all_trim (Head.all_of_intercalate joined piece inside)

namespace Resolver

theorem run_evaluate_of_headless {text : Text} (headless : Head.all false text = [])
    (resolver : Resolver) :
    ((evaluate text).run resolver).2 = resolver := by
  rw [run_evaluate_of_none (Call.next?_eq_none_iff.mpr headless)]

/-! ### Depth after a step -/

private theorem depth_of_costs {α : Type} {step : Resolution α} {resolver : Resolver} {passes : Nat}
    {outcome : Except Fault α} (costs : ∀ fuel, Costs step fuel resolver.depth passes outcome) :
    (step.run resolver).2.depth = resolver.depth := by
  rw [costs _ resolver rfl (Nat.le_refl _)]
  exact (resolver.spend_keeps passes outcome).2

private theorem depth_run_evaluate (text : Text) (resolver : Resolver) :
    ((evaluate text).run resolver).2.depth = resolver.depth :=
  depth_of_costs fun fuel => charges_evaluate fuel resolver.depth text

private theorem depth_run_serve (request : Request) (resolver : Resolver) :
    (request.serve.run resolver).2.depth = resolver.depth := by
  rw [run_serve]
  exact (resolver.spend_keeps _ _).2

namespace Evaluation

/-! ### Depth of what is visited -/

/-- The numbers of guards that are open in the course of an evaluation, those inside of it
apart: as many as on its start and, while the arguments of a guard are evaluated that is
its next call, one more. -/
inductive HasOpen (evaluation : Evaluation) : Nat → Prop
  | start : HasOpen evaluation evaluation.resolver.depth
  | opened {call : Call} {items : List Text} (calls : evaluation.Calls call .ifError items)
      (room : evaluation.resolver.depth < maxDepth) : HasOpen evaluation
        (evaluation.resolver.depth + 1)

structure IsNested (evaluation : Evaluation) (bound : Nat) : Prop where
  limited : evaluation.resolver.depth ≤ maxDepth
  worded : evaluation.resolver.depth + guardWords.count evaluation.text ≤ bound

variable {evaluation : Evaluation} {call : Call} {items : List Text} {bound : Nat}

private theorem count_arguments_le {text : Text} (next : Call.next? text = .ok (some call)) :
    guardWords.count call.arguments ≤ guardWords.count text := by
  have words := guardWords.count_of_parts (Call.parts_of_next? next)
  omega

/-- The name of a guard is a word of the text that its arguments lack. -/
theorem Calls.count_arguments_lt (calls : evaluation.Calls call .ifError items) :
    guardWords.count call.arguments < guardWords.count evaluation.text := by
  have words := guardWords.count_of_parts (Call.parts_of_next? calls.next)
  have guarded : Call.isGuardedName call.name = true := by
    rw [Call.isGuardedName, calls.named]
    rfl
  rw [guardWords_counts guarded, if_pos rfl] at words
  omega

/-- The arguments of a guard are evaluated with the guard open for its word. -/
theorem IsNested.opened (nested : evaluation.IsNested bound)
    (calls : evaluation.Calls call .ifError items)
    (room : evaluation.resolver.depth < maxDepth) {resolver : Resolver}
    (atDepth : resolver.depth = evaluation.resolver.depth + 1) {item : Text}
    (member : item ∈ items) :
    IsNested ⟨resolver, item⟩ bound := by
  have fewer := guardWords.count_le_of_mem_splitArguments calls.split member
  have taken := calls.count_arguments_lt
  have worded := nested.worded
  constructor
  · rw [atDepth]
    exact room
  · rw [atDepth]
    dsimp only
    omega

/-- No evaluation that is needed has more guards open than its text has lost words. -/
theorem Leads.isNested {earlier later : Evaluation} (leads : Leads earlier later)
    (nested : earlier.IsNested bound) :
    later.IsNested bound := by
  cases leads with
  | @replaced call x after next within valued =>
      have kept : after.depth = earlier.resolver.depth := by
        have ran := depth_of_costs fun fuel =>
          (charges_evaluate fuel).costs_callValue earlier.resolver.counted.depth call
        rwa [valued] at ran
      have parts := Call.parts_of_next? next
      have words := guardWords.count_of_parts parts
      have few := guardWords.count_replaceBy_le parts (isFinite_of_run_callValue valued)
      have worded := nested.worded
      constructor
      · rw [kept]
        exact nested.limited
      · rw [kept]
        dsimp only
        omega
  | @argument call calculation item before behind values after calls valued =>
      have kept : after.depth = earlier.resolver.depth := by
        have ran := depth_of_costs fun fuel =>
          (charges_evaluate fuel).costs_mapM earlier.resolver.counted.depth before
        rwa [valued] at ran
      have member : item ∈ before ++ item :: behind := by simp
      have few := (guardWords.count_le_of_mem_splitArguments calls.split member).trans
        (count_arguments_le calls.next)
      have worded := nested.worded
      constructor
      · rw [kept]
        exact nested.limited
      · rw [kept]
        dsimp only
        omega
  | @value call value fallback calls room => exact nested.opened calls room rfl (by simp)
  | @fallback call value fallback fault after calls room failed unlimited =>
      have kept := depth_run_evaluate value earlier.resolver.counted.opened
      rw [failed] at kept
      exact nested.opened calls room kept (by simp)

private theorem Visits.isNested {first last : Evaluation} (visits : first.Visits last)
    (nested : first.IsNested bound) :
    last.IsNested bound :=
  visits.invariant Leads.isNested nested

private theorem IsNested.hasOpen_le (nested : evaluation.IsNested bound) {depth : Nat}
    (present : evaluation.HasOpen depth) :
    depth ≤ maxDepth ∧ depth ≤ bound := by
  have worded := nested.worded
  cases present with
  | start => exact ⟨nested.limited, by omega⟩
  | opened calls room =>
      have taken := calls.count_arguments_lt
      exact ⟨room, by omega⟩

end Evaluation

/-- Whatever a resolver was asked for before, in all that a request leads to a call that is no guard
is replaced only where no guard is left, its arguments hold no calls and leave the resolver as it
is, the guards that are open are no more than the limit and than the words of the request for them,
and every request leaves as many open as it found. -/
theorem guards_nest_within (maxPasses : Nat) (history : List Request) (request : Request) :
    (∀ last, Evaluation.Visits ⟨(fresh maxPasses).after history, request.text⟩ last →
      (∀ call, Call.next? last.text = .ok (some call) → Call.isGuardedName call.name = false →
        (∀ head ∈ Head.all false last.text, Call.isGuardedName head.name = false) ∧
        ∀ items, Call.splitArguments call.arguments = .ok items → ∀ item ∈ items,
          Head.all false item = [] ∧ ∀ resolver, ((evaluate item).run resolver).2 = resolver) ∧
      ∀ depth, last.HasOpen depth → depth ≤ maxDepth ∧ depth ≤ guardWords.count request.text) ∧
    ∀ (inner : Request) (resolver : Resolver),
      (inner.serve.run resolver).2.depth = resolver.depth := by
  refine ⟨?_, depth_run_serve⟩
  intro last visits
  constructor
  · intro call next unguarded
    obtain ⟨free, headless⟩ := Call.unguarded_of_next? next unguarded
    refine ⟨free, ?_⟩
    intro items split item member
    have itemHeadless := Call.all_of_mem_splitArguments headless split item member
    exact ⟨itemHeadless, run_evaluate_of_headless itemHeadless⟩
  · intro depth present
    have closed : ((fresh maxPasses).after history).depth = 0 :=
      ((fresh maxPasses).after_keeps history).2
    have first : Evaluation.IsNested ⟨(fresh maxPasses).after history, request.text⟩
        (guardWords.count request.text) := by
      constructor
      · rw [closed]
        exact Nat.zero_le _
      · rw [closed, Nat.zero_add]
    exact (visits.isNested first).hasOpen_le present

def callWithoutOperand : Request :=
  .evaluate "ABS(2) +".toList

theorem guards_nest_within_underGuard :
    (∀ item ∈ ["(1 - 3)".toList], Head.all false item = [] ∧
      ∀ resolver, ((evaluate item).run resolver).2 = resolver) ∧
      1 ≤ maxDepth ∧ 1 ≤ guardWords.count groupUnderGuard.text := by
  have used : (fresh 5).after [callWithoutOperand] = ⟨5, 1, 0⟩ := by decide +kernel
  obtain ⟨inside, _⟩ := guards_nest_within 5 [callWithoutOperand] (.evaluate groupUnderGuard.text)
  rw [used] at inside
  have outer : Evaluation.Calls ⟨⟨5, 1, 0⟩, groupUnderGuard.text⟩
      ⟨[], "IFERROR".toList, "ABS((1 - 3)), 2".toList, []⟩
      .ifError ["ABS((1 - 3))".toList, "2".toList] := ⟨rfl, by decide, by decide +kernel, rfl⟩
  have visits : Evaluation.Visits ⟨⟨5, 1, 0⟩, groupUnderGuard.text⟩
      ⟨⟨5, 2, 1⟩, "ABS((1 - 3))".toList⟩ :=
    .single (.value outer (by decide))
  constructor
  · exact ((inside _ visits).1 ⟨[], "ABS".toList, "(1 - 3)".toList, []⟩ rfl (by decide)).2 _
      (by decide +kernel)
  · exact (inside _ .refl).2 1 (.opened outer (by decide))

end Resolver

end QuantityFormula
