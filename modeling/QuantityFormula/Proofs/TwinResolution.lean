import QuantityFormula.Proofs.Twins

/-!
Resolution of twins. Their next calls are twins, and so are the texts with numbers in the
place of the calls. So twins have the same value under every limit on the passes, even if
numbers are written in two ways.
-/

set_option autoImplicit false

namespace QuantityFormula

open Text

/-! ### The next call -/

private theorem Call.pick_cons (head : Head) (heads : List Head) :
    pick (head :: heads) = if isGuardedName head.name then some head
      else (pick heads).or (some head) := by
  unfold pick
  rw [List.find?_cons, List.getLast?_cons]
  cases isGuardedName head.name with
  | true => rfl
  | false =>
      rw [if_neg Bool.false_ne_true]
      cases heads.find? fun head => isGuardedName head.name with
      | some first => rfl
      | none => cases heads.getLast? <;> rfl

private theorem Call.rel_pick {related : Head → Head → Prop}
    (named : ∀ head head', related head head' → head.name = head'.name)
    {heads heads' : List Head} (same : List.Forall₂ related heads heads') :
    Option.Rel related (pick heads) (pick heads') := by
  induction same with
  | nil => exact .none
  | @cons head head' heads heads' first rest ih =>
      rw [pick_cons, pick_cons, named head head' first]
      split
      · exact .some first
      · generalize pick heads = later at ih ⊢
        generalize pick heads' = later' at ih ⊢
        cases ih with
        | none => exact .some first
        | some same => exact .some same

structure Call.Twins (seams : Seams) (call call' : Call) : Prop where
  name : call.name = call'.name
  before : ∃ middle, Twin seams seams.start call.before call'.before middle ∧ seams.Opens middle
  arguments : QuantityFormula.Twins seams call.arguments call'.arguments
  balanced : isBalanced call.arguments = true
  after : ∃ final, Twin seams (seams.behind seams.start ')') call.after call'.after final

theorem Twins.next? {seams : Seams} (lawful : seams.Lawful) {left right : Text}
    (twins : Twins seams left right) :
    Alike (Option.Rel (Call.Twins seams)) (Call.next? left) (Call.next? right) := by
  obtain ⟨final, twin⟩ := twins
  have heads := twin.heads lawful
  rw [lawful.afterWord_start] at heads
  rw [Call.next?_eq_pick, Call.next?_eq_pick]
  have picked := Call.rel_pick (fun _ _ same => same.name) heads
  generalize Call.pick (Head.all false left) = head at picked ⊢
  generalize Call.pick (Head.all false right) = head' at picked ⊢
  cases picked with
  | none => exact .ok .none
  | @some head head' same =>
      dsimp only
      unfold Call.ofHead
      rcases same.after.splitClosing? lawful 0 with
        ⟨unclosed, unclosed'⟩ | ⟨inside, inside', after, after', middle, found,
          found', within, behind⟩
      · rw [unclosed, unclosed']
        exact .fault (fun _ => nofun) (fun _ => nofun)
      · rw [found, found']
        rw [lawful.closing] at behind
        exact .ok (.some ⟨same.name, same.before, ⟨middle, within⟩,
          (splitClosing?_eq_some_iff.mp found).2, ⟨final, behind⟩⟩)

/-! ### Passes -/

namespace Resolver

def resolveWithinBy (write : Float → Text) : (fuel : Nat) → Text → Resolution Text
  | 0, text => pass text fun _ => refuse
  | fuel + 1, text => pass text fun call => do
    let value ← callValue (fun argument => do
      MonadExcept.ofExcept (Arithmetic.evaluate (← resolveWithinBy write fuel argument))) call
    resolveWithinBy write fuel (call.replaceBy (write value))

private theorem resolveWithinBy_inlineNumber : resolveWithinBy inlineNumber = resolveWithin := by
  funext fuel
  induction fuel with
  | zero => rfl
  | succ fuel ih =>
      funext text
      rw [resolveWithinBy, resolveWithin, ih]

def evaluateBy (write : Float → Text) (text : Text) : Resolution Float := do
  let resolver ← get
  MonadExcept.ofExcept (Arithmetic.evaluate
    (← resolveWithinBy write (resolver.maxPasses - resolver.passes) text))

theorem evaluateBy_inlineNumber (text : Text) : evaluateBy inlineNumber text = evaluate text := by
  unfold evaluateBy
  rw [resolveWithinBy_inlineNumber]
  rfl

end Resolver

/-- What twins have to share to be worth the same. -/
structure Seams.Faithful (seams : Seams) (write write' : Float → Text) :
    Prop extends seams.Lawful where
  number : ∀ {state x left right final}, seams.Opens state → x.isFinite = true →
    Twin seams (seams.behind seams.start ')') left right final →
      ∃ final, Twin seams state (write x ++ left) (write' x ++ right) final
  arithmetic : ∀ {left right}, Twins seams left right →
    Alike Eq (Arithmetic.evaluate left) (Arithmetic.evaluate right)

namespace Twins

variable {seams : Seams} {write write' : Float → Text} (faithful : seams.Faithful write write')
include faithful

private theorem inStep_resolveWithinBy (fuel : Nat) {left right : Text}
    (twins : Twins seams left right) :
    InStep (Twins seams) (Resolver.resolveWithinBy write fuel left)
      (Resolver.resolveWithinBy write' fuel right) := by
  induction fuel generalizing left right with
  | zero => exact .pass (twins.next? faithful.toLawful) twins fun _ _ _ => .refuse
  | succ fuel ih =>
      refine .pass (twins.next? faithful.toLawful) twins fun call call' same => ?_
      have arguments := same.arguments.splitArguments faithful.toLawful same.balanced
      refine (InStep.callValue (fun argument argument' twins => ?_) same.name arguments).bind ?_
      · exact (ih twins).bind fun _ _ twins => .of_outcome (faithful.arithmetic twins)
      · -- Behind the number of a call the text goes on as behind its closing parenthesis.
        rintro x _ ⟨rfl, finite⟩
        obtain ⟨middle, before, opens⟩ := same.before
        obtain ⟨final, after⟩ := same.after
        obtain ⟨final, rest⟩ := faithful.number opens finite after
        have whole := before.append rest
        rw [← List.append_assoc, ← List.append_assoc] at whole
        exact ih ⟨final, whole⟩

private theorem inStep_evaluateBy {left right : Text} (twins : Twins seams left right) :
    InStep Eq (Resolver.evaluateBy write left) (Resolver.evaluateBy write' right) := by
  intro resolver
  exact ((twins.inStep_resolveWithinBy faithful (resolver.maxPasses - resolver.passes)).bind
    fun _ _ twins => .of_outcome (faithful.arithmetic twins)) resolver

/-- Twins have the same value under every limit, or none of them has one. -/
theorem runFresh_evaluateBy {left right : Text} (twins : Twins seams left right) (maxPasses : Nat) :
    (Resolver.runFresh maxPasses (Resolver.evaluateBy write left)).toOption =
      (Resolver.runFresh maxPasses (Resolver.evaluateBy write' right)).toOption :=
  (twins.inStep_evaluateBy faithful (Resolver.fresh maxPasses)).2.toOption_eq

end Twins

end QuantityFormula
