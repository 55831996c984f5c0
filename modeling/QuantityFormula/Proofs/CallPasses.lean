import QuantityFormula.Proofs.Combination
import QuantityFormula.Proofs.Resolving

/-!
The passes of a formula. Where every guard has the value of its first argument, a formula takes
one pass for each of its calls, but for those in the second arguments of guards, and these passes
are exactly what it needs.
-/

set_option autoImplicit false

namespace QuantityFormula

/-! ### Calls that are replaced -/

namespace Phrase

/-- The number of calls in a tree, without those in the second argument of a guard. -/
def chargedCalls {Leaf : Type} : {kind : Kind} → Phrase Leaf kind → Nat
  | _, .leaf _ => 0
  | _, .group inner => inner.chargedCalls
  | _, .call name arguments =>
    let charges := arguments.map fun argument => argument.chargedCalls
    1 + (if name.isGuarded then charges.eraseIdx 1 else charges).sum
  | _, .base atom => atom.chargedCalls
  | _, .raise root exponent => root.chargedCalls + exponent.chargedCalls
  | _, .factor power => power.chargedCalls
  | _, .scale _ _ left right => left.chargedCalls + right.chargedCalls
  | _, .term product => product.chargedCalls
  | _, .minus product => product.chargedCalls
  | _, .add _ _ left right => left.chargedCalls + right.chargedCalls

/-- Whether the first argument of every guard that is evaluated has a result.
Then no second argument is. -/
def guardsHold : {kind : Kind} → Phrase Numeral kind → Bool
  | _, .leaf _ => true
  | _, .group inner => inner.guardsHold
  | _, .call name arguments =>
    if name.isGuarded then
      ((arguments.map fun argument => argument.result.isOk && argument.guardsHold).take 1).all id
    else
      (arguments.map fun argument => argument.guardsHold).all id
  | _, .base atom => atom.guardsHold
  | _, .raise root exponent => root.guardsHold && exponent.guardsHold
  | _, .factor power => power.guardsHold
  | _, .scale _ _ left right => left.guardsHold && right.guardsHold
  | _, .term product => product.guardsHold
  | _, .minus product => product.guardsHold
  | _, .add _ _ left right => left.guardsHold && right.guardsHold

private theorem chargedCalls_le_callCount {Leaf : Type} {kind : Kind} (phrase : Phrase Leaf kind) :
    phrase.chargedCalls ≤ phrase.callCount := by
  induction phrase with
  | leaf content => simp [chargedCalls]
  | call name arguments ih =>
      have charges : (arguments.map fun argument => argument.chargedCalls).sum ≤
          (arguments.map fun argument => argument.callCount).sum :=
        List.sum_le_sum ih
      have fewer :=
        ((List.eraseIdx_sublist (arguments.map fun argument => argument.chargedCalls) 1)).sum_le_sum
        fun _ _ => Nat.zero_le _
      rw [chargedCalls, callCount]
      split <;> omega
  | group inner ih | base atom ih | factor power ih | term product ih | minus product ih =>
      rw [chargedCalls, callCount]
      exact ih
  | raise left right ihLeft ihRight | scale _ _ left right ihLeft ihRight
  | add _ _ left right ihLeft ihRight =>
      rw [chargedCalls, callCount]
      exact Nat.add_le_add ihLeft ihRight

private theorem guardsHold_literal (x : Float) : (literal x).guardsHold = true := by
  unfold literal
  split
  · simp [guardsHold]
  · split <;> simp [guardsHold]

end Phrase

namespace Context

variable {kind : Kind}

/-- With no guard around its place a tree is charged for its calls and for those
of what is in the place. -/
theorem chargedCalls_fill {Leaf : Type} {context : Context Leaf kind}
    (unguarded : ∀ name, Lexeme.name name ∈ context.left → name.isGuarded = false)
    (atom other : Phrase Leaf .atom) :
    (context.fill atom).chargedCalls + other.chargedCalls =
      (context.fill other).chargedCalls + atom.chargedCalls := by
  induction context with
  | hole =>
      simp only [fill]
      omega
  | argument name before inner after ih =>
      have inside := ih fun other member => unguarded other (by simp [left, member])
      have free := unguarded name (by simp [left])
      simp only [fill, Phrase.chargedCalls, free, Bool.false_eq_true, if_false,
        List.map_append, List.map_cons, List.sum_append, List.sum_cons]
      omega
  | group inner ih | base outer ih | raised root exponent ih | raising root exponent ih
  | factor power ih | scaled operator scales before after ih
  | scaling operator scales before after ih | term product ih | minus product ih
  | added operator adds before after ih | adding operator adds before after ih =>
      have inside := ih fun other member => unguarded other (by simp [left, member])
      simp only [fill, Phrase.chargedCalls]
      omega

/-- With no guard around its place the guards of a tree hold if those around the place
and those inside of it do. -/
theorem exists_guardsHold_fill {context : Context Numeral kind}
    (unguarded : ∀ name, Lexeme.name name ∈ context.left → name.isGuarded = false) :
    ∃ around : Bool, ∀ atom, (context.fill atom).guardsHold = (around && atom.guardsHold) := by
  induction context with
  | hole => exact ⟨true, fun atom => (Bool.true_and _).symm⟩
  | argument name before inner after ih =>
      obtain ⟨around, inside⟩ := ih fun other member => unguarded other (by simp [left, member])
      have free := unguarded name (by simp [left])
      refine ⟨(before ++ after).all Phrase.guardsHold && around, fun atom => ?_⟩
      simp only [fill, Phrase.guardsHold, free, Bool.false_eq_true, if_false,
        List.map_append, List.map_cons, List.all_append, List.all_cons, List.all_map,
        Function.comp_def, id, inside]
      ac_rfl
  | raised root other ih | scaled operator scales before other ih
  | added operator adds before other ih =>
      obtain ⟨around, inside⟩ := ih fun other member => unguarded other (by simp [left, member])
      refine ⟨around && other.guardsHold, fun atom => ?_⟩
      simp only [fill, Phrase.guardsHold, inside]
      ac_rfl
  | raising other exponent ih | scaling operator scales other after ih
  | adding operator adds other after ih =>
      obtain ⟨around, inside⟩ := ih fun other member => unguarded other (by simp [left, member])
      refine ⟨other.guardsHold && around, fun atom => ?_⟩
      simp only [fill, Phrase.guardsHold, inside]
      ac_rfl
  | group inner ih | base outer ih | factor power ih | term product ih | minus product ih =>
      obtain ⟨around, inside⟩ := ih fun other member => unguarded other (by simp [left, member])
      refine ⟨around, fun atom => ?_⟩
      simp only [fill, Phrase.guardsHold, inside]

end Context

/-! ### Outcomes of the texts of a tree -/

namespace Resolver

private theorem exists_ok_of_computes {α : Type} {step : Resolution α}
    {calls guards depth passes : Nat} {accepts : α → Prop} {fails : Prop} {outcome : Except Fault α}
    (computes : Computes step calls guards (calls ≤ calls) accepts fails)
    (costs : Costs step calls depth passes outcome) (room : depth + guards ≤ maxDepth)
    (succeeds : ¬fails) :
    ∃ value, outcome = .ok value ∧ accepts value := by
  have answers := computes.answers ⟨calls, 0, depth⟩
  have affords : Affords ⟨calls, 0, depth⟩ calls guards := ⟨Nat.le_of_eq (Nat.zero_add calls), room⟩
  rw [costs ⟨calls, 0, depth⟩ rfl (Nat.le_refl _)] at answers
  by_cases permits : Permits ⟨calls, 0, depth⟩ passes
  · rw [spend_within permits] at answers
    cases outcome with
    | ok value => exact ⟨value, rfl, answers⟩
    | error fault =>
        by_cases limited : ∃ limit, fault = .tooComplex limit
        · obtain ⟨limit, rfl⟩ := limited
          exact absurd ⟨Nat.le_refl _, affords⟩ answers
        · exact absurd (answers.fails_of_ne fun limit same => limited ⟨limit, same⟩) succeeds
  · rw [spend_beyond permits] at answers
    exact absurd ⟨Nat.le_refl _, affords⟩ answers

private theorem outcome_written {formula : Formula} {text : Text}
    (written : formula.IsWritten text) {depth : Nat}
    (room : depth + formula.guardDepth ≤ maxDepth) {x : Float} (valued : formula.result = .ok x) :
    outcome depth text = .ok x := by
  have evaluates := (resolves_resolveWithin formula.callCount written).evaluates
  obtain ⟨y, came, due⟩ :=
    exists_ok_of_computes evaluates (charges_evaluateWithin formula.callCount depth text) room
    (by rw [valued]; rintro ⟨fault, failed⟩; cases failed)
  rw [valued] at due
  cases due
  exact came

private theorem exists_replacement {call : Call} {context : Context Numeral .sum}
    {name : FunctionName} {arguments : List Formula}
    (marks : call.Marks context name arguments) {depth : Nat}
    (room : depth + (Phrase.call name arguments).guardDepth ≤ maxDepth) {y : Float}
    (valued : (Phrase.call name arguments).value = .ok y) :
    ∃ x, replacement depth call = .ok x ∧ x.isFinite = true ∧
      (Phrase.call name arguments).value = .ok (unsignedZero x) := by
  have computes := computes_callValue
    (resolves_resolveWithin (arguments.map fun argument => argument.callCount).sum) marks
  exact exists_ok_of_computes computes ((charges_evaluateWithin _).costs_callValue depth call) room
    (by rw [valued]; rintro ⟨fault, failed⟩; cases failed)

/-! ### Passes of the texts of a tree -/

/-- The passes of a tree with a result, in all of its texts and with so
many guards open around it. -/
def IsCharged (formula : Formula) : Prop :=
  ∀ depth text x, formula.IsWritten text → formula.result = .ok x → formula.guardsHold = true →
    depth + formula.guardDepth ≤ maxDepth → spent depth text = formula.chargedCalls

private theorem spentInTurn_of_forall₂ {depth : Nat} {arguments : List Formula} {pieces : List Text}
    (each : List.Forall₂ (fun (argument : Formula) piece => (∃ x, outcome depth piece = .ok x) ∧
      spent depth piece = argument.chargedCalls) arguments pieces) :
    spentInTurn depth pieces = (arguments.map fun argument => argument.chargedCalls).sum := by
  induction each with
  | nil => rfl
  | @cons argument piece arguments pieces first rest ih =>
      obtain ⟨⟨x, valued⟩, charged⟩ := first
      rw [spentInTurn, valued, List.map_cons, List.sum_cons, charged, ih]

private theorem exists_result_of_calculation {name : FunctionName} {arguments : List Formula}
    (unguarded : name.isGuarded = false)
    {y : Float} (valued : (Phrase.call name arguments).value = .ok y) :
    ∀ argument ∈ arguments, ∃ x, argument.result = .ok x := by
  intro argument member
  cases result : argument.result with
  | ok x => exact ⟨x, rfl⟩
  | error fault =>
      have failing : .error fault ∈ arguments.map fun argument => argument.result :=
        List.mem_map.mpr ⟨argument, member, result⟩
      obtain ⟨first, failed⟩ := exists_error_callOutcome unguarded failing
      rw [Phrase.value_call, failed] at valued
      cases valued

private theorem guardDepth_le_call (name : FunctionName) {arguments : List Formula} :
    ∀ argument ∈ arguments,
      argument.guardDepth + (if name.isGuarded then 1 else 0) ≤
        (Phrase.call name arguments).guardDepth := by
  intro argument member
  rw [Phrase.guardDepth]
  exact Nat.add_le_add_right (List.le_max_of_le' 0 (List.mem_map_of_mem member) (Nat.le_refl _)) _

variable {name : FunctionName} {arguments : List Formula} {pieces : List Text}
  {depth : Nat} {y : Float}

private theorem spentInTurn_written (unguarded : name.isGuarded = false)
    (written : List.Forall₂
      (fun (argument : Formula) piece => argument.IsWritten piece) arguments pieces)
    (charged : ∀ argument ∈ arguments, IsCharged argument)
    (room : depth + (Phrase.call name arguments).guardDepth ≤ maxDepth)
    (holds : (Phrase.call name arguments).guardsHold = true)
    (valued : (Phrase.call name arguments).value = .ok y) :
    1 + spentInTurn depth pieces = (Phrase.call name arguments).chargedCalls := by
  rw [Phrase.guardsHold, unguarded, if_neg Bool.false_ne_true, List.all_map,
    List.all_eq_true] at holds
  rw [Phrase.chargedCalls, unguarded, if_neg Bool.false_ne_true, spentInTurn_of_forall₂]
  refine ((List.forall₂_and_left _ _).mpr ⟨fun argument member => member, written⟩).imp ?_
  rintro argument piece ⟨member, writtenPiece⟩
  obtain ⟨x, result⟩ := exists_result_of_calculation unguarded valued argument member
  have shallower := guardDepth_le_call name argument member
  have roomInside : depth + argument.guardDepth ≤ maxDepth := by omega
  exact ⟨⟨x, outcome_written writtenPiece roomInside result⟩,
    charged argument member _ _ x writtenPiece result (holds argument member) roomInside⟩

private theorem spentOnBuiltin_ifError_written (guards : name.isGuarded = true)
    (written : List.Forall₂
      (fun (argument : Formula) piece => argument.IsWritten piece) arguments pieces)
    (charged : ∀ argument ∈ arguments, IsCharged argument)
    (room : depth + (Phrase.call name arguments).guardDepth ≤ maxDepth)
    (holds : (Phrase.call name arguments).guardsHold = true) (two : arguments.length = 2) :
    1 + spentOnBuiltin depth pieces .ifError = (Phrase.call name arguments).chargedCalls := by
  obtain ⟨first, second, rfl⟩ := List.length_eq_two.mp two
  cases written with
  | @cons _ piece _ _ writtenFirst rest =>
      cases rest with
      | @cons _ fallback _ _ _ nothing =>
          cases nothing
          rw [Phrase.guardsHold, if_pos guards] at holds
          simp only [List.map_cons, List.take_succ_cons, List.take_zero, List.all_cons,
            List.all_nil, Bool.and_true, id, Bool.and_eq_true] at holds
          obtain ⟨succeeds, holdsFirst⟩ := holds
          have member : first ∈ [first, second] := List.mem_cons_self
          have shallower := guardDepth_le_call name first member
          rw [guards, if_pos rfl] at shallower
          have opened : ¬maxDepth ≤ depth := by omega
          have roomInside : depth + 1 + first.guardDepth ≤ maxDepth := by omega
          have result : ∃ x, first.result = .ok x := by
            cases outcome : first.result with
            | error fault =>
                rw [outcome] at succeeds
                cases succeeds
            | ok x => exact ⟨x, rfl⟩
          obtain ⟨x, result⟩ := result
          rw [spentOnBuiltin, if_neg opened, spentOnChoice,
            outcome_written writtenFirst roomInside result, Phrase.chargedCalls, if_pos guards]
          simp only [List.map_cons, List.map_nil, List.eraseIdx_cons_succ,
            List.eraseIdx_cons_zero, List.sum_singleton]
          rw [charged first member _ _ x writtenFirst result holdsFirst roomInside]

private theorem spentOnCall_written {call : Call} {context : Context Numeral .sum}
    (marks : call.Marks context name arguments)
    (charged : ∀ argument ∈ arguments, IsCharged argument)
    (room : depth + (Phrase.call name arguments).guardDepth ≤ maxDepth)
    (holds : (Phrase.call name arguments).guardsHold = true)
    (valued : (Phrase.call name arguments).value = .ok y) :
    1 + spentOnCall depth call = (Phrase.call name arguments).chargedCalls := by
  obtain ⟨pieces, split, written⟩ := Call.splitArguments_written marks.arguments
  rw [spentOnCall, marks.name]
  cases found : Builtin.ofName? name.text with
  | none =>
      rw [Phrase.value_call, callOutcome, found] at valued
      cases valued
  | some builtin =>
      have guardedName : name.isGuarded = builtin.isGuarded := by
        rw [FunctionName.isGuarded, Call.isGuardedName, found]
        rfl
      dsimp only
      rw [split]
      cases builtin with
      | calculation c => exact spentInTurn_written guardedName written charged room holds valued
      | ifError =>
          have two : arguments.length = 2 := by
            by_contra other
            rw [Phrase.value_call, callOutcome_of_ofName found,
              Builtin.outcome_ifError_of_length (by simpa using other)]
              at valued
            cases valued
          exact spentOnBuiltin_ifError_written guardedName written charged room holds two

private theorem exists_value_of_fill {context : Context Numeral .sum}
    (unguarded : ∀ other, Lexeme.name other ∈ context.left → other.isGuarded = false)
    {atom : Phrase Numeral .atom}
    {value : Float} (valued : (context.fill atom).value = .ok value) : ∃ y, atom.value = .ok y := by
  cases outcome : atom.value with
  | ok y => exact ⟨y, rfl⟩
  | error fault =>
      obtain ⟨first, failed⟩ := Context.exists_error_fill unguarded ⟨fault, outcome⟩
      rw [failed] at valued
      cases valued

/-- A tree with a result whose guards hold takes a pass for each call that it is charged for. -/
theorem isCharged (formula : Formula) : IsCharged formula := by
  -- By the number of calls: the arguments of the next one have fewer, and so has the tree
  -- with its value in its place.
  induction size : formula.callCount using Nat.strongRecOn generalizing formula with
  | ind calls ih =>
      intro depth text x written result holds room
      rcases Call.next?_written written with
        ⟨callFree, blocked⟩ | ⟨context, name, arguments, call, rfl, unguarded, next, marks⟩
      · have free := formula.chargedCalls_le_callCount
        rw [(ResolvesTo.of_none blocked).spent]
        omega
      · obtain ⟨value, valued, _⟩ := exists_of_bind_eq_ok result
        obtain ⟨y, callValued⟩ := exists_value_of_fill unguarded valued
        obtain ⟨around, guards⟩ := context.exists_guardsHold_fill unguarded
        rw [guards, Bool.and_eq_true] at holds
        have roomCall :=
          (Nat.add_le_add_left (context.guardDepth_le_fill (.call name arguments)) depth).trans room
        obtain ⟨z, replaced, finite, same⟩ := exists_replacement marks roomCall callValued
        have fewer := context.callCount_fill_literal name arguments z
        have charged : ∀ argument ∈ arguments, IsCharged argument := by
          intro argument member
          have few : argument.callCount ≤ (arguments.map fun argument => argument.callCount).sum :=
            List.single_le_sum (fun _ _ => Nat.zero_le _) _ (List.mem_map_of_mem member)
          exact ih argument.callCount (by omega) argument rfl
        have inside := spentOnCall_written marks charged roomCall holds.2 callValued
        have sameResult : (context.fill (literal z)).result = .ok x := by
          rw [← result, Phrase.result, Phrase.result,
            context.value_fill_congr ((value_literal finite).trans same.symm)]
        have shallower := context.guardDepth_fill_literal_le (.call name arguments) z
        have behind : spent depth (call.replaceBy (inlineNumber z)) =
            (context.fill (literal z)).chargedCalls := by
          refine ih _ (by omega) _ rfl _ _ x (marks.replaceBy_written finite) sameResult ?_
            (by omega)
          rw [guards, holds.1, Phrase.guardsHold_literal]
          rfl
        have charges := context.chargedCalls_fill unguarded (.call name arguments) (literal z)
        have free := (literal z).chargedCalls_le_callCount
        rw [callCount_literal] at free
        rw [spent_of_next next, spentBehind, replaced]
        dsimp only
        omega

/-- The budget of a formula is exact. If its guards hold, a fresh resolver counts one pass
for each call that the formula is charged for on the way to its result, and refuses to go on
if it may count only fewer. -/
theorem run_evaluate_of_guardsHold {formula : Formula} {text : Text} {x : Float}
    (written : formula.IsWritten text)
    (result : formula.result = .ok x) (holds : formula.guardsHold = true)
    (shallow : formula.guardDepth ≤ maxDepth) (maxPasses : Nat) :
    (formula.chargedCalls ≤ maxPasses →
      (evaluate text).run (fresh maxPasses) = (.ok x, ⟨maxPasses, formula.chargedCalls, 0⟩)) ∧
    (maxPasses < formula.chargedCalls →
      (evaluate text).run (fresh maxPasses) =
        (.error (.tooComplex maxPasses), ⟨maxPasses, maxPasses + 1, 0⟩)) := by
  have room : 0 + formula.guardDepth ≤ maxDepth := by omega
  have ran := run_evaluate text (fresh maxPasses)
  rw [show (fresh maxPasses).depth = 0 from rfl, outcome_written written room result,
    isCharged formula 0 text x written result holds room] at ran
  rw [ran]
  constructor
  · intro enough
    rw [spend_within (.inr ((Nat.zero_add _).symm ▸ enough)), advance, fresh, Nat.zero_add]
  · intro few
    have beyond : ¬(fresh maxPasses).Permits formula.chargedCalls := by
      unfold Permits fresh
      dsimp only
      omega
    rw [spend_beyond beyond, exhaust, fresh, Nat.max_zero]

end Resolver

def absoluteOf (numeral : Numeral) : Formula :=
  .term (.factor (.base (.call (.ofText ['A', 'B', 'S'] (by decide))
    [.term (.factor (.base (.leaf numeral)))])))

def guardedCall : Formula :=
  .term (.factor (.base (.call (.ofText ['I', 'F', 'E', 'R', 'R', 'O', 'R'] (by decide))
    [absoluteOf ⟨['7'], by decide⟩, absoluteOf ⟨['8'], by decide⟩])))

theorem run_evaluate_of_guardsHold_guardedCall :
    guardedCall.IsWritten "IFERROR(ABS(7),ABS(8))".toList ∧ guardedCall.result = .ok 7 ∧
      guardedCall.guardsHold = true ∧ guardedCall.guardDepth ≤ Resolver.maxDepth ∧
      guardedCall.chargedCalls = 2 ∧
      (Resolver.evaluate "IFERROR(ABS(7),ABS(8))".toList).run (.fresh 2) = (.ok 7, ⟨2, 2, 0⟩) ∧
      (Resolver.evaluate "IFERROR(ABS(7),ABS(8))".toList).run (.fresh 1) =
        (.error (.tooComplex 1), ⟨1, 2, 0⟩) := by
  have written : guardedCall.IsWritten "IFERROR(ABS(7),ABS(8))".toList := by
    unfold Formula.IsWritten guardedCall absoluteOf
    simp only [Phrase.lexemes, List.map_cons, List.map_nil, List.intercalate_cons_cons,
      List.intercalate_singleton, List.cons_append, List.nil_append]
    have text : "IFERROR(ABS(7),ABS(8))".toList =
        ['I', 'F', 'E', 'R', 'R', 'O', 'R', '(', 'A', 'B', 'S', '(', '7', ')', ',', 'A', 'B', 'S',
          '(', '8', ')', ')'] := by
      decide +kernel
    rw [text]
    refine .cons_spelled ['I', 'F', 'E', 'R', 'R', 'O', 'R'] rfl (.cons_spelled ['('] rfl ?_)
    refine .cons_spelled ['A', 'B', 'S'] rfl
      (.cons_spelled ['('] rfl (.cons_spelled ['7'] rfl (.cons_spelled [')'] rfl ?_)))
    refine .cons_spelled [','] rfl ?_
    exact .cons_spelled ['A', 'B', 'S'] rfl (.cons_spelled ['('] rfl (.cons_spelled ['8'] rfl
      (.cons_spelled [')'] rfl (.of_spelled rfl))))
  have result : guardedCall.result = .ok 7 := by
    unfold Phrase.result guardedCall absoluteOf
    simp only [Phrase.value, List.map_cons, List.map_nil]
    decide +kernel
  have holds : guardedCall.guardsHold = true := by
    unfold guardedCall absoluteOf
    simp only [Phrase.guardsHold, Phrase.result, Phrase.value, List.map_cons, List.map_nil]
    decide +kernel
  have shallow : guardedCall.guardDepth ≤ Resolver.maxDepth := by
    unfold guardedCall absoluteOf
    simp only [Phrase.guardDepth, List.map_cons, List.map_nil]
    decide +kernel
  have charged : guardedCall.chargedCalls = 2 := by
    unfold guardedCall absoluteOf
    simp only [Phrase.chargedCalls, List.map_cons, List.map_nil]
    decide +kernel
  have enough := (Resolver.run_evaluate_of_guardsHold written result holds shallow 2).1
    (Nat.le_of_eq charged)
  have few := (Resolver.run_evaluate_of_guardsHold written result holds shallow 1).2
    (by rw [charged]; decide)
  rw [charged] at enough
  exact ⟨written, result, holds, shallow, charged, enough, few⟩

end QuantityFormula
