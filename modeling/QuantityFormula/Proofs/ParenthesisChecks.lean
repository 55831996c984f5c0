import QuantityFormula.Proofs.FaultOrigins
import QuantityFormula.Proofs.Ordering

/-!
The checks of parentheses agree. Parentheses are counted in a text as it is written, matched from
the head of a call, and taken in pairs where the tokens of its arithmetic are ordered. All that a
balanced text leads to balances, so nothing in its evaluation meets a parenthesis without its
partner. A text that does not balance has no value.
-/

set_option autoImplicit false

namespace QuantityFormula

open Text

namespace Arithmetic

private theorem exists_ofTokens_iff {text : Text} {tokens : List Token}
    (read : Token.ofText text = .ok tokens) :
    (∃ program, Program.ofTokens (completeMinus true tokens) = .ok program) ↔
      isBalanced text = true := by
  rw [isBalanced, Token.isBalancedFrom_scan read, ← Token.brackets_completeMinus true tokens]
  exact Program.exists_order_iff

private theorem failsLocally_evaluate {text : Text} (balanced : isBalanced text = true) :
    FailsLocally (evaluate text) := by
  refine (Token.failsLocally_scan [] text).bind fun tokens read => ?_
  obtain ⟨program, ordered⟩ := (exists_ofTokens_iff read).mpr balanced
  rw [ordered]
  exact program.failsLocally_execute.bind fun value _ => failsLocally_requireFinite value

end Arithmetic

private theorem Call.isItem_of_mem_splitArguments {arguments : Text}
    (balanced : isBalanced arguments = true)
    {items : List Text} (split : splitArguments arguments = .ok items) :
    ∀ item ∈ items, IsItem item := by
  unfold splitArguments at split
  split at split
  · cases split
    exact nofun
  dsimp only at split
  split at split
  · cases split
  cases split
  intro item member
  obtain ⟨piece, inside, rfl⟩ := List.mem_map.mp member
  exact (isItem_of_mem_splitCommas balanced piece inside).trim

namespace Resolver

namespace Evaluation

/-! ### Balance of what is visited -/

private theorem Calls.isBalanced_of_mem {evaluation : Evaluation} {call : Call}
    {builtin : Builtin} {items : List Text}
    (calls : evaluation.Calls call builtin items) {item : Text} (member : item ∈ items) :
    isBalanced item = true := by
  obtain ⟨_, _, _, _, _, _, balanced⟩ := Call.parts_of_next? calls.next
  exact isNeutral_iff.mp
    (Call.isItem_of_mem_splitArguments balanced calls.split item member).isNeutral

theorem Leads.isBalanced {earlier later : Evaluation} (leads : Leads earlier later)
    (balanced : isBalanced earlier.text = true) : Text.isBalanced later.text = true := by
  cases leads with
  | @replaced call x after next within valued =>
      have same := Call.sameBalance_replaceBy next (isNeutral_inlineNumber x)
      exact same.isBalanced_eq.symm.trans balanced
  | argument calls valued => exact calls.isBalanced_of_mem (by simp)
  | value calls room => exact calls.isBalanced_of_mem (by simp)
  | fallback calls room failed unlimited => exact calls.isBalanced_of_mem (by simp)

/-- Each parenthesis has its partner, where the next call is cut out and
where tokens are ordered. -/
structure IsMatched (evaluation : Evaluation) : Prop where
  cut : ∃ call?, Call.next? evaluation.text = .ok call?
  ordered : ∀ tokens, Token.ofText evaluation.text = .ok tokens →
    ∃ program, Program.ofTokens (Arithmetic.completeMinus true tokens) = .ok program

private theorem isMatched_of_isBalanced {evaluation : Evaluation}
    (balanced : isBalanced evaluation.text = true) :
    evaluation.IsMatched where
  cut := by
    rcases Call.next?_of_balanced balanced with ⟨_, blocked⟩ | ⟨call, next⟩
    · exact ⟨none, blocked⟩
    · exact ⟨some call, next⟩
  ordered := fun _ read => (Arithmetic.exists_ofTokens_iff read).mpr balanced

theorem Visits.isBalanced {first last : Evaluation} (visits : Visits first last)
    (balanced : Text.isBalanced first.text = true) : Text.isBalanced last.text = true :=
  visits.invariant (fun leads => leads.isBalanced) balanced

private theorem not_raises_of_isBalanced {evaluation : Evaluation}
    (balanced : isBalanced evaluation.text = true) :
    ¬evaluation.Raises .unbalancedParentheses := by
  intro raises
  cases raises with
  | search failed =>
      obtain ⟨call?, found⟩ := (isMatched_of_isBalanced balanced).cut
      rw [found] at failed
      cases failed
  | arithmetic _ failed => exact (Arithmetic.failsLocally_evaluate balanced).ne_error rfl failed

end Evaluation

/-- In a balanced text the parentheses match wherever they are looked at, and a text that
does not balance fails. -/
theorem parentheses_agree (text : Text) (resolver : Resolver) :
    (isBalanced text = true →
      ((evaluate text).run resolver).1 ≠ .error .unbalancedParentheses ∧
        ∀ later, Evaluation.Visits ⟨resolver, text⟩ later → later.IsMatched) ∧
    (isBalanced text = false → ∃ fault, ((evaluate text).run resolver).1 = .error fault) := by
  constructor
  · intro balanced
    constructor
    · intro failed
      obtain ⟨last, visits, raises⟩ := Evaluation.hasOrigin ⟨resolver, text⟩ rfl failed
      exact Evaluation.not_raises_of_isBalanced (visits.isBalanced balanced) raises
    · exact fun later visits => Evaluation.isMatched_of_isBalanced (visits.isBalanced balanced)
  · intro unbalanced
    cases outcome : ((evaluate text).run resolver).1 with
    | error fault => exact ⟨fault, rfl⟩
    | ok value =>
        rw [isBalanced_of_run outcome] at unbalanced
        cases unbalanced

def groupUnderGuard : Evaluation :=
  ⟨.fresh 5, "IFERROR(ABS((1 - 3)), 2)".toList⟩

def guardClosedTwice : Text :=
  "IFERROR(1, 2))".toList

theorem parentheses_agree_underGuard :
    groupUnderGuard.outcome ≠ .error .unbalancedParentheses ∧
      Evaluation.IsMatched ⟨⟨5, 1, 1⟩, "ABS((1 - 3))".toList⟩ ∧
      ∃ fault, ((evaluate guardClosedTwice).run (.fresh 5)).1 = .error fault := by
  have outer : groupUnderGuard.Calls ⟨[], "IFERROR".toList, "ABS((1 - 3)), 2".toList, []⟩ .ifError
      ["ABS((1 - 3))".toList, "2".toList] := ⟨rfl, by decide, by decide +kernel, rfl⟩
  have visits : groupUnderGuard.Visits ⟨⟨5, 1, 1⟩, "ABS((1 - 3))".toList⟩ :=
    .single (.value outer (by decide))
  obtain ⟨unfailing, matched⟩ :=
    (parentheses_agree groupUnderGuard.text groupUnderGuard.resolver).1 (by decide +kernel)
  exact ⟨unfailing, matched _ visits, (parentheses_agree guardClosedTwice (.fresh 5)).2
    (by decide +kernel)⟩

end Resolver

end QuantityFormula
