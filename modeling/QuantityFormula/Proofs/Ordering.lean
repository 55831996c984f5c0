import QuantityFormula.Proofs.Balance

/-!
What becomes of the tokens of an expression. They are ordered into steps exactly if no group is
closed that is not open and none stays open, whatever else is out of place. Then each number is
pushed in its turn, each operator is applied once, and nothing else is done.
-/

set_option autoImplicit false

namespace QuantityFormula

/-! ### Open groups -/

namespace Token

def openGroups (tokens : List Token) : Int :=
  tokens.count leftParen - tokens.count rightParen

private theorem openGroups_nil : openGroups [] = 0 :=
  rfl

private theorem openGroups_cons (token : Token) (tokens : List Token) :
    openGroups (token :: tokens) = openGroups [token] + openGroups tokens := by
  unfold openGroups
  rw [List.count_cons, List.count_cons, List.count_singleton, List.count_singleton]
  omega

/-- Tokens that close no group unless it is open, with some open in front of them, and
all of them in the end. -/
def CloseAll (depth : Int) (tokens : List Token) : Prop :=
  (∀ earlier, earlier <+: tokens → 0 ≤ depth + openGroups earlier) ∧ depth + openGroups tokens = 0

private theorem closeAll_nil {depth : Int} : CloseAll depth [] ↔ depth = 0 := by
  constructor
  · rintro ⟨_, closed⟩
    rwa [openGroups_nil, add_zero] at closed
  · rintro rfl
    constructor
    · intro earlier starts
      rw [List.prefix_nil.mp starts]
      rfl
    · rfl

theorem CloseAll.nonneg {depth : Int} {tokens : List Token}
    (closed : CloseAll depth tokens) : 0 ≤ depth := by
  have start := closed.1 [] List.nil_prefix
  rwa [openGroups_nil, add_zero] at start

private theorem closeAll_cons {depth : Int} (nonneg : 0 ≤ depth) {token : Token}
    {tokens : List Token} :
    CloseAll depth (token :: tokens) ↔ CloseAll (depth + openGroups [token]) tokens := by
  have later (earlier : List Token) :
      depth + openGroups [token] + openGroups earlier = depth + openGroups (token :: earlier) := by
    rw [openGroups_cons token earlier, add_assoc]
  constructor
  · rintro ⟨within, closed⟩
    refine ⟨?_, (later tokens).trans closed⟩
    intro earlier starts
    rw [later]
    exact within _ (List.cons_prefix_cons.mpr ⟨rfl, starts⟩)
  · rintro ⟨within, closed⟩
    refine ⟨?_, (later tokens).symm.trans closed⟩
    intro earlier starts
    rcases List.prefix_cons_iff.mp starts with rfl | ⟨behind, rfl, startsBehind⟩
    · rwa [openGroups_nil, add_zero]
    · rw [← later]
      exact within behind startsBehind

/-- The count of the open groups agrees with the check of the parentheses one by one. -/
theorem isBalancedFrom_brackets_iff {depth : Nat} {tokens : List Token} :
    Text.isBalancedFrom depth (brackets tokens) = true ↔ CloseAll depth tokens := by
  induction tokens generalizing depth with
  | nil => simp [brackets, Text.isBalancedFrom, closeAll_nil]
  | cons token tokens ih =>
      rw [closeAll_cons (Int.natCast_nonneg depth)]
      cases token with
      | number value | operator sign =>
          have same : (depth : Int) = depth + 0 := (add_zero _).symm
          rw [show openGroups [_] = 0 from rfl, ← same]
          exact ih
      | leftParen => exact ih
      | rightParen =>
          cases depth with
          | zero =>
              constructor
              · intro balanced
                cases balanced
              · intro closed
                exact absurd closed.nonneg (by decide)
          | succ depth =>
              have closed : ((depth + 1 : Nat) : Int) + openGroups [rightParen] = depth := by
                rw [show openGroups [rightParen] = -1 from rfl]
                omega
              rw [closed]
              exact ih

/-! ### What tokens and steps carry -/

def number? : Token → Option Float
  | number value => some value
  | operator _ | leftParen | rightParen => none

def operator? : Token → Option Operator
  | operator sign => some sign
  | number _ | leftParen | rightParen => none

end Token

namespace Instruction

def pushed? : Instruction → Option Float
  | push value => some value
  | apply _ => none

def applied? : Instruction → Option Operator
  | push _ => none
  | apply operator => some operator

end Instruction

namespace Program

/-! ### Order -/

/-- Tokens are ordered exactly if their parentheses close all groups that are open. -/
theorem exists_order_iff {waiting : List Operator} {outer : List (List Operator)}
    {tokens : List Token} :
    (∃ program, order waiting outer tokens = .ok program) ↔
      Text.isBalancedFrom outer.length (Token.brackets tokens) = true := by
  constructor
  · rintro ⟨program, ordered⟩
    exact isBalancedFrom_order ordered
  · intro balanced
    fun_induction order waiting outer tokens with
    | case1 waiting => exact ⟨_, rfl⟩
    | case2 => cases balanced
    | case3 waiting outer value tokens ih =>
        obtain ⟨program, ordered⟩ := ih balanced
        exact ⟨.push value :: program, by rw [ordered]; rfl⟩
    | case4 waiting outer tokens ih => exact ih balanced
    | case5 => cases balanced
    | case6 waiting enclosing outer tokens ih =>
        obtain ⟨program, ordered⟩ := ih balanced
        exact ⟨_, by rw [ordered]; rfl⟩
    | case7 waiting outer next tokens ready still ih =>
        obtain ⟨program, ordered⟩ := ih balanced
        exact ⟨_, by rw [ordered]; rfl⟩

theorem fault_of_order {waiting : List Operator} {outer : List (List Operator)}
    {tokens : List Token} {fault : Fault}
    (failed : order waiting outer tokens = .error fault) : fault = .unbalancedParentheses := by
  fun_induction order waiting outer tokens with
  | case1 waiting => cases failed
  | case2 | case5 =>
      cases failed
      rfl
  | case4 waiting outer tokens ih => exact ih failed
  | case3 _ _ _ _ ih | case6 _ _ _ _ ih | case7 _ _ _ _ _ _ ih =>
      rcases cases_of_bind_eq_error failed with failedRest | ⟨following, _, impossible⟩
      · exact ih failedRest
      · cases impossible

private theorem filterMap_apply (operators : List Operator) :
    (operators.map Instruction.apply).filterMap Instruction.pushed? = [] ∧
      (operators.map Instruction.apply).filterMap Instruction.applied? = operators := by
  rw [List.filterMap_map, List.filterMap_map]
  exact ⟨List.filterMap_eq_nil_iff.mpr fun _ _ => rfl, List.filterMap_some⟩

/-- Numbers are pushed as they come, and no operator is lost on the way from where it waits. -/
theorem order_keeps {waiting : List Operator} {outer : List (List Operator)}
    {tokens : List Token} {program : Program} (ordered : order waiting outer tokens = .ok program) :
    program.filterMap Instruction.pushed? = tokens.filterMap Token.number? ∧
      (program.filterMap Instruction.applied?).Perm
        (waiting ++ (outer.flatten ++ tokens.filterMap Token.operator?)) := by
  fun_induction order waiting outer tokens generalizing program with
  | case1 waiting =>
      cases ordered
      obtain ⟨noPush, applied⟩ := filterMap_apply waiting
      refine ⟨noPush, ?_⟩
      rw [applied]
      simp
  | case2 => cases ordered
  | case3 waiting outer value tokens ih =>
      obtain ⟨following, orderedRest, same⟩ := exists_of_bind_eq_ok ordered
      cases same
      obtain ⟨pushed, applied⟩ := ih orderedRest
      exact ⟨congrArg (value :: ·) pushed, applied⟩
  | case4 waiting outer tokens ih =>
      obtain ⟨pushed, applied⟩ := ih ordered
      rw [List.nil_append, List.flatten_cons, List.append_assoc] at applied
      exact ⟨pushed, applied⟩
  | case5 => cases ordered
  | case6 waiting enclosing outer tokens ih =>
      obtain ⟨following, orderedRest, same⟩ := exists_of_bind_eq_ok ordered
      cases same
      obtain ⟨pushed, applied⟩ := ih orderedRest
      obtain ⟨noPush, flushed⟩ := filterMap_apply waiting
      rw [List.filterMap_append, List.filterMap_append, noPush, flushed]
      refine ⟨pushed, ?_⟩
      rw [List.flatten_cons, List.append_assoc]
      exact applied.append_left waiting
  | case7 waiting outer next tokens =>
      rename_i ready still ih
      obtain ⟨following, orderedRest, same⟩ := exists_of_bind_eq_ok ordered
      cases same
      obtain ⟨pushed, applied⟩ := ih orderedRest
      obtain ⟨noPush, flushed⟩ := filterMap_apply ready
      rw [List.filterMap_append, List.filterMap_append, noPush, flushed]
      refine ⟨pushed, ?_⟩
      have parts : ready ++ still = waiting := List.takeWhile_append_dropWhile
      -- The operator that comes next waits in front of all others, but stands
      -- behind them among the tokens.
      change (ready ++ _).Perm
        (waiting ++ (outer.flatten ++ next :: tokens.filterMap Token.operator?))
      generalize tokens.filterMap Token.operator? = behind at applied ⊢
      have toFront : (ready ++ (next :: still ++ (outer.flatten ++ behind))).Perm
          (next :: (waiting ++ (outer.flatten ++ behind))) := by
        rw [← parts, List.append_assoc]
        exact List.perm_middle
      have toBack : (waiting ++ (outer.flatten ++ next :: behind)).Perm
          (next :: (waiting ++ (outer.flatten ++ behind))) := by
        rw [← List.append_assoc, ← List.append_assoc]
        exact List.perm_middle
      exact (applied.append_left ready).trans (toFront.trans toBack.symm)

theorem length_eq (program : Program) :
    program.length =
      (program.filterMap Instruction.pushed?).length +
        (program.filterMap Instruction.applied?).length := by
  induction program with
  | nil => rfl
  | cons instruction program ih =>
      cases instruction with
      | push value =>
          rw [List.length_cons, ih]
          exact Nat.add_right_comm _ _ 1
      | apply operator =>
          rw [List.length_cons, ih]
          exact Nat.add_assoc _ _ 1

/-! ### Main result -/

/-- Whatever the order of some tokens is, they have a program exactly if at no place more groups are
closed than were opened, and in the end as many. Nothing else can go wrong, the program pushes the
numbers in their order, applies each operator as often as it stands there, and does nothing else. -/
theorem ofTokens_loses_nothing (tokens : List Token) :
    ((∃ program, ofTokens tokens = .ok program) ↔
      (∀ earlier, earlier <+: tokens → 0 ≤ Token.openGroups earlier) ∧
        Token.openGroups tokens = 0) ∧
    (∀ fault, ofTokens tokens = .error fault → fault = .unbalancedParentheses) ∧
    ∀ program, ofTokens tokens = .ok program →
      program.filterMap Instruction.pushed? = tokens.filterMap Token.number? ∧
      (program.filterMap Instruction.applied?).Perm (tokens.filterMap Token.operator?) ∧
      program.length = (tokens.filterMap Token.number?).length +
        (tokens.filterMap Token.operator?).length := by
  refine ⟨?_, fun fault failed => fault_of_order failed, ?_⟩
  · rw [ofTokens, exists_order_iff, Token.isBalancedFrom_brackets_iff, Token.CloseAll]
    simp only [List.length_nil, Nat.cast_zero, zero_add]
  · intro program ordered
    obtain ⟨pushed, applied⟩ := order_keeps ordered
    rw [List.nil_append, List.flatten_nil, List.nil_append] at applied
    refine ⟨pushed, applied, ?_⟩
    rw [program.length_eq, pushed, applied.length_eq]

def operatorsBehind : List Token :=
  [.leftParen, .number 1, .number 2, .number 3, .operator .subtract, .rightParen, .operator .power]

theorem ofTokens_loses_nothing_operatorsBehind :
    (∃ program, ofTokens operatorsBehind = .ok program ∧
      program.filterMap Instruction.pushed? = [1, 2, 3] ∧
      (program.filterMap Instruction.applied?).Perm [.subtract, .power] ∧ program.length = 5) ∧
    ∀ fault, ofTokens [.rightParen, .leftParen] = .error fault →
      fault = .unbalancedParentheses := by
  obtain ⟨program, ordered⟩ := (ofTokens_loses_nothing operatorsBehind).1.mpr
    ⟨by simp only [← List.mem_inits]; decide, by decide⟩
  exact ⟨⟨program, ordered, (ofTokens_loses_nothing operatorsBehind).2.2 program ordered⟩,
    (ofTokens_loses_nothing [.rightParen, .leftParen]).2.1⟩

end Program

end QuantityFormula
