import QuantityFormula.Proofs.Tokenizing

/-!
The value of a written expression. Between the text and the value lie the tokens with their zeros,
the postfix program and the stack; each of them is recovered from the tree. The operators that
wait while a tree is ordered bind less tightly than any operator of the tree, and whatever follows
the tree binds no tighter.
-/

set_option autoImplicit false

namespace QuantityFormula

namespace Phrase

/-- The tokens of a tree with a zero in front of each minus without a left operand. -/
def completed : {kind : Kind} → Phrase Numeral kind → List Token
  | _, .leaf numeral => [.number numeral.value]
  | _, .group inner => .leftParen :: (inner.completed ++ [.rightParen])
  | _, .call _ _ => []
  | _, .base atom => atom.completed
  | _, .raise root exponent => root.completed ++ .operator .power :: exponent.completed
  | _, .factor power => power.completed
  | _, .scale operator _ left right => left.completed ++ .operator operator :: right.completed
  | _, .term product => product.completed
  | _, .minus product => .number 0 :: .operator .subtract :: product.completed
  | _, .add operator _ left right => left.completed ++ .operator operator :: right.completed

def program : {kind : Kind} → Phrase Numeral kind → Program
  | _, .leaf numeral => [.push numeral.value]
  | _, .group inner => inner.program
  | _, .call _ _ => []
  | _, .base atom => atom.program
  | _, .raise root exponent => root.program ++ (exponent.program ++ [.apply .power])
  | _, .factor power => power.program
  | _, .scale operator _ left right => left.program ++ (right.program ++ [.apply operator])
  | _, .term product => product.program
  | _, .minus product => .push 0 :: (product.program ++ [.apply .subtract])
  | _, .add operator _ left right => left.program ++ (right.program ++ [.apply operator])

end Phrase

/-! ### Zeros -/

private theorem completeMinus_tokens {kind : Kind} {phrase : Phrase Numeral kind}
    (callFree : phrase.callCount = 0)
    (opening : Bool) (admits : opening = false → kind ≠ .sum) (rest : List Token) :
    Arithmetic.completeMinus opening (phrase.tokens ++ rest) =
      phrase.completed ++ Arithmetic.completeMinus false rest := by
  unfold Phrase.tokens
  induction phrase generalizing opening rest with
  | leaf numeral =>
      cases opening <;>
        simp [Phrase.lexemes, Lexeme.token?, Phrase.completed, Arithmetic.completeMinus]
  | group inner ih =>
      rw [Phrase.callCount] at callFree
      have inside := ih callFree true (by simp) (.rightParen :: rest)
      cases opening <;>
        simp [Phrase.lexemes, Lexeme.token?, Phrase.completed, Arithmetic.completeMinus, inside]
  | call name arguments ih =>
      rw [Phrase.callCount] at callFree
      omega
  | base atom ih | factor power ih | term product ih =>
      rw [Phrase.callCount] at callFree
      rw [Phrase.lexemes, Phrase.completed]
      exact ih callFree opening (fun _ => by decide) rest
  | minus product ih =>
      rw [Phrase.callCount] at callFree
      have operand := ih callFree false (fun _ => by decide) rest
      cases opening with
      | false => exact absurd rfl (admits rfl)
      | true =>
          simp [Phrase.lexemes, Lexeme.token?, Phrase.completed, Arithmetic.completeMinus, operand]
  | raise left right ihLeft ihRight | scale operator _ left right ihLeft ihRight
  | add operator _ left right ihLeft ihRight =>
      rw [Phrase.callCount, Nat.add_eq_zero_iff] at callFree
      have after := ihRight callFree.2 false (fun _ => by decide) rest
      simp [Phrase.lexemes, Lexeme.token?, Phrase.completed, Arithmetic.completeMinus,
        ihLeft callFree.1 opening (by first | exact admits | exact fun _ => by decide), after]

/-! ### Order -/

/-- How tightly the operators outside of all groups of a tree bind at least. -/
def Kind.tier : Kind → Nat
  | .sum => 1
  | .product => 2
  | .power => 3
  | .atom => 4

/-- Tokens in front of which every operator that binds as tightly as a
tier has its right operand. -/
def EndsTier (tier : Nat) : List Token → Prop
  | [] | .rightParen :: _ => True
  | .operator next :: _ =>
    ∀ waiting : Operator, tier ≤ waiting.precedence → waiting.bindsBefore next = true
  | _ => False

/-- Waiting operators none of which has its right operand in front of an operator of a tier. -/
def WaitsBelow (tier : Nat) (waiting : List Operator) : Prop :=
  ∀ next : Operator, tier ≤ next.precedence → waiting.takeWhile (·.bindsBefore next) = []

theorem EndsTier.mono {tier higher : Nat} (above : tier ≤ higher) {rest : List Token}
    (ends : EndsTier tier rest) :
    EndsTier higher rest := by
  match rest, ends with
  | [], _ | .rightParen :: _, _ => trivial
  | .operator next :: _, binds =>
      exact fun waiting tight => binds waiting (Nat.le_trans above tight)

theorem WaitsBelow.mono {tier higher : Nat} (above : tier ≤ higher) {waiting : List Operator}
    (below : WaitsBelow tier waiting) : WaitsBelow higher waiting :=
  fun next tight => below next (Nat.le_trans above tight)

private theorem waitsBelow_cons {tier : Nat} {operator : Operator}
    (loose : ∀ next : Operator, tier ≤ next.precedence → operator.bindsBefore next = false)
    (waiting : List Operator) : WaitsBelow tier (operator :: waiting) := by
  intro next tight
  rw [List.takeWhile_cons, loose next tight]
  rfl

namespace Program

theorem order_number (waiting : List Operator) (outer : List (List Operator)) (value : Float)
    (rest : List Token) :
    order waiting outer (.number value :: rest) = (.push value :: ·) <$>
      order waiting outer rest := by
  cases outer <;> rfl

theorem order_leftParen (waiting : List Operator) (outer : List (List Operator))
    (rest : List Token) :
    order waiting outer (.leftParen :: rest) = order [] (waiting :: outer) rest := by
  cases outer <;> rfl

private theorem order_operator {tier : Nat} {waiting : List Operator}
    (below : WaitsBelow tier waiting)
    {next : Operator} (tight : tier ≤ next.precedence) (outer : List (List Operator))
    (rest : List Token) :
    order waiting outer (.operator next :: rest) = order (next :: waiting) outer rest := by
  have none := below next tight
  have all : waiting.dropWhile (·.bindsBefore next) = waiting := by
    have parts := List.takeWhile_append_dropWhile (p := (·.bindsBefore next)) (l := waiting)
    rwa [none] at parts
  rw [order, none, all]
  cases order (next :: waiting) outer rest <;> rfl

private theorem order_ended {tier : Nat} {rest : List Token} (ends : EndsTier tier rest)
    {operator : Operator}
    (tight : tier ≤ operator.precedence) (waiting : List Operator) (outer : List (List Operator)) :
    order (operator :: waiting) outer rest = (.apply operator :: ·) <$>
      order waiting outer rest := by
  match rest, ends with
  | [], _ => cases outer <;> rfl
  | .rightParen :: rest, _ =>
      cases outer with
      | nil => rfl
      | cons enclosing outer =>
          rw [order, order]
          cases order enclosing outer rest <;> rfl
  | .operator next :: rest, binds =>
      have ready := binds operator tight
      rw [order, order, List.takeWhile_cons, List.dropWhile_cons, if_pos ready, if_pos ready]
      cases order (next :: waiting.dropWhile (·.bindsBefore next)) outer rest <;> rfl

private theorem order_operands {tier : Nat} {operator : Operator} {before after rest : List Token}
    {left right : Program} {waiting : List Operator} {outer : List (List Operator)}
    (below : WaitsBelow tier waiting) (tight : tier ≤ operator.precedence)
    (ends : EndsTier tier rest)
    (leftOrder : order waiting outer (before ++ .operator operator :: (after ++ rest)) =
      (left ++ ·) <$> order waiting outer (.operator operator :: (after ++ rest)))
    (rightOrder : order (operator :: waiting) outer (after ++ rest) =
      (right ++ ·) <$> order (operator :: waiting) outer rest) :
    order waiting outer (before ++ .operator operator :: after ++ rest) =
      (left ++ (right ++ [.apply operator]) ++ ·) <$> order waiting outer rest := by
  rw [List.append_assoc, List.cons_append, leftOrder, order_operator below tight, rightOrder,
    order_ended ends tight]
  cases order waiting outer rest with
  | error fault => rfl
  | ok program => simp

/-- A tree is ordered into its own program, whatever waits for it and whatever follows. -/
theorem order_completed {kind : Kind} {phrase : Phrase Numeral kind}
    (callFree : phrase.callCount = 0)
    {waiting : List Operator} (below : WaitsBelow kind.tier waiting) (outer : List (List Operator))
    {rest : List Token} (ends : EndsTier kind.tier rest) :
    order waiting outer (phrase.completed ++ rest) = (phrase.program ++ ·) <$>
      order waiting outer rest := by
  -- What waits may not bind before an operator of the tree, and what follows may
  -- not take its last operand.
  induction phrase generalizing waiting outer rest with
  | leaf numeral => exact order_number waiting outer numeral.value rest
  | group inner ih =>
      rw [Phrase.callCount] at callFree
      have inside : order [] (waiting :: outer) (inner.completed ++ .rightParen :: rest) = _ :=
        ih callFree (fun _ _ => rfl) (waiting :: outer) trivial
      rw [Phrase.completed, List.cons_append, List.append_assoc, List.singleton_append,
        order_leftParen, inside, order, Phrase.program]
      cases order waiting outer rest <;> rfl
  | call name arguments ih =>
      rw [Phrase.callCount] at callFree
      omega
  | base atom ih | factor power ih | term product ih =>
      rw [Phrase.callCount] at callFree
      rw [Phrase.completed, Phrase.program]
      exact ih callFree (below.mono (by decide)) outer (ends.mono (by decide))
  | minus product ih =>
      rw [Phrase.callCount] at callFree
      have zero : ∀ tokens, order waiting outer ([.number 0] ++ tokens) =
          ([.push 0] ++ ·) <$> order waiting outer tokens := order_number waiting outer 0
      apply order_operands below (by decide) ends (zero _)
      · refine ih callFree (waitsBelow_cons ?_ waiting) outer (ends.mono (by decide))
        intro next tight
        revert tight
        cases next <;> decide
  | raise root exponent ihRoot ihExponent =>
      rw [Phrase.callCount, Nat.add_eq_zero_iff] at callFree
      apply order_operands below (by decide) ends
      · refine ihRoot callFree.1 (below.mono (by decide)) outer ?_
        intro waiting tight
        revert tight
        cases waiting <;> decide
      · refine ihExponent callFree.2 (waitsBelow_cons ?_ waiting) outer ends
        intro next tight
        revert tight
        cases next <;> decide
  | scale operator scales left right ihLeft ihRight =>
      rw [Phrase.callCount, Nat.add_eq_zero_iff] at callFree
      have tier : Kind.product.tier = operator.precedence := by
        rcases scales with rfl | rfl | rfl <;> rfl
      apply order_operands below (Nat.le_of_eq tier) ends
      · refine ihLeft callFree.1 below outer ?_
        intro waiting tight
        revert tight
        rcases scales with rfl | rfl | rfl <;> cases waiting <;> decide
      · refine ihRight callFree.2 (waitsBelow_cons ?_ waiting) outer (ends.mono (by decide))
        intro next tight
        revert tight
        rcases scales with rfl | rfl | rfl <;> cases next <;> decide
  | add operator adds left right ihLeft ihRight =>
      rw [Phrase.callCount, Nat.add_eq_zero_iff] at callFree
      have tier : Kind.sum.tier = operator.precedence := by
        rcases adds with rfl | rfl <;> rfl
      apply order_operands below (Nat.le_of_eq tier) ends
      · refine ihLeft callFree.1 below outer ?_
        intro waiting tight
        revert tight
        rcases adds with rfl | rfl <;> cases waiting <;> decide
      · refine ihRight callFree.2 (waitsBelow_cons ?_ waiting) outer (ends.mono (by decide))
        intro next tight
        revert tight
        rcases adds with rfl | rfl <;> cases next <;> decide

/-! ### Stack -/

theorem run_append (stack : List Float) (before after : Program) :
    run stack (before ++ after) = run stack before >>= fun middle => run middle after :=
  List.foldlM_append

private theorem run_apply (left right : Float) (stack : List Float)
    (operator : Operator) (rest : Program) :
    run (right :: left :: stack) (.apply operator :: rest) =
      operator.apply left right >>= fun value => run (value :: stack) rest := by
  change (step (right :: left :: stack) (.apply operator) >>= fun after => run after rest) = _
  rw [step]
  cases operator.apply left right <;> rfl

theorem run_operands {left right : Program} {leftValue rightValue : Except Fault Float}
    (runLeft : ∀ stack rest,
      run stack (left ++ rest) = leftValue >>= fun value => run (value :: stack) rest)
    (runRight : ∀ stack rest,
      run stack (right ++ rest) = rightValue >>= fun value => run (value :: stack) rest)
    (operator : Operator) (stack : List Float) (rest : Program) :
    run stack (left ++ (right ++ [.apply operator]) ++ rest) =
      operator.outcome leftValue rightValue >>= fun value => run (value :: stack) rest := by
  rw [List.append_assoc, List.append_assoc, List.singleton_append, runLeft, Operator.outcome]
  cases leftValue with
  | error fault => rfl
  | ok leftNumber =>
      change run (leftNumber :: stack) (right ++ .apply operator :: rest) = _
      rw [runRight]
      cases rightValue with
      | error fault => rfl
      | ok rightNumber => exact run_apply leftNumber rightNumber stack operator rest

theorem run_program {kind : Kind} {phrase : Phrase Numeral kind} (callFree : phrase.callCount = 0)
    (stack : List Float) (rest : Program) :
    run stack (phrase.program ++ rest) = phrase.value >>= fun value =>
      run (value :: stack) rest := by
  induction phrase generalizing stack rest with
  | leaf numeral =>
      rw [Phrase.program, Phrase.value]
      rfl
  | group inner ih | base atom ih | factor power ih | term product ih =>
      rw [Phrase.callCount] at callFree
      rw [Phrase.program, Phrase.value]
      exact ih callFree stack rest
  | call name arguments ih =>
      rw [Phrase.callCount] at callFree
      omega
  | minus product ih =>
      rw [Phrase.callCount] at callFree
      rw [Phrase.program, Phrase.value]
      have zero : ∀ stack rest, run stack ([.push 0] ++ rest) =
          (.ok 0 : Except Fault Float) >>= fun value => run (value :: stack) rest := fun _ _ => rfl
      exact run_operands zero (ih callFree) .subtract stack rest
  | raise left right ihLeft ihRight | scale operator _ left right ihLeft ihRight
  | add operator _ left right ihLeft ihRight =>
      rw [Phrase.callCount, Nat.add_eq_zero_iff] at callFree
      rw [Phrase.program, Phrase.value]
      exact run_operands (ihLeft callFree.1) (ihRight callFree.2) _ stack rest

end Program

/-! ### Value -/

private theorem ofTokens_completed {formula : Formula} (callFree : formula.callCount = 0) :
    Program.ofTokens formula.completed = .ok formula.program := by
  have ordered : Program.order [] [] (formula.completed ++ []) = _ :=
    Program.order_completed callFree (fun _ _ => rfl) [] trivial
  rw [List.append_nil] at ordered
  rw [Program.ofTokens, ordered]
  change Except.ok (formula.program ++ []) = _
  rw [List.append_nil]

private theorem execute_program {formula : Formula} (callFree : formula.callCount = 0) :
    Program.execute formula.program = formula.value := by
  have ran := Program.run_program callFree [] []
  rw [List.append_nil] at ran
  rw [Program.execute, ran]
  cases formula.value <;> rfl

/-- The arithmetic on any text of a tree without calls has the result of the tree. -/
theorem evaluate_written {formula : Formula} (callFree : formula.callCount = 0) {text : Text}
    (written : formula.IsWritten text) : Arithmetic.evaluate text = formula.result := by
  have tokens := Token.ofText_written written (Phrase.isSome_token? callFree)
  have completed := completeMinus_tokens callFree true (by simp) []
  rw [Arithmetic.completeMinus, List.append_nil, List.append_nil] at completed
  rw [Arithmetic.evaluate, tokens, Phrase.result, ← execute_program callFree]
  change (do
    let program ← Program.ofTokens (Arithmetic.completeMinus true formula.tokens)
    Arithmetic.requireFinite (← program.execute)) = _
  rw [completed, ofTokens_completed callFree]
  rfl

/-! ### Zero divisors -/

/-- The evaluation of a tree without calls comes to a division or a remainder
whose right operand is zero. -/
def Phrase.MeetsZeroDivisor : {kind : Kind} → Phrase Numeral kind → Prop
  | _, .leaf _ => False
  | _, .group inner => inner.MeetsZeroDivisor
  | _, .call _ _ => False
  | _, .base atom => atom.MeetsZeroDivisor
  | _, .raise root exponent => root.MeetsZeroDivisor ∨ exponent.MeetsZeroDivisor
  | _, .factor power => power.MeetsZeroDivisor
  | _, .scale operator _ left right =>
    left.MeetsZeroDivisor ∨ right.MeetsZeroDivisor ∨
      (operator = .divide ∨ operator = .modulo) ∧ ∃ divisor, right.value = .ok divisor ∧
        (divisor == 0) = true
  | _, .term product => product.MeetsZeroDivisor
  | _, .minus product => product.MeetsZeroDivisor
  | _, .add _ _ left right => left.MeetsZeroDivisor ∨ right.MeetsZeroDivisor

private theorem Operator.apply_ok {operator : Operator} {left right : Float}
    (proper : ¬((operator = .divide ∨ operator = .modulo) ∧ (right == 0) = true)) :
    ∃ value, operator.apply left right = .ok value := by
  cases operator with
  | add | subtract | multiply | power => exact ⟨_, rfl⟩
  | divide =>
      have nonzero : (right == 0) = false :=
        Bool.eq_false_iff.mpr fun zero => proper ⟨.inl rfl, zero⟩
      exact ⟨left / right, by rw [apply, nonzero]; rfl⟩
  | modulo =>
      have nonzero : (right == 0) = false :=
        Bool.eq_false_iff.mpr fun zero => proper ⟨.inr rfl, zero⟩
      exact ⟨remainder left right, by rw [apply, nonzero]; rfl⟩

private theorem Operator.apply_divisionByZero {operator : Operator}
    (divides : operator = .divide ∨ operator = .modulo)
    {right : Float} (zero : (right == 0) = true) (left : Float) :
    operator.apply left right = .error .divisionByZero := by
  rcases divides with rfl | rfl <;> rw [apply, if_pos zero]

private theorem outcome_cases {left right : Except Fault Float} {leftMeets rightMeets : Prop}
    (leftCases : leftMeets ∧ left = .error .divisionByZero ∨ ¬leftMeets ∧ ∃ value, left = .ok value)
    (rightCases : rightMeets ∧ right = .error .divisionByZero ∨
      ¬rightMeets ∧ ∃ value, right = .ok value)
    {operator : Operator} {meets : Prop}
    (meets_iff : meets ↔ leftMeets ∨ rightMeets ∨
      (operator = .divide ∨ operator = .modulo) ∧
        ∃ divisor, right = .ok divisor ∧ (divisor == 0) = true) :
    meets ∧ operator.outcome left right = .error .divisionByZero ∨
      ¬meets ∧ ∃ value, operator.outcome left right = .ok value := by
  rcases leftCases with ⟨met, rfl⟩ | ⟨leftProper, leftValue, rfl⟩
  · exact .inl ⟨meets_iff.mpr (.inl met), rfl⟩
  rcases rightCases with ⟨met, rfl⟩ | ⟨rightProper, rightValue, rfl⟩
  · exact .inl ⟨meets_iff.mpr (.inr (.inl met)), rfl⟩
  by_cases zero : (operator = .divide ∨ operator = .modulo) ∧ (rightValue == 0) = true
  · refine .inl ⟨meets_iff.mpr (.inr (.inr ⟨zero.1, rightValue, rfl, zero.2⟩)), ?_⟩
    exact operator.apply_divisionByZero zero.1 zero.2 leftValue
  · refine .inr ⟨?_, Operator.apply_ok zero⟩
    intro met
    rcases meets_iff.mp met with met | met | ⟨divides, divisor, same, isZero⟩
    · exact leftProper met
    · exact rightProper met
    · cases same
      exact zero ⟨divides, isZero⟩

/-- A tree without calls has no value only where a divisor is zero. -/
theorem Phrase.value_of_callFree {kind : Kind} {phrase : Phrase Numeral kind}
    (callFree : phrase.callCount = 0) :
    phrase.MeetsZeroDivisor ∧ phrase.value = .error .divisionByZero ∨
      ¬phrase.MeetsZeroDivisor ∧ ∃ value, phrase.value = .ok value := by
  induction phrase with
  | leaf numeral => exact .inr ⟨id, numeral.value, by rw [value]⟩
  | group inner ih | base atom ih | factor power ih | term product ih =>
      rw [callCount] at callFree
      rw [MeetsZeroDivisor, value]
      exact ih callFree
  | call name arguments ih =>
      rw [callCount] at callFree
      omega
  | minus product ih =>
      rw [callCount] at callFree
      rw [MeetsZeroDivisor, value]
      rcases ih callFree with ⟨meets, failed⟩ | ⟨proper, value, valued⟩
      · exact .inl ⟨meets, by rw [failed]; rfl⟩
      · exact .inr ⟨proper, 0 - value, by rw [valued]; rfl⟩
  | raise root exponent ihRoot ihExponent =>
      rw [callCount, Nat.add_eq_zero_iff] at callFree
      rw [MeetsZeroDivisor, value]
      exact outcome_cases (ihRoot callFree.1) (ihExponent callFree.2) (by simp)
  | scale operator scales left right ihLeft ihRight =>
      rw [callCount, Nat.add_eq_zero_iff] at callFree
      rw [MeetsZeroDivisor, value]
      exact outcome_cases (ihLeft callFree.1) (ihRight callFree.2) Iff.rfl
  | add operator adds left right ihLeft ihRight =>
      rw [callCount, Nat.add_eq_zero_iff] at callFree
      rw [MeetsZeroDivisor, value]
      refine outcome_cases (ihLeft callFree.1) (ihRight callFree.2) ?_
      rcases adds with rfl | rfl <;> simp

/-- The arithmetic on any text of a tree without calls fails with a zero divisor exactly if the
evaluation of the tree comes to one, and else gives the value of the tree if it is finite. -/
theorem evaluate_arithmetic_written {formula : Formula}
    (callFree : formula.callCount = 0) {text : Text} (written : formula.IsWritten text) :
    formula.MeetsZeroDivisor ∧ Arithmetic.evaluate text = .error .divisionByZero ∨
      ¬formula.MeetsZeroDivisor ∧ ∃ value, formula.value = .ok value ∧
        Arithmetic.evaluate text = if value.isFinite then .ok value else .error .invalidResult := by
  rw [evaluate_written callFree written, Phrase.result]
  rcases formula.value_of_callFree callFree with ⟨meets, failed⟩ | ⟨proper, value, valued⟩
  · exact .inl ⟨meets, by rw [failed]; rfl⟩
  · exact .inr ⟨proper, value, valued, by rw [valued]; rfl⟩

def oneByZero : Formula :=
  .term (.scale .divide (.inr (.inl rfl)) (.factor (.base (.leaf ⟨['1'], by decide⟩)))
    (.base (.leaf .zero)))

theorem evaluate_arithmetic_written_oneByZero :
    oneByZero.callCount = 0 ∧ oneByZero.IsWritten ['1', ' ', '/', '0'] ∧
      Arithmetic.evaluate ['1', ' ', '/', '0'] = .error .divisionByZero := by
  have callFree : oneByZero.callCount = 0 := by simp [oneByZero, Phrase.callCount]
  have written : oneByZero.IsWritten ['1', ' ', '/', '0'] := by
    unfold Formula.IsWritten oneByZero
    simp only [Phrase.lexemes]
    have divided : Written Numeral.text [.operator .divide, .leaf .zero] ['/', '0'] :=
      .cons_spelled ['/'] (.inl rfl) (.of_spelled rfl)
    have spaced := divided.prepend_blank (by decide : Text.isBlank [' '] = true)
    exact .cons_spelled ['1'] rfl spaced
  refine ⟨callFree, written, ?_⟩
  rcases evaluate_arithmetic_written callFree written with ⟨_, failed⟩ | ⟨proper, _⟩
  · exact failed
  · refine absurd ?_ proper
    unfold oneByZero
    rw [Phrase.MeetsZeroDivisor, Phrase.MeetsZeroDivisor]
    refine .inr (.inr ⟨.inl rfl, 0, ?_, ?_⟩)
    · rw [Phrase.value, Phrase.value, Numeral.value_zero]
    · decide +kernel

end QuantityFormula
