import QuantityFormula.Proofs.ArithmeticValue
import QuantityFormula.Proofs.GroupedNumbers
import QuantityFormula.Proofs.LexicalGrammar

/-!
Arithmetic on texts in parentheses. In parentheses a text is read to the tokens that it has alone,
they are ordered into the steps that they have alone, and these steps reach no deeper into a stack
than to what they put on it themselves. So the value of two texts with a sign between them is that
of its operator on the two values, and nothing is asked of the texts but that they have values:
they need not be well formed.
-/

set_option autoImplicit false

namespace QuantityFormula

open Text

def Text.combined (left sign right : Text) : Text :=
  '(' :: (left ++ ')' :: (sign ++ '(' :: (right ++ [')'])))

def Operator.IsSpelled (operator : Operator) (sign : Text) : Prop :=
  sign = [operator.symbol] ∨ operator = .power ∧ sign = ['*', '*']

/-! ### Tokens -/

namespace Token

private theorem scan_append_rightParen {text rest : Text} {tokens behind : List Token}
    (scanned : scan [] text = .ok tokens) (scannedRest : scan [] rest = .ok behind) :
    scan [] (text ++ ')' :: rest) = .ok (tokens ++ .rightParen :: behind) := by
  have closing : scan [] (')' :: rest) = .ok (.rightParen :: behind) :=
    scan_sign rfl (fun star => absurd star (by decide)) ofRun_nil scannedRest
  refine scan_append ?_ (List.forall_mem_nil _) scanned closing
  intro c _ d first
  cases first
  have apart : isNumberChar ')' = false := rfl
  rw [adheres, apart, Bool.and_false, Bool.false_or]
  exact Bool.and_false _

private theorem scan_group_text {text rest : Text} {tokens behind : List Token}
    (scanned : scan [] text = .ok tokens) (scannedRest : scan [] rest = .ok behind) :
    scan [] ('(' :: (text ++ ')' :: rest)) =
      .ok (.leftParen :: (tokens ++ .rightParen :: behind)) :=
  scan_sign rfl (fun star => absurd star (by decide)) ofRun_nil
    (scan_append_rightParen scanned scannedRest)

private theorem scan_spelling {sign rest : Text} {operator : Operator}
    (spelled : operator.IsSpelled sign)
    {behind : List Token} (unstarred : rest.head? ≠ some '*')
    (scannedRest : scan [] rest = .ok behind) :
    scan [] (sign ++ rest) = .ok (.operator operator :: behind) := by
  rcases spelled with rfl | ⟨rfl, rfl⟩
  · exact scan_sign (ofChar?_symbol operator) (fun _ => unstarred) ofRun_nil scannedRest
  · exact scan_doubleStar ofRun_nil scannedRest

private theorem ofText_combined {left sign right : Text} {operator : Operator}
    {before after : List Token}
    (spelled : operator.IsSpelled sign) (leftRead : ofText left = .ok before)
    (rightRead : ofText right = .ok after) :
    ofText (combined left sign right) =
      .ok (.leftParen :: (before ++ .rightParen :: .operator operator ::
        .leftParen :: (after ++ [.rightParen]))) := by
  have second : scan [] ('(' :: (right ++ [')'])) = .ok (.leftParen :: (after ++ [.rightParen])) :=
    scan_group_text rightRead ofRun_nil
  exact scan_group_text leftRead (scan_spelling spelled nofun second)

end Token

/-! ### Steps -/

private theorem Arithmetic.completeMinus_append_rightParen (opening : Bool)
    (tokens rest : List Token) :
    completeMinus opening (tokens ++ .rightParen :: rest) =
      completeMinus opening tokens ++ .rightParen :: completeMinus false rest := by
  induction tokens generalizing opening with
  | nil =>
      rw [List.nil_append, completeMinus_cons]
      cases opening <;> rfl
  | cons token tokens ih =>
      rw [List.cons_append, completeMinus_cons, completeMinus_cons, ih, List.append_assoc]

namespace Program

/-- In a group tokens are ordered as they are alone. -/
theorem order_append_rightParen {waiting : List Operator} {inner : List (List Operator)}
    {tokens : List Token} {program : Program} (ordered : order waiting inner tokens = .ok program)
    (enclosing : List Operator) (outer : List (List Operator)) (rest : List Token) :
    order waiting (inner ++ enclosing :: outer) (tokens ++ .rightParen :: rest) =
      (program ++ ·) <$> order enclosing outer rest := by
  fun_induction order waiting inner tokens generalizing program with
  | case1 waiting =>
      cases ordered
      rw [List.nil_append, List.nil_append, order]
      cases order enclosing outer rest <;> rfl
  | case2 => cases ordered
  | case3 waiting inner value tokens ih =>
      obtain ⟨following, orderedRest, same⟩ := exists_of_bind_eq_ok ordered
      cases same
      rw [List.cons_append, order_number, ih orderedRest]
      cases order enclosing outer rest <;> rfl
  | case4 waiting inner tokens ih =>
      rw [List.cons_append, order_leftParen]
      exact ih ordered
  | case5 => cases ordered
  | case6 waiting nearest inner tokens ih =>
      obtain ⟨following, orderedRest, same⟩ := exists_of_bind_eq_ok ordered
      cases same
      rw [List.cons_append, List.cons_append, order, ih orderedRest]
      cases order enclosing outer rest with
      | error fault => rfl
      | ok program => exact congrArg Except.ok (List.append_assoc _ _ _).symm
  | case7 =>
      rename_i ih
      obtain ⟨following, orderedRest, same⟩ := exists_of_bind_eq_ok ordered
      cases same
      rw [List.cons_append, order, ih orderedRest]
      cases order enclosing outer rest with
      | error fault => rfl
      | ok program => exact congrArg Except.ok (List.append_assoc _ _ _).symm

private theorem order_group {tokens : List Token} {program : Program}
    (ordered : ofTokens tokens = .ok program)
    (waiting : List Operator) (outer : List (List Operator)) (rest : List Token) :
    order waiting outer (.leftParen :: (tokens ++ .rightParen :: rest)) = (program ++ ·) <$>
      order waiting outer rest := by
  rw [order_leftParen]
  exact order_append_rightParen ordered waiting outer rest

private theorem ofTokens_combined (operator : Operator) {before after : List Token}
    {left right : Program}
    (leftOrdered : ofTokens (Arithmetic.completeMinus true before) = .ok left)
    (rightOrdered : ofTokens (Arithmetic.completeMinus true after) = .ok right) :
    ofTokens (Arithmetic.completeMinus true
        (.leftParen :: (before ++ .rightParen :: .operator operator ::
          .leftParen :: (after ++ [.rightParen])))) =
      .ok (left ++ (right ++ [.apply operator])) := by
  have completed : Arithmetic.completeMinus true
        (.leftParen :: (before ++ .rightParen :: .operator operator ::
          .leftParen :: (after ++ [.rightParen]))) =
      .leftParen :: (Arithmetic.completeMinus true before ++ .rightParen :: .operator operator ::
        .leftParen :: (Arithmetic.completeMinus true after ++ [.rightParen])) := by
    rw [Arithmetic.completeMinus, Arithmetic.completeMinus_append_rightParen,
      Arithmetic.completeMinus_cons, Arithmetic.completeMinus_cons,
      Arithmetic.completeMinus_append_rightParen]
    rfl
  rw [completed, ofTokens, order_group leftOrdered, order]
  change (left ++ ·) <$>
    ((order [operator] [] _ : Except Fault Program) >>= fun rest => pure ([] ++ rest)) = _
  rw [order_group rightOrdered]
  rfl

/-! ### Stack -/

/-- A step takes nothing from below the stack that it succeeds on. -/
theorem step_append {stack next : List Float} {instruction : Instruction}
    (stepped : step stack instruction = .ok next)
    (below : List Float) : step (stack ++ below) instruction = .ok (next ++ below) := by
  cases instruction with
  | push value =>
      cases stepped
      rfl
  | apply operator =>
      match stack with
      | [] | [_] => cases stepped
      | right :: left :: stack =>
          obtain ⟨value, applied, same⟩ := exists_of_bind_eq_ok stepped
          cases same
          rw [List.cons_append, List.cons_append, step, applied]
          rfl

private theorem run_append_below {stack final : List Float} {program : Program}
    (ran : run stack program = .ok final)
    (below : List Float) : run (stack ++ below) program = .ok (final ++ below) := by
  induction program generalizing stack with
  | nil =>
      cases ran
      rfl
  | cons instruction program ih =>
      obtain ⟨next, stepped, ran⟩ := exists_of_bind_eq_ok ran
      change (step (stack ++ below) instruction >>= fun after => run after program) = _
      rw [step_append stepped]
      exact ih ran

/-- On any stack a program puts its value on top. -/
theorem run_of_execute {program : Program} {value : Float} (executed : program.execute = .ok value)
    (stack : List Float) (rest : Program) :
    run stack (program ++ rest) = (.ok value : Except Fault Float) >>= fun value =>
      run (value :: stack) rest := by
  obtain ⟨final, ran, single⟩ := exists_of_bind_eq_ok executed
  have alone : final = [value] := by
    match final with
    | [_] =>
        cases single
        rfl
    | [] | _ :: _ :: _ => cases single
  have framed := run_append_below ran stack
  rw [alone, List.nil_append] at framed
  rw [run_append, framed]
  rfl

end Program

/-! ### Value -/

theorem Arithmetic.evaluate_signBetween {left sign right : Text} {operator : Operator}
    (spelled : operator.IsSpelled sign) {x y : Float} (leftValued : evaluate left = .ok x)
    (rightValued : evaluate right = .ok y) :
    evaluate (combined left sign right) = operator.apply x y >>= requireFinite := by
  obtain ⟨before, leftProgram, leftRead, leftOrdered, leftExecuted⟩ :=
    exists_of_evaluate_eq_ok leftValued
  obtain ⟨after, rightProgram, rightRead, rightOrdered, rightExecuted⟩ :=
    exists_of_evaluate_eq_ok rightValued
  have tokens := Token.ofText_combined spelled leftRead rightRead
  have program := Program.ofTokens_combined operator leftOrdered rightOrdered
  have ran := Program.run_operands (Program.run_of_execute leftExecuted)
    (Program.run_of_execute rightExecuted) operator
    [] []
  rw [List.append_nil] at ran
  have executed : Program.execute (leftProgram ++ (rightProgram ++ [.apply operator])) =
      operator.apply x y := by
    rw [Program.execute, ran]
    change (operator.apply x y >>= fun value => Program.run [value] []) >>= Program.result = _
    cases operator.apply x y <;> rfl
  rw [evaluate, tokens]
  change (Program.ofTokens (completeMinus true _) >>=
    fun program => program.execute >>= requireFinite) = _
  rw [program]
  change
    (Program.execute (leftProgram ++ (rightProgram ++ [.apply operator])) >>= requireFinite) = _
  rw [executed]

end QuantityFormula
