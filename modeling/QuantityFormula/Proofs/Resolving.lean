import QuantityFormula.Proofs.ArithmeticValue
import QuantityFormula.Proofs.CallValue
import QuantityFormula.Proofs.Heads
import QuantityFormula.Proofs.Literal

/-!
Resolution against the value of the tree. Every pass turns a text of a formula into a text of the
formula with the value of a call in its place, which is a smaller formula of the same value. The
last text is one without calls, and the arithmetic on it gives the value.
-/

set_option autoImplicit false

namespace QuantityFormula

abbrev Resolves (step : Resolution Text) (formula : Formula) (fuel : Nat) : Prop :=
  Computes step formula.callCount formula.guardDepth (formula.callCount ≤ fuel)
    (fun resolved => ∃ rest : Formula, rest.callCount = 0 ∧ rest.IsWritten resolved ∧
      rest.value = formula.value)
    (∃ fault, formula.value = .error fault)

private theorem Phrase.result_ne_tooComplex {formula : Formula}
    (callFree : formula.callCount = 0) (limit : Nat) :
    formula.result ≠ .error (.tooComplex limit) := by
  rw [result]
  rcases formula.value_of_callFree callFree with ⟨_, failed⟩ | ⟨_, x, valued⟩
  · rw [failed]
    intro same
    cases same
  · rw [valued]
    exact (Arithmetic.failsLocally_requireFinite x).ne_error rfl

theorem Resolves.evaluates {step : Resolution Text} {formula : Formula} {fuel : Nat}
    (resolves : Resolves step formula fuel) :
    Evaluates (step >>= fun resolved => MonadExcept.ofExcept (Arithmetic.evaluate resolved))
      formula fuel formula.guardDepth := by
  refine .bind_free (resolves.mono (Nat.le_refl _) (Nat.le_refl _) id (fun _ => id) ?_) ?_
  · rintro ⟨fault, failed⟩
    exact ⟨fault, by rw [Phrase.result, failed]; rfl⟩
  · rintro resolved ⟨rest, callFree, written, same⟩
    have result : rest.result = formula.result := by rw [Phrase.result, Phrase.result, same]
    rw [evaluate_written callFree written, result]
    have unlimited := Phrase.result_ne_tooComplex callFree
    rw [result] at unlimited
    exact (Computes.of_outcome (.self unlimited)).mono (Nat.le_refl _)
      (Nat.zero_le _) (fun _ => trivial)
      (fun _ => id) id

namespace Call.Marks

variable {call : Call} {context : Context Numeral .sum} {name : FunctionName}
  {arguments : List Formula}

theorem replaceBy_written (marks : call.Marks context name arguments) {x : Float}
    (finite : x.isFinite = true) :
    Formula.IsWritten (context.fill (literal x)) (call.replaceBy (inlineNumber x)) := by
  rw [Formula.IsWritten, Context.lexemes_fill, replaceBy, List.append_assoc]
  exact marks.before.append ((written_literal finite).append marks.after)

end Call.Marks

theorem Context.callCount_fill_literal (context : Context Numeral .sum) (name : FunctionName)
    (arguments : List Formula) (x : Float) :
    (context.fill (.call name arguments)).callCount =
      1 + ((arguments.map fun argument => argument.callCount).sum +
        (context.fill (literal x)).callCount) := by
  have replaced := context.callCount_fill (.call name arguments) (literal x)
  have called : (Phrase.call name arguments).callCount =
      1 + (arguments.map fun argument => argument.callCount).sum := by
    rw [Phrase.callCount]
  rw [callCount_literal] at replaced
  omega

theorem Context.guardDepth_fill_literal_le (context : Context Numeral .sum)
    (atom : Phrase Numeral .atom) (x : Float) :
    (context.fill (literal x)).guardDepth ≤ (context.fill atom).guardDepth := by
  apply context.guardDepth_fill_mono
  rw [guardDepth_literal]
  exact Nat.zero_le _

theorem computes_callValue {fuel : Nat}
    (resolves : ∀ {formula : Formula} {text : Text}, formula.IsWritten text →
      Resolves (Resolver.resolveWithin fuel text) formula fuel)
    {call : Call} {context : Context Numeral .sum} {name : FunctionName} {arguments : List Formula}
    (marks : call.Marks context name arguments) :
    Computes (Resolver.callValue (fun argument => do
        MonadExcept.ofExcept (Arithmetic.evaluate (← Resolver.resolveWithin fuel argument))) call)
      (arguments.map fun argument => argument.callCount).sum (Phrase.call name arguments).guardDepth
      ((arguments.map fun argument => argument.callCount).sum ≤ fuel)
      (fun x => x.isFinite = true ∧ (Phrase.call name arguments).value = .ok (unsignedZero x))
      (∃ fault, (Phrase.call name arguments).value = .error fault) := by
  rw [Phrase.guardDepth]
  apply Computes.callValue marks.name marks.arguments
  intro argument member piece written
  have shallower : argument.guardDepth ≤
      (arguments.map fun argument => argument.guardDepth).foldr max 0 :=
    List.le_max_of_le' 0 (List.mem_map_of_mem member) (Nat.le_refl _)
  exact (resolves written).evaluates.mono (Nat.le_refl _) shallower id (fun _ => id) id

/-- Whatever the fuel, a text of a formula is resolved to one of the same value. -/
theorem resolves_resolveWithin (fuel : Nat) {formula : Formula} {text : Text}
    (written : formula.IsWritten text) :
    Resolves (Resolver.resolveWithin fuel text) formula fuel := by
  -- By the fuel, for all formulas at once: the arguments of the next call are resolved with less of
  -- it, and so is the smaller formula with the value in the place of the call.
  induction fuel generalizing formula text with
  | zero =>
      unfold Resolver.resolveWithin
      rcases Call.next?_written written with
          ⟨callFree, blocked⟩ | ⟨context, name, arguments, call, rfl, _, next, _⟩
      · exact .pass_none blocked ⟨formula, callFree, written, rfl⟩
      · have called := context.callCount_fill_literal name arguments 0
        refine (Computes.pass_some next .refuse).mono (by omega) (Nat.zero_le _)
          (fun ample => ?_) (fun _ => id) id
        omega
  | succ fuel ih =>
      unfold Resolver.resolveWithin
      rcases Call.next?_written written with
        ⟨callFree, blocked⟩ | ⟨context, name, arguments, call, rfl, unguarded, next, marks⟩
      · exact .pass_none blocked ⟨formula, callFree, written, rfl⟩
      · unfold Resolves
        rw [context.callCount_fill_literal name arguments 0]
        refine .pass_some next (.bind ((computes_callValue ih marks).mono (Nat.le_refl _)
          (context.guardDepth_le_fill _) (fun ample => by omega) (fun _ => id)
          (context.exists_error_fill unguarded)) ?_)
        rintro x ⟨finite, valued⟩
        have same : (context.fill (literal x)).value =
            (context.fill (.call name arguments)).value :=
          context.value_fill_congr ((value_literal finite).trans valued.symm)
        have fewer := context.callCount_fill (literal x) (literal 0)
        rw [callCount_literal, callCount_literal] at fewer
        refine (ih (marks.replaceBy_written finite)).mono (by omega)
          (context.guardDepth_fill_literal_le _ x)
          (fun ample => by omega) ?_ ?_
        · rintro resolved ⟨rest, callFree, restWritten, restSame⟩
          exact ⟨rest, callFree, restWritten, restSame.trans same⟩
        · rw [same]
          exact id

private theorem Answers.agrees {α : Type} {outcome result : Except Fault α} {beyond : Prop}
    (answers : Answers outcome (fun value => result = .ok value) (∃ fault,
      result = .error fault) beyond) :
    outcome.toOption = result.toOption ∨
      beyond ∧ ∃ limit, outcome = .error (.tooComplex limit) := by
  cases outcome with
  | ok value =>
      have due : result = .ok value := answers
      rw [due]
      exact .inl rfl
  | error fault =>
      by_cases limited : ∃ limit, fault = .tooComplex limit
      · obtain ⟨limit, rfl⟩ := limited
        exact .inr ⟨answers, limit, rfl⟩
      · obtain ⟨cause, failed⟩ := answers.fails_of_ne fun limit same => limited ⟨limit, same⟩
        rw [failed]
        exact .inl rfl

namespace Resolver

/-- On any text of a formula the resolver gives the result of the tree, and fails where the tree has
none, unless it passes a limit. It passes none if every call has a pass and no more guarded calls
stand inside of one another than may be open. -/
theorem evaluate_text_written {formula : Formula} {text : Text}
    (written : formula.IsWritten text) (maxPasses : Nat) :
    (formula.callCount ≤ maxPasses → formula.guardDepth ≤ maxDepth →
      (runFresh maxPasses (evaluate text)).toOption = formula.result.toOption) ∧
    ((runFresh maxPasses (evaluate text)).toOption = formula.result.toOption ∨
      ∃ limit, runFresh maxPasses (evaluate text) = .error (.tooComplex limit)) := by
  have evaluates := (resolves_resolveWithin maxPasses written).evaluates
  have agreed := (evaluates.answers (fresh maxPasses)).agrees
  constructor
  · intro enough shallow
    rcases agreed with same | ⟨beyond, _⟩
    · exact same
    · refine absurd ⟨enough, ?_, ?_⟩ beyond
      · change 0 + formula.callCount ≤ maxPasses
        omega
      · change 0 + formula.guardDepth ≤ maxDepth
        omega
  · rcases agreed with same | ⟨_, limited⟩
    · exact .inl same
    · exact .inr limited

end Resolver

def guardedRest : Formula :=
  .add .subtract (.inr rfl) (.term (.factor (.base (.leaf ⟨['9'], by decide⟩))))
    (.factor (.base (.call ⟨'I', ['F', 'E', 'R', 'R', 'O', 'R'], rfl, List.all_eq_true.mp rfl⟩
      [oneByZero, .term (.factor (.base (.leaf ⟨['4'], by decide⟩)))])))

theorem evaluate_text_written_guardedRest :
    guardedRest.IsWritten "9-IFERROR(1/0,4)".toList ∧ guardedRest.callCount ≤ 1 ∧
      guardedRest.guardDepth ≤ Resolver.maxDepth ∧
      Resolver.runFresh 1 (Resolver.evaluate "9-IFERROR(1/0,4)".toList) = .ok 5 := by
  have written : guardedRest.IsWritten "9-IFERROR(1/0,4)".toList := by
    unfold Formula.IsWritten guardedRest
    simp only [Phrase.lexemes, List.map_cons, List.map_nil, List.intercalate_cons_cons,
      List.intercalate_singleton, List.append_assoc]
    have closing : Written Numeral.text [.comma, .leaf ⟨['4'], by decide⟩, .rightParen]
        [',', '4', ')'] :=
      .cons_spelled [','] rfl (.cons_spelled ['4'] rfl (.of_spelled rfl))
    have quotient : Written Numeral.text oneByZero.lexemes ['1', '/', '0'] := by
      unfold oneByZero
      simp only [Phrase.lexemes]
      exact .cons_spelled ['1'] rfl (.cons_spelled ['/'] (.inl rfl) (.of_spelled rfl))
    have called := quotient.append closing
    have text : "9-IFERROR(1/0,4)".toList =
        ['9', '-', 'I', 'F', 'E', 'R', 'R', 'O', 'R', '(', '1', '/', '0', ',', '4', ')'] := by
      decide +kernel
    rw [text]
    exact .cons_spelled ['9'] rfl (.cons_spelled ['-'] (.inl rfl)
      (.cons_spelled ['I', 'F', 'E', 'R', 'R', 'O', 'R'] rfl
        (.cons_spelled ['('] rfl called)))
  have calls : guardedRest.callCount ≤ 1 := by
    simp [guardedRest, oneByZero, Phrase.callCount]
  have guards : guardedRest.guardDepth ≤ Resolver.maxDepth := by
    simp only [guardedRest, oneByZero, Phrase.guardDepth]
    decide +kernel
  refine ⟨written, calls, guards, eq_ok_of_toOption_eq_some ?_⟩
  rw [(Resolver.evaluate_text_written written 1).1 calls guards]
  unfold Phrase.result guardedRest oneByZero
  simp only [Phrase.value, List.map_cons, List.map_nil]
  decide +kernel

end QuantityFormula
