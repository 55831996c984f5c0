import QuantityFormula.Proofs.ErrorBarrier
import QuantityFormula.Proofs.QuotedTexts

/-!
Which texts steer an evaluation. A guard over a name with a text has the value of its
fallback in one pass if the text is inert, and only then. So the inert texts are those that
no formula tells from one another.
-/

set_option autoImplicit false

namespace QuantityFormula

open Text

/-! ### Pieces between commas -/

private theorem Text.splitCommasFrom_append_comma {text : Text} {depth : Nat}
    (balanced : isBalancedFrom depth text = true) (rest : Text) :
    splitCommasFrom depth (text ++ ',' :: rest) =
      splitCommasFrom depth text ++ splitCommas rest := by
  induction text generalizing depth with
  | nil =>
      have outermost : depth = 0 := by simpa [isBalancedFrom] using balanced
      subst outermost
      exact if_pos ⟨rfl, rfl⟩
  | cons c text ih =>
      by_cases unopened : depth = 0 ∧ c = ')'
      · obtain ⟨rfl, rfl⟩ := unopened
        cases balanced
      rw [isBalancedFrom_cons _ _ _ unopened] at balanced
      rw [List.cons_append, splitCommasFrom, splitCommasFrom]
      by_cases outer : c = ',' ∧ (depth : Int) = 0
      · obtain ⟨rfl, outermost⟩ := outer
        rw [if_pos ⟨rfl, outermost⟩, if_pos ⟨rfl, outermost⟩]
        exact congrArg _ (ih balanced)
      · rw [if_neg outer, if_neg outer, add_parenWeight unopened, ih balanced]
        obtain ⟨first, others, split⟩ := List.exists_cons_of_ne_nil (splitCommasFrom_ne_nil
          ((if c = '(' then depth + 1 else if c = ')' then depth - 1 else depth : Nat) : Int) text)
        rw [split]
        rfl

private theorem Text.trim_quoted (content : Text) : trim (quoted content) = quoted content := by
  simp [trim, quoted, show isBlankChar '"' = false from rfl]

private theorem Text.isItem_of_quoted {content : Text}
    (item : IsItem (quoted content)) : IsItem content := by
  have quote : IsItem ['"'] := .char (by decide) .nil
  have opened : IsItem ([] ++ (content ++ ['"'])) :=
    @IsItem.replace [] ['"'] (content ++ ['"']) item quote [] .nil
  have alone := @IsItem.replace content ['"'] [] opened quote [] .nil
  rwa [List.append_nil, List.append_nil] at alone

/-! ### A guard over a text in quotes -/

private theorem Text.eq_nil_of_quoted {content arguments after : Text}
    (shape : quoted content ++ [',', ' ', '5', ')'] = arguments ++ ')' :: after)
    (unquoted : '"' ∉ after) :
    after = [] := by
  have whole : quoted content ++ [',', ' ', '5', ')'] = (arguments ++ [')']) ++ after := by
    rw [shape, List.append_assoc]
    rfl
  have last : (quoted content).getLast? = some '"' := List.getLast?_concat (l := '"' :: content)
  rcases List.append_eq_append_iff.mp whole with
      ⟨between, closed, behind⟩ | ⟨between, opened, behind⟩
  · cases between using List.reverseRecOn with
    | nil =>
        rw [List.append_nil] at closed
        rw [← closed, List.getLast?_concat] at last
        cases last
    | append_singleton between c =>
        -- The parenthesis stands behind the quotes, and only the last character there is one.
        rw [← List.append_assoc] at closed
        obtain ⟨_, closing⟩ := List.append_inj' closed rfl
        cases closing
        rcases between with _ | ⟨_, _ | ⟨_, _ | ⟨_, _ | ⟨_, between⟩⟩⟩⟩ <;> simp at behind
        exact behind.2.2.2
  · cases between using List.reverseRecOn with
    | nil =>
        rw [List.append_nil] at opened
        rw [opened, List.getLast?_concat] at last
        cases last
    | append_singleton between c =>
        rw [← List.append_assoc] at opened
        rw [opened, List.getLast?_concat] at last
        cases last
        rw [behind] at unquoted
        simp at unquoted

/-- The guard has two arguments only if the text in quotes is an item, and then
that is the first of them. -/
theorem Call.splitArguments_quoted {content : Text}
    (balanced : isBalanced (quoted content ++ [',', ' ', '5']) = true)
    {value fallback : Text}
    (split : splitArguments (quoted content ++ [',', ' ', '5']) = .ok [value, fallback]) :
    IsItem content ∧ value = quoted content := by
  have flat : IsNeutral [',', ' ', '5'] := isNeutral_of_forall (by simp)
  have alone : isBalancedFrom 0 (quoted content) = true := by
    have dropped := isBalancedFrom_append_congr (fun depth => flat depth []) (quoted content) 0
    rw [List.append_nil, List.append_nil] at dropped
    rw [← dropped]
    exact balanced
  have pieces : splitCommas (quoted content ++ [',', ' ', '5']) =
      splitCommas (quoted content) ++ [[' ', '5']] :=
    splitCommasFrom_append_comma alone [' ', '5']
  have joined : [','].intercalate (splitCommas (quoted content)) = quoted content :=
    intercalate_splitCommasFrom 0 _
  have items := isItem_of_mem_splitCommas alone
  unfold splitArguments at split
  split at split
  · cases split
  · dsimp only at split
    split at split
    · cases split
    · rw [pieces] at split
      match parts : splitCommas (quoted content) with
      | [] => exact absurd parts (splitCommasFrom_ne_nil 0 _)
      | first :: second :: others =>
          rw [parts] at split
          simp at split
      | [only] =>
          rw [parts] at split joined items
          have same : only = quoted content := by simpa [List.intercalate] using joined
          subst same
          refine ⟨isItem_of_quoted (items _ List.mem_cons_self), ?_⟩
          rw [← trim_quoted]
          exact (List.cons.inj (Except.ok.inj split)).1.symm

namespace Resolver

private theorem run_evaluateWithin_exhausted {text : Text} {call : Call}
    (next : Call.next? text = .ok (some call))
    {resolver : Resolver} (exhausted : resolver.maxPasses ≤ resolver.passes) (fuel : Nat) :
    (evaluateWithin fuel text).run resolver = (.error (.tooComplex resolver.maxPasses),
      resolver.counted) := by
  have refused : (resolveWithin fuel text).run resolver = (.error (.tooComplex resolver.maxPasses),
      resolver.counted) := by
    cases fuel <;>
      exact (run_pass_some next _ resolver).trans
        (Resolution.run_bind_error (run_countPass_beyond exhausted) _)
  exact Resolution.run_bind_error refused _

private theorem isInert_of_run_callValue {content : Text} {call : Call} {value : Float}
    {resolver final : Resolver}
    (exhausted : resolver.maxPasses ≤ resolver.passes) (shallow : resolver.depth < maxDepth)
    (named : call.name = Builtin.ifError.name.toList)
    (arguments : call.arguments = quoted content ++ [',', ' ', '5'])
    (balanced : isBalanced call.arguments = true)
    (ran : (callValue (evaluateWithin 0) call).run resolver = (.ok value, final)) :
    IsItem content ∧ Head.all false content = [] := by
  unfold callValue at ran
  rw [named, Builtin.ofName?_name, arguments] at ran
  rw [arguments] at balanced
  obtain ⟨items, _, split, ran⟩ := Resolution.exists_of_run_bind_ok ran
  rw [Resolution.run_ofExcept, Prod.mk.injEq] at split
  obtain ⟨split, rfl⟩ := split
  obtain ⟨x, _, applied, _⟩ := Resolution.exists_of_run_bind_ok ran
  change (guarded (ifError (evaluateWithin 0) items)).run resolver = _ at applied
  rw [run_guarded_within shallow] at applied
  have guarded : ((ifError (evaluateWithin 0) items).run resolver.opened).1 = .ok x :=
    (Prod.ext_iff.mp applied).1
  -- Any number of arguments but two is refused.
  match items with
  | [] | [_] | _ :: _ :: _ :: _ => cases guarded
  | [first, fallback] =>
      obtain ⟨item, rfl⟩ := Call.splitArguments_quoted balanced split
      refine ⟨item, ?_⟩
      rcases Call.next?_of_balanced (isNeutral_iff.mp item.quoted.isNeutral) with
          ⟨nothing, _⟩ | ⟨inner, next⟩
      · have places := Head.all_quoted false content []
        rw [List.append_nil, nothing, eq_comm, List.append_eq_nil_iff,
          List.map_eq_nil_iff] at places
        exact places.1
      · have refused := @run_evaluateWithin_exhausted _ _ next resolver.opened exhausted 0
        change
          ((tryCatch (evaluateWithin 0 (quoted content)) _).run resolver.opened).1 = _ at guarded
        rw [Resolution.run_tryCatch, refused] at guarded
        cases guarded

/-- In one pass the guard has a value only over an inert text. -/
theorem isInert_of_runFresh {content : Text} {value : Float}
    (valued : runFresh 1 (evaluate (Builtin.ifError.callText [quoted content, ['5']])) =
      .ok value) :
    IsItem content ∧ Head.all false content = [] := by
  have ran : (evaluate (Builtin.ifError.callText [quoted content, ['5']])).run (fresh 1) =
      (.ok value, _) :=
    Prod.ext valued rfl
  obtain ⟨result, _, resolved, evaluated⟩ := Resolution.exists_of_run_bind_ok ran
  rw [Resolution.run_ofExcept] at evaluated
  have unquoted : '"' ∉ result := Arithmetic.quote_not_mem_of_evaluate (Prod.ext_iff.mp evaluated).1
  change (resolveWithin 1 _).run (fresh 1) = _ at resolved
  rcases cases_of_run_pass_ok resolved with rfl | ⟨call, next, replaced⟩
  · exact absurd (by simp [Builtin.callText, quoted, List.intercalate]) unquoted
  obtain ⟨x, _, called, rest⟩ := Resolution.exists_of_run_bind_ok replaced
  rw [next?_callText_ifError] at next
  obtain ⟨_, located, same⟩ := exists_of_map_eq_ok next
  cases same
  obtain ⟨_, named, shape, balanced⟩ := Call.ofHead_eq_ok located
  -- The text behind the call is in the result, so no quote is left over for it.
  have behind : call.after = [] := by
    rcases cases_of_run_pass_ok rest with rfl | ⟨_, _, refused⟩
    · refine @eq_nil_of_quoted content call.arguments _ ?_ ?_
      · rw [← shape]
        simp [List.intercalate]
      · exact fun member => unquoted (List.mem_append_right _ member)
    · rw [run_refuse] at refused
      cases refused
  rw [behind] at shape
  have arguments : call.arguments = quoted content ++ [',', ' ', '5'] := by
    have whole : (quoted content ++ [',', ' ', '5']) ++ [')'] = call.arguments ++ [')'] := by
      rw [← shape]
      simp [List.intercalate]
    exact (List.append_cancel_right whole).symm
  exact isInert_of_run_callValue (Nat.le_refl 1) (by decide) named arguments balanced called

end Resolver

namespace Engine

def guardOverName : Text :=
  "IFERROR({n}, 5)".toList

private theorem evaluate_guardOverName (engine : Engine) (content : Text) :
    engine.evaluate guardOverName (Bindings.empty.bind ['n'] (.text content)) =
      Resolver.runFresh engine.maxPasses
        (Resolver.evaluate (Builtin.ifError.callText
          [quoted (substituteConstants content), ['5']])) := by
  have places : textPlaces guardOverName .empty ['n'] =
      .ok ⟨[("IFERROR(".toList, ())], ", 5)".toList⟩ := by
    decide +kernel
  have solid : isBlank guardOverName = false := by decide +kernel
  have front : substituteConstants "IFERROR(".toList = "IFERROR(".toList := by decide +kernel
  have back : substituteConstants ", 5)".toList = ", 5)".toList := by decide +kernel
  have apart : isWordChar '"' = false := rfl
  have constants (content : Text) :
      substituteConstants ("IFERROR(".toList ++ (quoted content ++ ", 5)".toList)) =
      Builtin.ifError.callText [quoted (substituteConstants content), ['5']] := by
    have shape : "IFERROR(".toList ++ (quoted content ++ ", 5)".toList) =
        "IFERROR(".toList ++ '"' :: (content ++ '"' :: ", 5)".toList) := by
      simp [quoted]
    rw [shape, substituteConstants_append_cons apart, substituteConstants_append_cons apart,
          front, back]
    simp [Builtin.callText, quoted, List.intercalate, Builtin.name]
  unfold evaluate
  rw [solid, substituteVariables_bind_text, places, if_neg Bool.false_ne_true, ← constants]
  change Resolver.runFresh _ (Resolver.evaluate (substituteConstants (Cuts.fill _ _))) = _
  rw [Cuts.fill_cons]
  rfl

/-- A text is inert exactly if no formula tells it from an inert one, and exactly if a guard over it
has the value of its fallback in one pass. -/
theorem isInert_tfae (content : Text) :
    [content.IsInert,
      ∀ other : Text, other.IsInert →
        ∀ (engine : Engine) (formula : Text) (bindings : Bindings) (name : Text),
          (engine.evaluate formula (bindings.bind name (.text content))).toOption =
            (engine.evaluate formula (bindings.bind name (.text other))).toOption,
      ∀ engine : Engine, 1 ≤ engine.maxPasses →
        engine.evaluate guardOverName (Bindings.empty.bind ['n'] (.text content)) =
          .ok 5].TFAE := by
  tfae_have 1 → 2 := fun inert other inert' => evaluate_bind_text inert inert'
  tfae_have 2 → 3 := by
    intro alike engine enough
    have inert : IsInert [] := ⟨.nil, rfl⟩
    have words : nameWords.count
        (Builtin.ifError.callText [quoted (substituteConstants []), ['5']]) = 1 := by
      decide +kernel
    have five : engine.evaluate guardOverName (Bindings.empty.bind ['n'] (.text [])) = .ok 5 := by
      rw [evaluate_guardOverName, Resolver.runFresh_evaluate (by rw [words]; exact enough)]
      decide +kernel
    refine eq_ok_of_toOption_eq_some ?_
    rw [alike [] inert, five]
    rfl
  tfae_have 3 → 1 := by
    intro fallback
    have once := fallback ⟨1⟩ (Nat.le_refl 1)
    rw [evaluate_guardOverName] at once
    exact Resolver.isInert_of_runFresh once
  tfae_finish

def labelText : Text :=
  "(a, b) \"red\"".toList

theorem isInert_tfae_label :
    labelText.IsInert ∧
      standard.evaluate guardOverName (Bindings.empty.bind ['n'] (.text labelText)) =
        .ok 5 := by
  have inert : labelText.IsInert := by
    unfold Text.IsInert
    decide +kernel
  have guarded : labelText.IsInert ↔ ∀ engine : Engine, 1 ≤ engine.maxPasses →
      engine.evaluate guardOverName (Bindings.empty.bind ['n'] (.text labelText)) = .ok 5 :=
    (isInert_tfae labelText).out 0 2
  exact ⟨inert, guarded.mp inert standard (by decide)⟩

/-- A text that closes the guard it stands in and opens another one. -/
def steeringText : Text :=
  "a,5)+IFERROR(1".toList

theorem not_forall_evaluate_bind_text :
    ¬∀ (engine : Engine) (formula : Text) (bindings : Bindings) (name content other : Text),
      (engine.evaluate formula (bindings.bind name (.text content))).toOption =
        (engine.evaluate formula (bindings.bind name (.text other))).toOption := by
  intro alike
  have steered : standard.evaluate guardOverName (Bindings.empty.bind ['n'] (.text steeringText)) =
      .ok 10 := by
    decide +kernel
  have plain : standard.evaluate guardOverName (Bindings.empty.bind ['n'] (.text ['a'])) =
      .ok 5 := by
    decide +kernel
  have same := alike standard guardOverName .empty ['n'] steeringText ['a']
  rw [steered, plain] at same
  revert same
  decide +kernel

end Engine

end QuantityFormula
