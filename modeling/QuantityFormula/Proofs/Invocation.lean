import QuantityFormula.Proofs.ArithmeticValue
import QuantityFormula.Proofs.Items
import QuantityFormula.Proofs.Meaning

/-!
Calls of functions on argument texts. The texts are the arguments of the call, up to the blanks
around them, and blanks make no difference to a value. A call that is next is replaced by the value
of its function, and the number that is put in for it is read back.
-/

set_option autoImplicit false

namespace QuantityFormula

open Text

/-! ### The text of a call -/

def Builtin.callText (builtin : Builtin) (arguments : List Text) : Text :=
  builtin.name.toList ++ '(' :: ([',', ' '].intercalate arguments ++ [')'])

theorem Builtin.ofName?_name (builtin : Builtin) : ofName? builtin.name.toList = some builtin := by
  cases builtin with
  | ifError => decide +kernel
  | calculation c => cases c <;> decide +kernel

theorem Call.isGuardedName_name (builtin : Builtin) :
    isGuardedName builtin.name.toList = builtin.isGuarded := by
  rw [isGuardedName, Builtin.ofName?_name]
  rfl

theorem Builtin.exists_functionName (builtin : Builtin) :
    ∃ name : FunctionName, name.text = builtin.name.toList := by
  apply FunctionName.exists_text
  cases builtin with
  | ifError => decide +kernel
  | calculation c => cases c <;> decide +kernel

private theorem trim_cons_blank {c : Char} (blank : isBlankChar c = true) (text : Text) :
    trim (c :: text) = trim text := by
  rw [trim, List.dropWhile_cons, if_pos blank, trim]

/-- The blank behind a comma belongs to the item behind it. -/
def spaced : List Text → List Text
  | [] => []
  | first :: others => first :: others.map (' ' :: ·)

theorem intercalate_spaced (items : List Text) :
    [',', ' '].intercalate items = [','].intercalate (spaced items) := by
  cases items with
  | nil => rfl
  | cons first others =>
      rw [spaced]
      induction others generalizing first with
      | nil => rfl
      | cons second others ih =>
          rw [List.intercalate_cons_cons, List.map_cons, List.intercalate_cons_cons, ih]
          cases others <;> simp [List.intercalate]

theorem forall_mem_spaced {property : Text → Prop} {items : List Text}
    (each : ∀ item ∈ items, property item)
    (preceded : ∀ item, property item → property (' ' :: item)) :
    ∀ item ∈ spaced items, property item := by
  cases items with
  | nil => exact nofun
  | cons first others =>
      intro item member
      rcases List.mem_cons.mp member with rfl | later
      · exact each item List.mem_cons_self
      · obtain ⟨plain, plainMember, rfl⟩ := List.mem_map.mp later
        exact preceded plain (each plain (List.mem_cons_of_mem _ plainMember))

theorem map_spaced {α : Type} {read : Text → α} {items : List Text}
    (same : ∀ item ∈ items, read (' ' :: item) = read item) :
    (spaced items).map read = items.map read := by
  cases items with
  | nil => rfl
  | cons first others =>
      rw [spaced, List.map_cons, List.map_cons, List.map_map]
      exact congrArg _ (List.map_congr_left fun item member =>
        same item (List.mem_cons_of_mem _ member))

theorem isArgument_cons_blank (item : Text) (isArgument : IsItem item ∧ isBlank item = false) :
    IsItem (' ' :: item) ∧ isBlank (' ' :: item) = false := by
  refine ⟨.char (by decide) isArgument.1, ?_⟩
  rw [isBlank, List.all_cons]
  exact isArgument.2

/-- The items of a list with a blank behind each comma are its arguments. -/
theorem Call.splitArguments_spaced {items : List Text} (nonempty : items ≠ [])
    (each : ∀ item ∈ items, IsItem item ∧ isBlank item = false) :
    splitArguments ([',', ' '].intercalate items) = .ok (items.map trim) := by
  have someSpaced : spaced items ≠ [] := by
    obtain ⟨first, others, rfl⟩ := List.exists_cons_of_ne_nil nonempty
    exact List.cons_ne_nil _ _
  rw [intercalate_spaced,
    splitArguments_intercalate someSpaced (forall_mem_spaced each isArgument_cons_blank),
    map_spaced fun item _ => trim_cons_blank rfl item]

theorem isNeutral_spaced {items : List Text} (each : ∀ item ∈ items, IsItem item) :
    IsNeutral ([',', ' '].intercalate items) := by
  induction items with
  | nil => exact isNeutral_nil
  | cons first items ih =>
      have firstNeutral := (each first List.mem_cons_self).isNeutral
      have others := ih fun item member => each item (List.mem_cons_of_mem _ member)
      cases items with
      | nil => simpa [List.intercalate] using firstNeutral
      | cons second items =>
          rw [List.intercalate_cons_cons, List.append_assoc]
          have separator : IsNeutral [',', ' '] := isNeutral_of_forall (by simp)
          exact firstNeutral.append (separator.append others)

def Builtin.call (builtin : Builtin) (arguments : List Text) : Call :=
  ⟨[], builtin.name.toList, [',', ' '].intercalate arguments, []⟩

theorem Builtin.ofHead_callText (builtin : Builtin) {arguments : List Text}
    (each : ∀ argument ∈ arguments, IsItem argument) :
    Call.ofHead ⟨[], builtin.name.toList, [',', ' '].intercalate arguments ++ [')']⟩ =
      .ok (builtin.call arguments) := by
  have closed : splitClosing? 0 ([',', ' '].intercalate arguments ++ [')']) =
      some ([',', ' '].intercalate arguments, []) :=
    splitClosing?_eq_some_iff.mpr ⟨rfl, isNeutral_iff.mp (isNeutral_spaced each)⟩
  rw [Call.ofHead, closed]
  rfl

theorem Builtin.all_callText (builtin : Builtin) (arguments : List Text) :
    Head.all false (builtin.callText arguments) =
      ⟨[], builtin.name.toList, [',', ' '].intercalate arguments ++ [')']⟩ ::
        (Head.all true ('(' :: ([',', ' '].intercalate arguments ++ [')']))).map
          (Head.keepAll builtin.name.toList) := by
  obtain ⟨name, named⟩ := builtin.exists_functionName
  rw [callText, ← named]
  exact Head.all_name name isBlank_nil _

/-! ### Outcomes -/

theorem isFinite_unsignedZero {x : Float} (finite : x.isFinite = true) :
    (unsignedZero x).isFinite = true := by
  unfold unsignedZero
  split
  · decide +kernel
  · exact finite

/-- Arithmetic reads a number back from its text. Only the sign of a zero is lost. -/
theorem Arithmetic.evaluate_inlineNumber {x : Float} (finite : x.isFinite = true) :
    evaluate (inlineNumber x) = .ok (unsignedZero x) := by
  have callFree : Phrase.callCount (.term (.factor (.base (literal x)))) = 0 := by
    simp only [Phrase.callCount]
    exact callCount_literal x
  have written : Formula.IsWritten (.term (.factor (.base (literal x)))) (inlineNumber x) := by
    unfold Formula.IsWritten
    simp only [Phrase.lexemes]
    exact written_literal finite
  rw [evaluate_written callFree written, Phrase.result]
  simp only [Phrase.value]
  rw [value_literal finite]
  exact if_pos (isFinite_unsignedZero finite)

namespace Resolver

theorem isFinite_of_outcome {depth : Nat} {text : Text} {x : Float}
    (valued : outcome depth text = .ok x) :
    x.isFinite = true := by
  obtain ⟨rest, _, valued⟩ := exists_of_bind_eq_ok valued
  obtain ⟨_, _, valued⟩ := exists_of_bind_eq_ok valued
  obtain ⟨_, _, valued⟩ := exists_of_bind_eq_ok valued
  obtain ⟨value, _, valued⟩ := exists_of_bind_eq_ok valued
  obtain ⟨rfl, finite⟩ := Arithmetic.eq_of_requireFinite valued
  exact finite

theorem outcome_inlineNumber {x : Float} (finite : x.isFinite = true) (depth : Nat) :
    outcome depth (inlineNumber x) = .ok (unsignedZero x) := by
  have notStart : ∀ c ∈ inlineNumber x, Head.isNameStart c = false := by
    intro c member
    rcases forall_mem_inlineNumber finite c member with digit | sign
    · exact Head.isNameStart_of_isNumberChar digit
    · exact forall_eq_false_of_any rfl c sign
  have blocked : Call.next? (inlineNumber x) = .ok none := by
    have nothing := Head.all_append_of_notStart notStart false []
    rw [List.append_nil] at nothing
    exact Call.next?_eq_none_iff.mpr nothing
  rw [outcome_of_none blocked, Arithmetic.evaluate_inlineNumber finite]

/-- Blanks around a text that balances make no difference to its outcome. -/
theorem outcome_blanks {before after : Text} (beforeBlank : isBlank before = true)
    (afterBlank : isBlank after = true)
    {text : Text} (balanced : isBalanced text = true) (depth : Nat) :
    outcome depth (before ++ (text ++ after)) = outcome depth text := by
  induction text using Text.callInduction with
  | blocked text blocked =>
      have blockedWhole : Call.next? (before ++ (text ++ after)) = .ok none := by
        rw [Call.next?_eq_none_iff, Head.all_blanks beforeBlank afterBlank,
          Call.next?_eq_none_iff.mp blocked]
        rfl
      rw [outcome_of_none blocked, outcome_of_none blockedWhole,
        Arithmetic.evaluate_blanks beforeBlank afterBlank]
  | failed text fault failed =>
      rcases Call.next?_of_balanced balanced with ⟨_, blocked⟩ | ⟨call, next⟩
      · rw [blocked] at failed
        cases failed
      · rw [next] at failed
        cases failed
  | next text call next each behind =>
      have whole := Call.next?_surround next (Call.pick_all_blanks beforeBlank afterBlank text)
      have same : replacement depth (call.surround before after) = replacement depth call := rfl
      rw [outcome_of_next next, outcome_of_next whole, same]
      cases valued : replacement depth call with
      | error fault => rfl
      | ok x =>
          have rest : isBalanced (call.replaceBy (inlineNumber x)) = true := by
            rwa [← (Call.sameBalance_replaceBy next (isNeutral_inlineNumber x)).isBalanced_eq]
          change outcome depth ((call.surround before after).replaceBy (inlineNumber x)) = _
          rw [Call.replaceBy_surround]
          exact behind x (isFinite_of_replacement valued) rest

theorem outcome_trim {item : Text} (isItem : IsItem item) (depth : Nat) :
    outcome depth (trim item) = outcome depth item := by
  obtain ⟨before, after, beforeBlank, afterBlank, whole⟩ := exists_trim item
  conv_rhs => rw [whole,
    outcome_blanks beforeBlank afterBlank (isNeutral_iff.mp isItem.trim.isNeutral)]

theorem outcome_of_whole {builtin : Builtin} {text arguments : Text} {items : List Text}
    (next : Call.next? text = .ok (some ⟨[], builtin.name.toList, arguments, []⟩))
    (split : Call.splitArguments arguments = .ok items) (depth : Nat) :
    outcome depth text = (applied depth items builtin >>=
      fun x => unsignedZero <$> Arithmetic.requireFinite x) := by
  have replaced : replacement depth ⟨[], builtin.name.toList, arguments, []⟩ =
      (applied depth items builtin >>= Arithmetic.requireFinite) := by
    rw [replacement]
    dsimp only
    rw [Builtin.ofName?_name, split]
    rfl
  rw [outcome_of_next next, replaced]
  cases applied depth items builtin with
  | error fault => rfl
  | ok x =>
      change (Arithmetic.requireFinite x >>= fun x => outcome depth ([] ++ inlineNumber x ++ [])) =
        unsignedZero <$> Arithmetic.requireFinite x
      unfold Arithmetic.requireFinite
      split
      · rename_i finite
        change outcome depth ([] ++ inlineNumber x ++ []) = .ok (unsignedZero x)
        rw [List.nil_append, List.append_nil, outcome_inlineNumber finite]
      · rfl

end Resolver

end QuantityFormula
