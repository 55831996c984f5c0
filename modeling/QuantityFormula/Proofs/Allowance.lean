import QuantityFormula.Proofs.Limits
import QuantityFormula.Proofs.Reuse

/-!
Passes that always suffice. A resolver that has the passes of a text left has those of everything
that the evaluation of the text needs, so it refuses none. A text takes no more passes than it has
words that could be names, whatever the limit and whatever becomes of it, and a limit is not seen
before the words are more.
-/

set_option autoImplicit false

namespace QuantityFormula

namespace Resolver

variable {resolver : Resolver} {passes more : Nat}

theorem Permits.mono (permits : resolver.Permits more) (fewer : passes ≤ more) :
    resolver.Permits passes := by
  unfold Permits at permits ⊢
  omega

private theorem Permits.of_add (permits : resolver.Permits (passes + more)) :
    resolver.Permits passes :=
  permits.mono (Nat.le_add_right _ _)

/-- What is permitted behind some passes is what is permitted with them. -/
theorem Permits.advance (permits : resolver.Permits (passes + more)) :
    (resolver.advance passes).Permits more :=
  (permits_advance permits.of_add more).mpr permits

private theorem run_of_costs {α : Type} {step : Resolution α}
    {outcome result : Except Fault α} {after : Resolver}
    (permits : resolver.Permits passes) (ran : step.run resolver = (result, after))
    (costs : ∀ fuel, Costs step fuel resolver.depth passes outcome) :
    outcome = result ∧ after = resolver.advance passes := by
  rw [costs _ resolver rfl (Nat.le_refl _), spend_within permits] at ran
  cases ran
  exact ⟨rfl, rfl⟩

/-! ### What an evaluation needs is permitted -/

private theorem spentInTurn_append {depth : Nat} {earlier later : List Text} {values : List Float}
    (valued : earlier.mapM (outcome depth) = .ok values) :
    spentInTurn depth (earlier ++ later) = spentInTurn depth earlier + spentInTurn depth later := by
  induction earlier generalizing values with
  | nil => rw [List.nil_append, spentInTurn, Nat.zero_add]
  | cons item earlier ih =>
      rw [List.mapM_cons] at valued
      obtain ⟨value, first, valued⟩ := exists_of_bind_eq_ok valued
      obtain ⟨others, rest, _⟩ := exists_of_bind_eq_ok valued
      rw [List.cons_append, spentInTurn, spentInTurn, first]
      dsimp only
      rw [ih rest, Nat.add_assoc]

private theorem spent_le_spentInTurn (depth : Nat) (item : Text) (later : List Text) :
    spent depth item ≤ spentInTurn depth (item :: later) := by
  rw [spentInTurn]
  split
  · exact Nat.le_add_right _ _
  · exact Nat.le_refl _

private theorem spentInTurn_le_append (depth : Nat) (earlier later : List Text) :
    spentInTurn depth earlier ≤ spentInTurn depth (earlier ++ later) := by
  induction earlier with
  | nil => exact Nat.zero_le _
  | cons item earlier ih =>
      rw [List.cons_append, spentInTurn, spentInTurn]
      split
      · exact Nat.add_le_add_left ih _
      · exact Nat.le_refl _

private theorem spent_le_spentOnChoice (depth : Nat) (value fallback : Text) :
    spent depth value ≤ spentOnChoice depth [value, fallback] := by
  rw [spentOnChoice]
  split
  · exact Nat.le_refl _
  · exact Nat.le_refl _
  · exact Nat.le_add_right _ _

private theorem spentOnChoice_of_error {depth : Nat} {value : Text} {fault : Fault}
    (failed : outcome depth value = .error fault)
    (unlimited : ∀ limit, fault ≠ .tooComplex limit) (fallback : Text) :
    spentOnChoice depth [value, fallback] = spent depth value + spent depth fallback := by
  rw [spentOnChoice, failed]
  cases fault with
  | tooComplex limit => exact absurd rfl (unlimited limit)
  | _ => rfl

namespace Evaluation

def IsPermitted (evaluation : Evaluation) : Prop :=
  evaluation.resolver.Permits (spent evaluation.resolver.depth evaluation.text)

variable {evaluation : Evaluation} {call : Call} {builtin : Builtin} {items : List Text}

private theorem Calls.spentOnCall_eq (calls : evaluation.Calls call builtin items) (depth : Nat) :
    spentOnCall depth call = spentOnBuiltin depth items builtin := by
  unfold spentOnCall
  rw [calls.named]
  dsimp only
  rw [calls.split]

theorem IsPermitted.counted (permitted : evaluation.IsPermitted)
    (next : Call.next? evaluation.text = .ok (some call)) :
    evaluation.resolver.counted.Permits
      (spentOnCall evaluation.resolver.depth call +
        spentBehind evaluation.resolver.depth call) := by
  unfold IsPermitted at permitted
  rw [spent_of_next next] at permitted
  exact permitted.advance

/-- With its own passes an evaluation has those of every evaluation that it needs. -/
theorem Leads.isPermitted {earlier later : Evaluation} (leads : Leads earlier later)
    (permitted : earlier.IsPermitted) :
    later.IsPermitted := by
  cases leads with
  | @replaced call x after next within valued =>
      have enough := permitted.counted next
      obtain ⟨replaced, rfl⟩ := run_of_costs enough.of_add valued
        fun fuel => (charges_evaluate fuel).costs_callValue earlier.resolver.depth call
      rw [spentBehind, replaced] at enough
      exact enough.advance
  | @argument call calculation item before behind values after calls valued =>
      have enough := (permitted.counted calls.next).of_add
      rw [calls.spentOnCall_eq, spentOnBuiltin] at enough
      have inFront : earlier.resolver.counted.Permits (spentInTurn earlier.resolver.depth before) :=
        enough.mono (spentInTurn_le_append _ before _)
      obtain ⟨valuedBefore, rfl⟩ := run_of_costs inFront valued
        fun fuel => (charges_evaluate fuel).costs_mapM earlier.resolver.depth before
      rw [spentInTurn_append valuedBefore] at enough
      exact enough.advance.mono (spent_le_spentInTurn _ item behind)
  | @value call value fallback calls room =>
      have enough := (permitted.counted calls.next).of_add
      rw [calls.spentOnCall_eq, spentOnBuiltin, if_neg (Nat.not_le.mpr room)] at enough
      have opened : earlier.resolver.counted.opened.Permits
          (spentOnChoice (earlier.resolver.depth + 1) [value, fallback]) :=
        enough
      exact opened.mono (spent_le_spentOnChoice _ value fallback)
  | @fallback call value fallback fault after calls room failed unlimited =>
      have enough := (permitted.counted calls.next).of_add
      rw [calls.spentOnCall_eq, spentOnBuiltin, if_neg (Nat.not_le.mpr room)] at enough
      have opened : earlier.resolver.counted.opened.Permits
          (spentOnChoice (earlier.resolver.depth + 1) [value, fallback]) :=
        enough
      obtain ⟨failedValue, rfl⟩ := run_of_costs
        (opened.mono (spent_le_spentOnChoice _ value fallback)) failed
        fun fuel => charges_evaluate fuel (earlier.resolver.depth + 1) value
      rw [spentOnChoice_of_error failedValue unlimited] at opened
      exact opened.advance

private theorem Visits.isPermitted {first last : Evaluation} (visits : first.Visits last)
    (permitted : first.IsPermitted) :
    last.IsPermitted :=
  visits.invariant Leads.isPermitted permitted

def RefusesPass (evaluation : Evaluation) : Prop :=
  (∃ call, Call.next? evaluation.text = .ok (some call)) ∧
    evaluation.resolver.maxPasses ≤ evaluation.resolver.passes

private theorem IsPermitted.not_refusesPass (permitted : evaluation.IsPermitted) :
    ¬evaluation.RefusesPass := by
  rintro ⟨⟨call, next⟩, full⟩
  unfold IsPermitted Permits at permitted
  rw [spent_of_next next] at permitted
  omega

end Evaluation

/-! ### Words suffice -/

private theorem permits_of_words {text : Text}
    (enough : resolver.passes + nameWords.count text ≤ resolver.maxPasses) (depth : Nat) :
    resolver.Permits (spent depth text) := by
  have few := (exists_costs depth text).1
  unfold Permits
  omega

/-- A step counts no more than its cost: a pass that is refused is one of those that it lacks. -/
theorem passes_spend {α : Type} (resolver : Resolver) (passes : Nat) (outcome : Except Fault α) :
    resolver.passes ≤ (resolver.spend passes outcome).2.passes ∧
      (resolver.spend passes outcome).2.passes ≤ resolver.passes + passes := by
  by_cases permits : resolver.Permits passes
  · rw [spend_within permits]
    exact ⟨Nat.le_add_right _ _, Nat.le_refl _⟩
  · rw [spend_beyond permits]
    unfold Permits at permits
    unfold exhaust
    dsimp only
    omega

private theorem run_evaluate_of_serve_error {request : Request} {fault : Fault}
    (failed : (request.serve.run resolver).1 = .error fault) :
    ((evaluate request.text).run resolver).1 = .error fault := by
  have ran : request.serve.run resolver = (.error fault, (request.serve.run resolver).2) :=
    Prod.ext failed rfl
  cases request with
  | resolve text =>
      rcases Resolution.cases_of_run_bind_error ran with first | ⟨_, _, _, ended⟩
      · exact congrArg Prod.fst (Resolution.run_bind_error first _)
      · cases ended
  | evaluate text =>
      rcases Resolution.cases_of_run_bind_error ran with first | ⟨_, _, _, ended⟩
      · exact congrArg Prod.fst first
      · cases ended

/-- With a pass left for every word no pass is refused, so no limit is passed but that on the
nesting. -/
private theorem eq_maxDepth_of_words {evaluation : Evaluation} {limit : Nat}
    (permitted : evaluation.IsPermitted)
    (limited : evaluation.outcome = .error (.tooComplex limit)) : limit = maxDepth := by
  obtain ⟨last, visits, refuses⟩ := Evaluation.outcome_eq_tooComplex_iff.mp limited
  cases refuses with
  | pass next full => exact absurd ⟨⟨_, next⟩, full⟩ (visits.isPermitted permitted).not_refusesPass
  | guard calls full => rfl

/-- A request takes no more passes than its text has words, refused ones included. With a pass left
for every word none is refused in anything that the evaluation needs, and the usual limit is passed
by no text with no more words. -/
theorem passes_serve_le (request : Request) (resolver : Resolver) :
    (resolver.passes ≤ (request.serve.run resolver).2.passes ∧
      (request.serve.run resolver).2.passes ≤ resolver.passes + nameWords.count request.text) ∧
    (resolver.passes + nameWords.count request.text ≤ resolver.maxPasses →
      ∀ last, Evaluation.Visits ⟨resolver, request.text⟩ last → ¬last.RefusesPass) ∧
    (nameWords.count request.text ≤ defaultMaxPasses →
      (request.serve.run (fresh defaultMaxPasses)).1 ≠ .error (.tooComplex defaultMaxPasses)) := by
  refine ⟨?_, ?_, ?_⟩
  · have few := (exists_costs resolver.depth request.text).1
    have counted := resolver.passes_spend (spent resolver.depth request.text)
      (request.answer resolver.depth)
    rw [run_serve]
    omega
  · intro enough last visits
    have permitted : Evaluation.IsPermitted ⟨resolver, request.text⟩ := permits_of_words enough _
    exact (visits.isPermitted permitted).not_refusesPass
  · intro enough failed
    have permitted : Evaluation.IsPermitted ⟨fresh defaultMaxPasses, request.text⟩ :=
      permits_of_words ((Nat.zero_add _).symm ▸ enough) _
    have limit := eq_maxDepth_of_words permitted (run_evaluate_of_serve_error failed)
    exact absurd limit (by decide)

def guardedQuotient : Request × Resolver :=
  (.evaluate "IFERROR(ABS(1/0), ABS(-2))".toList, ⟨7, 4, 0⟩)

theorem passes_serve_le_guardedQuotient :
    (guardedQuotient.1.serve.run guardedQuotient.2).2.passes = 7 ∧
      (∀ last, Evaluation.Visits ⟨guardedQuotient.2, guardedQuotient.1.text⟩ last →
        ¬last.RefusesPass) ∧
      (guardedQuotient.1.serve.run (fresh defaultMaxPasses)).1 ≠
        .error (.tooComplex defaultMaxPasses) := by
  have bounded := passes_serve_le guardedQuotient.1 guardedQuotient.2
  exact ⟨by decide +kernel, bounded.2.1 (by decide +kernel), bounded.2.2 (by decide +kernel)⟩

end Resolver

end QuantityFormula
