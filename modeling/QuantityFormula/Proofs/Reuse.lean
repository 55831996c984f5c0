import QuantityFormula.Proofs.Passes

/-!
A resolver that is used again. Whatever it was asked for before, and whatever came of that, it has
its limit, a count of its passes and no guarded call open. So it goes on like a fresh one whose
limit is what is left of its own.
-/

set_option autoImplicit false

namespace QuantityFormula

namespace Resolver

/-! ### Requests -/

inductive Request where
  | resolve (text : Text)
  | evaluate (text : Text)

namespace Request

def text : Request → Text
  | .resolve text | .evaluate text => text

def serve : Request → Resolution (Text ⊕ Float)
  | .resolve text => do return .inl (← Resolver.resolve text)
  | .evaluate text => do return .inr (← Resolver.evaluate text)

def answer (depth : Nat) : Request → Except Fault (Text ⊕ Float)
  | .resolve text => do return .inl (← resolved depth text)
  | .evaluate text => do return .inr (← outcome depth text)

end Request

theorem run_serve (request : Request) (resolver : Resolver) :
    request.serve.run resolver = resolver.spend (spent resolver.depth request.text)
      (request.answer resolver.depth) := by
  have ran (fuel depth : Nat) :
      Costs request.serve fuel depth (spent depth request.text) (request.answer depth) := by
    cases request with
    | resolve text =>
        exact (costs_resolve fuel depth text).bind_free fun rest => .of_outcome (.ok (Sum.inl rest))
    | evaluate text =>
        exact (charges_evaluate fuel depth text).bind_free fun value =>
          .of_outcome (.ok (Sum.inr value))
  exact ran _ _ resolver rfl (Nat.le_refl _)

/-! ### A resolver after its requests -/

def after (resolver : Resolver) (history : List Request) : Resolver :=
  history.foldl (fun resolver request => (request.serve.run resolver).2) resolver

theorem spend_keeps {α : Type} (resolver : Resolver) (passes : Nat) (outcome : Except Fault α) :
    (resolver.spend passes outcome).2.maxPasses = resolver.maxPasses ∧
      (resolver.spend passes outcome).2.depth = resolver.depth := by
  by_cases permits : resolver.Permits passes
  · rw [spend_within permits]
    exact ⟨rfl, rfl⟩
  · rw [spend_beyond permits]
    exact ⟨rfl, rfl⟩

theorem after_keeps (resolver : Resolver) (history : List Request) :
    (resolver.after history).maxPasses = resolver.maxPasses ∧
      (resolver.after history).depth = resolver.depth := by
  induction history generalizing resolver with
  | nil => exact ⟨rfl, rfl⟩
  | cons request history ih =>
      obtain ⟨sameLimit, sameDepth⟩ := ih (request.serve.run resolver).2
      have kept := resolver.spend_keeps (spent resolver.depth request.text)
        (request.answer resolver.depth)
      rw [← run_serve request resolver] at kept
      exact ⟨sameLimit.trans kept.1, sameDepth.trans kept.2⟩

/-- The resolver with what is left of the limit for its limit, and no passes counted. -/
def renewed (resolver : Resolver) : Resolver :=
  ⟨resolver.maxPasses - resolver.passes, 0, resolver.depth⟩

private theorem permits_renewed (resolver : Resolver) (passes : Nat) :
    resolver.renewed.Permits passes ↔ resolver.Permits passes := by
  unfold Permits renewed
  dsimp only
  omega

private theorem renewed_after (maxPasses : Nat) (history : List Request) :
    ((fresh maxPasses).after history).renewed =
      fresh (maxPasses - ((fresh maxPasses).after history).passes) := by
  obtain ⟨sameLimit, sameDepth⟩ := (fresh maxPasses).after_keeps history
  rw [renewed, sameLimit, sameDepth]
  rfl

/-- A resolver and the renewed one differ by what was counted before, and by the limit
that a refused pass tells. -/
theorem spend_renewed {α : Type} (resolver : Resolver) (passes : Nat) (outcome : Except Fault α) :
    ((resolver.spend passes outcome).1 = (resolver.renewed.spend passes outcome).1 ∨
      (resolver.spend passes outcome).1 = .error (.tooComplex resolver.maxPasses) ∧
        (resolver.renewed.spend passes outcome).1 =
          .error (.tooComplex resolver.renewed.maxPasses)) ∧
    (resolver.spend passes outcome).2.passes =
      resolver.passes + (resolver.renewed.spend passes outcome).2.passes := by
  by_cases permits : resolver.Permits passes
  · rw [spend_within permits, spend_within ((resolver.permits_renewed passes).mpr permits)]
    refine ⟨.inl rfl, ?_⟩
    change resolver.passes + passes = resolver.passes + (0 + passes)
    omega
  · rw [spend_beyond permits, spend_beyond (mt (resolver.permits_renewed passes).mp permits)]
    refine ⟨.inr ⟨rfl, rfl⟩, ?_⟩
    change max resolver.maxPasses resolver.passes + 1 =
      resolver.passes + (max (resolver.maxPasses - resolver.passes) 0 + 1)
    omega

/-- After any requests a resolver answers the next one as a fresh resolver does whose limit
is what they left of its own, but for the limit that is told if a pass is refused, and it
counts as many passes for it. -/
theorem serve_after_history (maxPasses : Nat) (history : List Request) (request : Request) :
    let used := (fresh maxPasses).after history
    let rest := maxPasses - used.passes
    ((request.serve.run used).1 = (request.serve.run (fresh rest)).1 ∨
      (request.serve.run used).1 = .error (.tooComplex maxPasses) ∧
        (request.serve.run (fresh rest)).1 = .error (.tooComplex rest)) ∧
    (request.serve.run used).2.passes =
      used.passes + (request.serve.run (fresh rest)).2.passes := by
  intro used rest
  have sameLimit : used.maxPasses = maxPasses := ((fresh maxPasses).after_keeps history).1
  have same : used.renewed = fresh rest := renewed_after maxPasses history
  have sameDepth : (fresh rest).depth = used.depth := by rw [← same]; rfl
  have compared := used.spend_renewed (spent used.depth request.text) (request.answer used.depth)
  rw [same, sameLimit] at compared
  rw [run_serve request used, run_serve request (fresh rest), sameDepth]
  exact compared

/-- A refused pass counts, and beyond the limit a text without calls still has its value. -/
example : ((fresh 1).after [.evaluate "ABS(ABS(-2))".toList, .resolve "ABS(1)".toList]).passes = 3 ∧
    ((Request.evaluate "1 + 2".toList).serve.run ⟨1, 3, 0⟩).1 = .ok (.inr 3) := by
  decide +kernel

end Resolver

end QuantityFormula
