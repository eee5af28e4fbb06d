/-
# Loops with a bound on the number of passes

`Loop.iter step fuel s` makes at most `fuel` passes of a loop body.  A pass goes on with a new
state, leaves the loop with a result, or fails; `none` says that the passes did not suffice.

`Loop.iter_total` is the rule of total correctness: an invariant and a variant show that with
enough passes the loop leaves with a result, without a failure.  `Loop.iter_partial` is the rule
of partial correctness: what the passes preserve holds when the loop leaves, if it does.
-/
import Mathlib.Order.Basic

namespace Loop

variable {σ ρ ε : Type*}

/-- At most `fuel` passes from the state `s`. -/
def iter (step : σ → Except ε (σ ⊕ ρ)) : Nat → σ → Option (Except ε ρ)
  | 0, _ => none
  | fuel + 1, s =>
    match step s with
    | .error e => some (.error e)
    | .ok (.inr r) => some (.ok r)
    | .ok (.inl s') => iter step fuel s'

/-- **Total correctness.**  If every pass from the invariant either goes on with the invariant
and a smaller variant, or leaves with the postcondition, then as many passes as the variant
says are enough to leave with the postcondition. -/
theorem iter_total (step : σ → Except ε (σ ⊕ ρ)) (I : σ → Prop) (Q : ρ → Prop)
    (variant : σ → Nat) (h : ∀ s, I s →
      (∃ s', step s = .ok (.inl s') ∧ I s' ∧ variant s' < variant s) ∨
      ∃ r, step s = .ok (.inr r) ∧ Q r) :
    ∀ (fuel : Nat) (s : σ), I s → variant s < fuel → ∃ r, iter step fuel s = some (.ok r) ∧
      Q r := by
  intro fuel
  induction fuel with
  | zero => intro s _ hlt; exact absurd hlt (Nat.not_lt_zero _)
  | succ fuel ih =>
    intro s hs hlt
    rcases h s hs with ⟨s', hstep, hs', hvar⟩ | ⟨r, hstep, hr⟩
    · obtain ⟨r, hiter, hr⟩ := ih s' hs' (by omega)
      exact ⟨r, by rw [iter, hstep]; exact hiter, hr⟩
    · exact ⟨r, by rw [iter, hstep], hr⟩

/-- **Partial correctness.**  If the passes preserve the invariant and a pass that leaves
establishes the postcondition, then a loop that leaves has established it. -/
theorem iter_partial (step : σ → Except ε (σ ⊕ ρ)) (I : σ → Prop) (Q : ρ → Prop)
    (hstep : ∀ s s', I s → step s = .ok (.inl s') → I s')
    (hend : ∀ s r, I s → step s = .ok (.inr r) → Q r) :
    ∀ (fuel : Nat) (s : σ) (r : ρ), I s → iter step fuel s = some (.ok r) → Q r := by
  intro fuel
  induction fuel with
  | zero => intro s r _ h; cases h
  | succ fuel ih =>
    intro s r hs h
    rw [iter] at h
    split at h
    · cases h
    · rename_i hstep'
      cases h
      exact hend s r hs hstep'
    · rename_i s' hstep'
      exact ih s' r (hstep s s' hs hstep') h

/-- A loop that has ended makes no use of further passes. -/
theorem iter_mono (step : σ → Except ε (σ ⊕ ρ)) {fuel fuel' : Nat} (hle : fuel ≤ fuel') {s : σ}
    {r : Except ε ρ} (h : iter step fuel s = some r) : iter step fuel' s = some r := by
  induction fuel generalizing fuel' s with
  | zero => cases h
  | succ fuel ih =>
    obtain ⟨n, rfl⟩ := Nat.exists_eq_succ_of_ne_zero (show fuel' ≠ 0 by omega)
    rw [iter] at h ⊢
    split at h
    · exact h
    · exact h
    · exact ih (by omega) h

end Loop
