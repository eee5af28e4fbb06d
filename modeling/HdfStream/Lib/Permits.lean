/-
# Counting semaphores by key

A program limits how many threads do something for one key at a time: every key that was used has
a semaphore, which starts with `max` permits, and a thread takes a permit of its key and gives it
back.

`Balanced` is the invariant: of every semaphore, the permits and the threads that have one add up
to `max`, and a key without a semaphore has no thread.  There is one lemma for each operation.
-/
import HdfStream.Lib.Counting
import Mathlib.Data.Int.Order.Basic

namespace Permits

variable {κ : Type*} [DecidableEq κ]

/-- The threads below `n` that have a permit of the key. -/
def holders (holds : Nat → Option κ) (n : Nat) (k : κ) : Nat :=
  Nat.count (fun t => holds t = some k) n

/-- The invariant of the semaphores `permits` and the threads that have a permit of the key
`holds`. -/
structure Balanced (max : Int) (n : Nat) (permits : κ → Option Int) (holds : Nat → Option κ) :
    Prop where
  sum : ∀ k p, permits k = some p → p + holders holds n k = max
  absent : ∀ k, permits k = none → holders holds n k = 0
  le : ∀ k, holders holds n k ≤ max.toNat

variable {max p : Int} {n t : Nat} {permits : κ → Option Int} {holds : Nat → Option κ} {k : κ}

theorem holders_none (n : Nat) (k : κ) : holders (fun _ => (none : Option κ)) n k = 0 :=
  Nat.count_iff_forall_not.mpr fun _ _ h => by cases h

/-- No semaphore yet. -/
theorem Balanced.start (max : Int) (n : Nat) :
    Balanced max n (fun _ : κ => none) fun _ => none where
  sum k p h := by cases h
  absent k _ := holders_none n k
  le k := by
    rw [holders_none]
    exact Nat.zero_le _

/-- What one thread takes or gives back does not change the holders of another key. -/
theorem holders_update_of_ne (ht : t < n) {x : Option κ} {k' : κ} (hold : holds t ≠ some k')
    (hnew : x ≠ some k') : holders (Function.update holds t x) n k' = holders holds n k' :=
  Counting.count_update_same (q := fun x : Option κ => x = some k') ht
    ⟨fun h => absurd h hnew, fun h => absurd h hold⟩

/-- The permits of one key change, and only its holders. -/
theorem Balanced.change (h : Balanced max n permits holds) {holds' : Nat → Option κ} {p' : Int}
    (hother : ∀ k', k' ≠ k → holders holds' n k' = holders holds n k')
    (hsum : p' + holders holds' n k = max) (hle : holders holds' n k ≤ max.toNat) :
    Balanced max n (Function.update permits k (some p')) holds' where
  sum k' q hq := by
    by_cases e : k' = k
    · subst e
      rw [Function.update_self, Option.some.injEq] at hq
      rw [← hq]
      exact hsum
    · rw [Function.update_of_ne e] at hq
      rw [hother k' e]
      exact h.sum k' q hq
  absent k' hnone := by
    by_cases e : k' = k
    · subst e
      rw [Function.update_self] at hnone
      cases hnone
    · rw [Function.update_of_ne e] at hnone
      rw [hother k' e]
      exact h.absent k' hnone
  le k' := by
    by_cases e : k' = k
    · subst e
      exact hle
    · rw [hother k' e]
      exact h.le k'

/-- A semaphore for a new key. -/
theorem Balanced.create (h : Balanced max n permits holds) (hk : permits k = none) :
    Balanced max n (Function.update permits k (some max)) holds := by
  refine h.change (fun _ _ => rfl) ?_ (h.le k)
  rw [h.absent k hk]
  exact Int.add_zero max

/-- A permit is taken. -/
theorem Balanced.acquire (h : Balanced max n permits holds) (ht : t < n) (hp : permits k = some p)
    (hpos : 0 < p) (hfree : holds t = none) :
    Balanced max n (Function.update permits k (some (p - 1)))
      (Function.update holds t (some k)) := by
  have hne : holds t ≠ some k := by
    rw [hfree]
    exact fun e => by cases e
  have hgain : holders (Function.update holds t (some k)) n k = holders holds n k + 1 :=
    Counting.count_update_gain (q := fun x : Option κ => x = some k) ht hne rfl
  have hsum := h.sum k p hp
  refine h.change (fun k' e => ?_) (by omega) (by omega)
  refine holders_update_of_ne ht ?_ fun e' => e (Option.some.inj e').symm
  rw [hfree]
  exact fun e => by cases e

/-- A permit is given back. -/
theorem Balanced.release (h : Balanced max n permits holds) (ht : t < n) (hp : permits k = some p)
    (hk : holds t = some k) :
    Balanced max n (Function.update permits k (some (p + 1))) (Function.update holds t none) := by
  have hlose : holders (Function.update holds t none) n k + 1 = holders holds n k :=
    Counting.count_update_lose (q := fun x : Option κ => x = some k) ht hk fun e => by cases e
  have hsum := h.sum k p hp
  have hle := h.le k
  refine h.change (fun k' e => ?_) (by omega) (by omega)
  refine holders_update_of_ne ht ?_ fun e' => by cases e'
  rw [hk]
  exact fun e' => e (Option.some.inj e').symm

/-- A thread that has a permit finds the semaphore it is of. -/
theorem Balanced.exists_permits (h : Balanced max n permits holds) (ht : t < n)
    (hk : holds t = some k) : ∃ p, permits k = some p := by
  cases hp : permits k with
  | some p => exact ⟨p, rfl⟩
  | none => exact absurd hk (Nat.count_iff_forall_not.mp (h.absent k hp) t ht)

end Permits
