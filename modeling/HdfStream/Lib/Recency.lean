/-
# Recency

`recent l` are the elements of a list without repetitions, in the order of their first occurrence.
If the list is the history of uses, the last use first, these are the elements by recency.

A cache that keeps the `n + 1` most recently used elements does so again after a use: the element
moves to the front, if the cache has it, or the last one makes room (`take_recent_hit`,
`take_recent_miss`).
-/
import Mathlib.Data.List.Basic
import Mathlib.Data.List.Nodup

namespace Recency

variable {α : Type*} [DecidableEq α]

/-- Without repetitions; the first occurrence counts. -/
def recent : List α → List α
  | [] => []
  | a :: l => a :: (recent l).filter fun b => b ≠ a

theorem nodup_recent (l : List α) : (recent l).Nodup := by
  induction l with
  | nil => exact List.nodup_nil
  | cons a l ih =>
    refine List.nodup_cons.mpr ⟨fun h => ?_, ih.filter _⟩
    exact of_decide_eq_true (List.mem_filter.mp h).2 rfl

/-- Without an element that is not there. -/
theorem filter_ne_of_notMem {l : List α} {a : α} (h : a ∉ l) : (l.filter fun b => b ≠ a) = l :=
  List.filter_eq_self.mpr fun _ hb => decide_eq_true fun hba => h (hba ▸ hb)

theorem take_filter_of_mem {l : List α} {a : α} {n : Nat} (hl : l.Nodup) (h : a ∈ l.take (n + 1)) :
    ((l.take (n + 1)).filter fun b => b ≠ a) = (l.filter fun b => b ≠ a).take n := by
  induction l generalizing n with
  | nil => cases h
  | cons b l ih =>
    rw [List.nodup_cons] at hl
    rw [List.take_succ_cons] at h ⊢
    by_cases hb : b = a
    · subst hb
      rw [List.filter_cons_of_neg (by simp), List.filter_cons_of_neg (by simp),
        filter_ne_of_notMem hl.1, filter_ne_of_notMem fun hmem => hl.1 (List.mem_of_mem_take hmem)]
    · rw [List.filter_cons_of_pos (by simpa using hb), List.filter_cons_of_pos (by simpa using hb)]
      rcases List.mem_cons.mp h with rfl | h
      · exact absurd rfl hb
      · cases n with
        | zero => cases h
        | succ n => rw [ih hl.2 h, List.take_succ_cons]

theorem take_filter_of_notMem {l : List α} {a : α} {n : Nat} (h : a ∉ l.take n) :
    (l.filter fun b => b ≠ a).take n = l.take n := by
  induction l generalizing n with
  | nil => rfl
  | cons b l ih =>
    cases n with
    | zero => rfl
    | succ n =>
      rw [List.take_succ_cons, List.mem_cons, not_or] at h
      rw [List.filter_cons_of_pos (by simpa using fun hb => h.1 hb.symm), List.take_succ_cons,
        List.take_succ_cons, ih h.2]

/-- **A hit**: the element moves to the front. -/
theorem take_recent_hit {l : List α} {a : α} {n : Nat} (h : a ∈ (recent l).take (n + 1)) :
    a :: (((recent l).take (n + 1)).filter fun b => b ≠ a) = (recent (a :: l)).take (n + 1) := by
  rw [recent, List.take_succ_cons, take_filter_of_mem (nodup_recent l) h]

/-- **A miss**: the last element makes room. -/
theorem take_recent_miss {l : List α} {a : α} {n : Nat} (h : a ∉ (recent l).take (n + 1)) :
    a :: ((recent l).take (n + 1)).take n = (recent (a :: l)).take (n + 1) := by
  have hn : a ∉ (recent l).take n := fun hmem =>
    h (List.Sublist.subset (List.take_sublist_take_left (Nat.le_succ n)) hmem)
  rw [recent, List.take_succ_cons, take_filter_of_notMem hn, List.take_take,
    Nat.min_eq_left (Nat.le_succ n)]

/-! ## Faults -/

theorem mem_of_mem_recent {l : List α} {a : α} (h : a ∈ recent l) : a ∈ l := by
  induction l with
  | nil => exact h
  | cons b l ih =>
    rcases List.mem_cons.mp h with rfl | h
    · exact List.mem_cons_self
    · exact List.mem_cons_of_mem b (ih (List.mem_filter.mp h).1)

/-- How often an element was not among the `n` most recent ones when it was used; the last use
comes first. -/
def faults (n : Nat) : List α → Nat
  | [] => 0
  | a :: l => faults n l + if a ∈ (recent l).take n then 0 else 1

/-- A larger cache holds what a smaller one holds. -/
theorem take_recent_subset {n m : Nat} (h : n ≤ m) (l : List α) {a : α}
    (ha : a ∈ (recent l).take n) : a ∈ (recent l).take m :=
  (List.take_sublist_take_left h).subset ha

/-- **More room, fewer faults.** -/
theorem faults_le {n m : Nat} (h : n ≤ m) (l : List α) : faults m l ≤ faults n l := by
  induction l with
  | nil => exact Nat.le_refl _
  | cons a l ih =>
    simp only [faults]
    by_cases ha : a ∈ (recent l).take n
    · simpa [ha, take_recent_subset h l ha] using ih
    · rw [if_neg ha]
      split <;> omega

end Recency
