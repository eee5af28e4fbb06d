/-
# Lists of intervals of natural numbers

An interval is its start and its length.  `points` lists the numbers of some intervals one
after the other.  For intervals in ascending order (`Ascending`) the list is strictly
increasing, so it is what a scan of the numbers in order finds in their union
(`filter_range_eq`).

A CURSOR into a list of intervals is an interval number and an offset in it; `remaining` is
what lies behind the cursor, and `remaining_split` what taking some points there leaves.
-/
import Mathlib.Algebra.Ring.Nat
import Mathlib.Data.List.Nodup
import Mathlib.Data.List.Range

namespace Intervals

/-- The numbers of the intervals, in the order of the list. -/
def points (l : List (Nat × Nat)) : List Nat := l.flatMap (fun s => List.range' s.1 s.2)

/-- Every interval ends before the next ones start. -/
def Ascending (l : List (Nat × Nat)) : Prop := l.Pairwise (fun s t => s.1 + s.2 ≤ t.1)

@[simp] theorem points_nil : points [] = [] := rfl

@[simp] theorem points_cons (s : Nat × Nat) (l : List (Nat × Nat)) :
    points (s :: l) = List.range' s.1 s.2 ++ points l := rfl

@[simp] theorem points_append (l l' : List (Nat × Nat)) :
    points (l ++ l') = points l ++ points l' := by
  simp only [points, List.flatMap_append]

theorem points_length (l : List (Nat × Nat)) : (points l).length = (l.map Prod.snd).sum := by
  induction l with
  | nil => rfl
  | cons s l ih => simp only [points_cons, List.length_append, List.length_range', ih,
      List.map_cons, List.sum_cons]

theorem mem_points {l : List (Nat × Nat)} {i : Nat} :
    i ∈ points l ↔ ∃ s ∈ l, s.1 ≤ i ∧ i < s.1 + s.2 := by
  unfold points
  simp only [List.mem_flatMap, List.mem_range'_1]

/-! ## 1. Intervals in ascending order -/

theorem Ascending.sorted {l : List (Nat × Nat)} (h : Ascending l) :
    (points l).Pairwise (· < ·) := by
  induction l with
  | nil => exact List.Pairwise.nil
  | cons s l ih =>
    obtain ⟨hs, hl⟩ := List.pairwise_cons.mp h
    rw [points_cons, List.pairwise_append]
    refine ⟨List.pairwise_lt_range', ih hl, fun i hi j hj => ?_⟩
    obtain ⟨t, ht, h1, h2⟩ := mem_points.mp hj
    have := hs t ht
    rw [List.mem_range'_1] at hi
    omega

/-- **A scan finds the points of a strictly increasing list in the list's order.** -/
theorem filter_range_eq {l : List Nat} (hl : l.Pairwise (· < ·)) {n : Nat}
    (hn : ∀ i ∈ l, i < n) (p : Nat → Bool) (hp : ∀ i, p i = true ↔ i ∈ l) :
    (List.range n).filter p = l := by
  have hsorted : ((List.range n).filter p).Pairwise (· < ·) :=
    List.pairwise_lt_range.filter p
  have hperm : ((List.range n).filter p).Perm l := by
    refine (List.perm_ext_iff_of_nodup (hsorted.imp Nat.ne_of_lt) (hl.imp Nat.ne_of_lt)).mpr ?_
    intro i
    rw [List.mem_filter, hp, List.mem_range]
    exact ⟨fun h => h.2, fun h => ⟨hn i h, h⟩⟩
  exact hperm.eq_of_pairwise (fun a b _ _ (h1 : a < b) (h2 : b < a) => absurd h1 h2.not_gt)
    hsorted hl

/-! ## 2. A cursor -/

/-- What lies behind offset `off` of interval `k`. -/
def remaining (l : List (Nat × Nat)) (k off : Nat) : List Nat :=
  match l.drop k with
  | [] => []
  | s :: l' => List.range' (s.1 + off) (s.2 - off) ++ points l'

theorem remaining_zero (l : List (Nat × Nat)) (k : Nat) : remaining l k 0 = points (l.drop k) := by
  unfold remaining
  cases l.drop k with
  | nil => rfl
  | cons s l' => simp only [Nat.add_zero, Nat.sub_zero, points_cons]

theorem remaining_eq {l : List (Nat × Nat)} {k : Nat} (hk : k < l.length) (off : Nat) :
    remaining l k off =
      List.range' (l[k].1 + off) (l[k].2 - off) ++ remaining l (k + 1) 0 := by
  rw [remaining_zero, remaining, List.drop_eq_getElem_cons hk]

/-- **Taking `n` points** of the interval under the cursor, which then moves on, to the next
interval if this one is used up. -/
theorem remaining_split {l : List (Nat × Nat)} {k : Nat} (hk : k < l.length) (off n : Nat)
    (hn : off + n ≤ l[k].2) :
    remaining l k off = List.range' (l[k].1 + off) n ++
      (if l[k].2 ≤ off + n then remaining l (k + 1) 0 else remaining l k (off + n)) := by
  have hcut : List.range' (l[k].1 + off) (l[k].2 - off) =
      List.range' (l[k].1 + off) n ++ List.range' (l[k].1 + (off + n)) (l[k].2 - (off + n)) := by
    have hlen : l[k].2 - off = n + (l[k].2 - (off + n)) := by omega
    rw [hlen, List.range'_append_1.symm, Nat.add_assoc]
  rw [remaining_eq hk, hcut, List.append_assoc]
  split
  · rename_i hend
    rw [show l[k].2 - (off + n) = 0 by omega, List.range'_zero, List.nil_append]
  · rw [remaining_eq hk]

end Intervals
