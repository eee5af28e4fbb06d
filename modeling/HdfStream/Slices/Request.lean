/-
# What a request asks for

The numbers of a request as natural numbers, without the wrap-around of the C arithmetic: the
rows of its slices (`slices`, `requestedRows`) and the size of a row (`rowElements`).  The code's
own numbers are these modulo `2 ^ 64` (`nrElements_toNat`, `totalCount0_toNat`).

`multislice_init` accepts slices in ascending order only (`slices_ascending`), within the
dataset (`slices_inside`), so for the slices it accepts the total number of rows is exact
(`multisliceFields_cursor` uses it).
-/
import HdfStream.Lib.Intervals
import HdfStream.Slices.Model
import Mathlib.Algebra.Order.BigOperators.Group.List

namespace HdfStream.Slices

open Intervals

/-! ## 1. Arithmetic of `size_t` -/

theorem minSize_toNat (a b : UInt64) : (minSize a b).toNat = min a.toNat b.toNat := by
  unfold minSize
  split
  · rename_i h
    have := UInt64.lt_iff_toNat_lt.mp h
    omega
  · rename_i h
    have := mt UInt64.lt_iff_toNat_lt.mpr h
    omega

theorem add_toNat_of_lt {a b : UInt64} (h : a.toNat + b.toNat < 2 ^ 64) :
    (a + b).toNat = a.toNat + b.toNat := by
  rw [UInt64.toNat_add, Nat.mod_eq_of_lt h]

theorem sub_toNat_of_le {a b : UInt64} (h : b.toNat ≤ a.toNat) :
    (a - b).toNat = a.toNat - b.toNat :=
  UInt64.toNat_sub_of_le a b (UInt64.le_iff_toNat_le.mpr h)

/-- A sum of `size_t` values, modulo `2 ^ 64`. -/
theorem foldl_add_toNat (f : Nat → UInt64) (l : List Nat) (a : UInt64) :
    (l.foldl (fun acc i => acc + f i) a).toNat =
      (a.toNat + (l.map fun i => (f i).toNat).sum) % 2 ^ 64 := by
  induction l generalizing a with
  | nil => exact (Nat.mod_eq_of_lt (UInt64.toNat_lt a)).symm
  | cons i l ih =>
    rw [List.foldl_cons, ih, UInt64.toNat_add, List.map_cons, List.sum_cons, Nat.mod_add_mod,
      Nat.add_assoc]

/-- A product of `size_t` values, modulo `2 ^ 64`. -/
theorem foldl_mul_toNat (f : Nat → UInt64) (l : List Nat) (a : UInt64) :
    (l.foldl (fun acc i => acc * f i) a).toNat =
      (a.toNat * (l.map fun i => (f i).toNat).prod) % 2 ^ 64 := by
  induction l generalizing a with
  | nil =>
    rw [List.map_nil, List.prod_nil, Nat.mul_one]
    exact (Nat.mod_eq_of_lt (UInt64.toNat_lt a)).symm
  | cons i l ih =>
    rw [List.foldl_cons, ih, UInt64.toNat_mul, List.map_cons, List.prod_cons, Nat.mod_mul_mod,
      Nat.mul_assoc]

/-! ## 2. Rows -/

/-- The requested slices in the first dimension. -/
def slices (rank nrSlices : Nat) (starts counts : Nat → UInt64) : List (Nat × Nat) :=
  (List.range nrSlices).map fun k =>
    ((starts (k * rank)).toNat, (counts (k * rank)).toNat)

theorem slices_length (rank nrSlices : Nat) (starts counts : Nat → UInt64) :
    (slices rank nrSlices starts counts).length = nrSlices := by
  rw [slices, List.length_map, List.length_range]

/-- The values in one row. -/
def rowElements (rank : Nat) (counts : Nat → UInt64) : Nat :=
  ((List.range' 1 (rank - 1)).map fun i => (counts i).toNat).prod

/-- The rows a request is for: those of its slices in order, and none if rows are empty. -/
def requestedRows (rank nrSlices : Nat) (starts counts : Nat → UInt64) : List Nat :=
  if rowElements rank counts = 0 then [] else points (slices rank nrSlices starts counts)

theorem nrElements_toNat (rank : Nat) (counts : Nat → UInt64) :
    (nrElements rank counts).toNat = rowElements rank counts % 2 ^ 64 := by
  rw [nrElements, foldl_mul_toNat, UInt64.toNat_one, Nat.one_mul, Int.toNat_natCast, rowElements]

theorem totalCount0_toNat (rank nrSlices : Nat) (starts counts : Nat → UInt64) :
    (totalCount0 rank nrSlices counts).toNat =
      (points (slices rank nrSlices starts counts)).length % 2 ^ 64 := by
  rw [totalCount0, foldl_add_toNat, UInt64.toNat_zero, Nat.zero_add, points_length, slices,
    List.map_map]
  rfl

theorem rowElements_eq_zero_iff (rank : Nat) (counts : Nat → UInt64) :
    rowElements rank counts = 0 ↔ ∃ i, 1 ≤ i ∧ i < rank ∧ counts i = 0 := by
  rw [rowElements, List.prod_eq_zero_iff_exists_zero_nat]
  constructor
  · rintro ⟨x, hx, hzero⟩
    obtain ⟨i, hi, rfl⟩ := List.mem_map.mp hx
    rw [List.mem_range'_1] at hi
    exact ⟨i, by omega, by omega, UInt64.toNat_inj.mp hzero⟩
  · rintro ⟨i, h1, h2, hzero⟩
    refine ⟨_, List.mem_map.mpr ⟨i, List.mem_range'_1.mpr (by omega), rfl⟩, ?_⟩
    rw [hzero, UInt64.toNat_zero]

/-- Some entry of `total_count` is zero: there are no rows, or they are empty. -/
theorem anyZero_iff (ms : Multislice) {rank : Nat} (hrank : 0 < rank) (nrSlices : Nat)
    (counts : Nat → UInt64) :
    ((List.range rank).any fun i => totalCounts ms rank nrSlices counts i == 0) = true ↔
      totalCount0 rank nrSlices counts = 0 ∨ rowElements rank counts = 0 := by
  rw [rowElements_eq_zero_iff, List.any_eq_true]
  constructor
  · rintro ⟨i, hi, hzero⟩
    have hzero := beq_iff_eq.mp hzero
    have hi := List.mem_range.mp hi
    rw [totalCounts, if_pos hi] at hzero
    split at hzero
    · exact .inl hzero
    · exact .inr ⟨i, by omega, hi, hzero⟩
  · rintro (hzero | ⟨i, h1, hi, hzero⟩)
    · refine ⟨0, List.mem_range.mpr hrank, beq_iff_eq.mpr ?_⟩
      rw [totalCounts, if_pos hrank, if_pos rfl, hzero]
    · refine ⟨i, List.mem_range.mpr hi, beq_iff_eq.mpr ?_⟩
      rw [totalCounts, if_pos hi, if_neg (by omega), hzero]

/-! ## 3. The slices `multislice_init` accepts -/

theorem multisliceInit_eq (ms : Multislice) {rank nrSlices : Nat} (starts counts : Nat → UInt64)
    (epb : UInt64) (fileDims : Nat → UInt64) (hrank : rank ≤ maxDims) (hnr : 1 ≤ nrSlices)
    (hnr' : nrSlices ≤ maxSlices) :
    multisliceInit ms rank nrSlices starts counts epb fileDims =
      if slicesRefused rank (if 0 < rank then nrSlices else 0) starts counts fileDims then none
      else some (multisliceFields ms rank (if 0 < rank then nrSlices else 0) starts counts
        epb) := by
  unfold multisliceInit
  rw [if_neg (by omega), if_neg (by omega), if_neg (by omega), if_neg (by omega)]
  rfl

theorem multisliceInit_some {ms ms' : Multislice} {rank nrSlices : Nat}
    {starts counts fileDims : Nat → UInt64} {epb : UInt64} (hrank : 0 < rank)
    (h : multisliceInit ms rank nrSlices starts counts epb fileDims = some ms') :
    0 < nrSlices ∧ slicesRefused rank nrSlices starts counts fileDims = false ∧
      ms' = multisliceFields ms rank nrSlices starts counts epb := by
  have h0 := h
  unfold multisliceInit at h0
  split at h0
  · cases h0
  split at h0
  · cases h0
  split at h0
  · cases h0
  split at h0
  · cases h0
  rw [multisliceInit_eq ms starts counts epb fileDims (by omega) (by omega) (by omega),
    if_pos hrank] at h
  split at h
  · cases h
  · rename_i href
    exact ⟨by omega, Bool.eq_false_iff.mpr href, (Option.some.inj h).symm⟩

/-- No start + count of the request wraps. -/
def NoWrap (rank nrSlices : Nat) (starts counts : Nat → UInt64) : Prop :=
  ∀ i < rank * nrSlices, (starts i).toNat + (counts i).toNat < 2 ^ 64

/-- No start + count in the first dimension wraps. -/
def NoWrapRows (rank nrSlices : Nat) (starts counts : Nat → UInt64) : Prop :=
  ∀ k < nrSlices, (starts (rank * k)).toNat + (counts (rank * k)).toNat < 2 ^ 64

theorem slicesRefused_eq_false {rank nrSlices : Nat} {starts counts fileDims : Nat → UInt64}
    (h : slicesRefused rank nrSlices starts counts fileDims = false) {k : Nat} (hk : k < nrSlices) :
    outOfBounds rank starts counts fileDims k = false ∧ outOfOrder rank starts counts k =
      false := by
  have hall := List.any_eq_false.mp h k (List.mem_range.mpr hk)
  exact Bool.or_eq_false_iff.mp (Bool.eq_false_iff.mpr hall)

/-- The index of an entry of slice `k`. -/
theorem index_lt {rank nrSlices k d : Nat} (hk : k < nrSlices) (hd : d < rank) :
    rank * k + d < rank * nrSlices := by
  have := Nat.mul_le_mul_left rank (Nat.succ_le_of_lt hk)
  rw [Nat.mul_succ] at this
  omega

theorem NoWrap.rows {rank nrSlices : Nat} {starts counts : Nat → UInt64} (hrank : 0 < rank)
    (h : NoWrap rank nrSlices starts counts) : NoWrapRows rank nrSlices starts counts :=
  fun _ hk => h _ (index_lt hk hrank)

theorem inBounds {rank nrSlices : Nat} {starts counts fileDims : Nat → UInt64}
    (h : slicesRefused rank nrSlices starts counts fileDims = false) {k d : Nat}
    (hk : k < nrSlices) (hd : d < rank)
    (hfits : (starts (rank * k + d)).toNat + (counts (rank * k + d)).toNat < 2 ^ 64) :
    (starts (rank * k + d)).toNat + (counts (rank * k + d)).toNat ≤ (fileDims d).toNat := by
  have hall := List.any_eq_false.mp (slicesRefused_eq_false h hk).1 d (List.mem_range.mpr hd)
  have hle : starts (rank * k + d) + counts (rank * k + d) ≤ fileDims d := by
    simpa only [gt_iff_lt, decide_eq_true_eq, UInt64.not_lt] using hall
  have := UInt64.le_iff_toNat_le.mp hle
  rwa [add_toNat_of_lt hfits] at this

/-- Each slice ends before the next one starts. -/
theorem inOrder {rank nrSlices : Nat} {starts counts fileDims : Nat → UInt64}
    (h : slicesRefused rank nrSlices starts counts fileDims = false)
    (hwrap : NoWrapRows rank nrSlices starts counts) {k : Nat} (hk : k + 1 < nrSlices) :
    (starts (rank * k)).toNat + (counts (rank * k)).toNat ≤ (starts (rank * (k + 1))).toNat := by
  have hfalse := (slicesRefused_eq_false h hk).2
  simp only [outOfOrder, Nat.zero_lt_succ, decide_true, Bool.true_and, Bool.or_eq_false_iff,
    decide_eq_false_iff_not, Nat.add_sub_cancel, Nat.add_zero, gt_iff_lt, UInt64.not_lt] at hfalse
  have hle := UInt64.le_iff_toNat_le.mp hfalse.1.2
  rwa [add_toNat_of_lt (hwrap k (by omega))] at hle

/-- **The accepted slices are in ascending order.** -/
theorem slices_ascending {rank nrSlices : Nat} {starts counts fileDims : Nat → UInt64}
    (h : slicesRefused rank nrSlices starts counts fileDims = false)
    (hwrap : NoWrapRows rank nrSlices starts counts) :
    Ascending (slices rank nrSlices starts counts) := by
  have hchain : ∀ (j i : Nat), i < j → j < nrSlices →
      (starts (rank * i)).toNat + (counts (rank * i)).toNat ≤ (starts (rank * j)).toNat := by
    intro j
    induction j with
    | zero => intro i hij; exact absurd hij (Nat.not_lt_zero i)
    | succ j ih =>
      intro i hij hj
      have hstep := inOrder h hwrap hj
      rcases Nat.lt_succ_iff_lt_or_eq.mp hij with hlt | rfl
      · have := ih i hlt (by omega)
        omega
      · exact hstep
  rw [Ascending, slices, List.pairwise_map]
  refine List.Pairwise.imp_of_mem (fun {i j} _ hj hij => ?_) List.pairwise_lt_range
  simp only [Nat.mul_comm _ rank]
  exact hchain j i hij (List.mem_range.mp hj)

theorem slices_inside {rank nrSlices : Nat} {starts counts fileDims : Nat → UInt64}
    (hrank : 0 < rank) (h : slicesRefused rank nrSlices starts counts fileDims = false)
    (hwrap : NoWrapRows rank nrSlices starts counts) {s : Nat × Nat}
    (hs : s ∈ slices rank nrSlices starts counts) : s.1 + s.2 ≤ (fileDims 0).toNat := by
  obtain ⟨k, hk, rfl⟩ := List.mem_map.mp hs
  rw [Nat.mul_comm]
  have hk := List.mem_range.mp hk
  exact inBounds h hk hrank (hwrap k hk)

/-- A dataset that holds the slices holds at least as many rows as they have. -/
theorem points_length_le {rank nrSlices : Nat} {starts counts fileDims : Nat → UInt64}
    (hrank : 0 < rank) (h : slicesRefused rank nrSlices starts counts fileDims = false)
    (hwrap : NoWrapRows rank nrSlices starts counts) :
    (points (slices rank nrSlices starts counts)).length ≤ (fileDims 0).toNat := by
  have hin : ∀ i ∈ points (slices rank nrSlices starts counts), i < (fileDims 0).toNat := by
    intro i hi
    obtain ⟨s, hs, _, hlt⟩ := mem_points.mp hi
    exact Nat.lt_of_lt_of_le hlt (slices_inside hrank h hwrap hs)
  have hscan := filter_range_eq (slices_ascending h hwrap).sorted hin
    (fun i => decide (i ∈ points (slices rank nrSlices starts counts)))
    (fun i => decide_eq_true_iff)
  rw [← hscan]
  exact (List.length_filter_le _ _).trans (Nat.le_of_eq List.length_range)

/-- The values in a row of the request are at most those in a row of the dataset. -/
theorem rowElements_le {rank nrSlices : Nat} {starts counts fileDims : Nat → UInt64}
    (hnr : 0 < nrSlices) (h : slicesRefused rank nrSlices starts counts fileDims = false)
    (hwrap : NoWrap rank nrSlices starts counts) : rowElements rank counts ≤ rowElements rank
      fileDims := by
  refine List.prod_le_prod' fun d hd => ?_
  have hd := List.mem_range'_1.mp hd
  have hd : d < rank := by omega
  have := inBounds h hnr hd (hwrap _ (index_lt hnr hd))
  rw [Nat.mul_zero, Nat.zero_add] at this
  omega

end HdfStream.Slices
