/-
# What `multislice_init` checks

`multislice_init` compares every slice with the extents of the dataset and with the slice before
it, in 64-bit arithmetic.  `Valid` is what the comparisons are for, in exact arithmetic, and
`Totals` is what the iterator has to start with.  A start + count that wraps can pass the
comparisons although the slice is not within the dataset (`wrappedSlice_accepted`);
`multisliceInit_exact_iff` says that nothing else goes wrong.
-/
import HdfStream.Slices.Delivery

namespace HdfStream.Slices

open Intervals

/-! ## 1. Exact and computed checks -/

/-- The request is in the range of the numbers the code handles. -/
def InRange (rank nrSlices : Int) : Prop :=
  0 ≤ rank ∧ rank ≤ maxDims ∧ 1 ≤ nrSlices ∧ nrSlices ≤ maxSlices

/-- Slices that differ in the first dimension only, one after the other, within the dataset. -/
structure ValidSlices (rank nrSlices : Nat) (starts counts fileDims : Nat → UInt64) : Prop where
  inside : ∀ k < nrSlices, ∀ d < rank,
    (starts (rank * k + d)).toNat + (counts (rank * k + d)).toNat ≤ (fileDims d).toNat
  ordered : ∀ k, k + 1 < nrSlices →
    (starts (rank * k)).toNat + (counts (rank * k)).toNat ≤ (starts (rank * (k + 1))).toNat
  equal : ∀ k < nrSlices, ∀ d, 1 ≤ d → d < rank →
    starts (rank * k + d) = starts d ∧ counts (rank * k + d) = counts d

/-- A valid request. -/
def Valid (rank nrSlices : Int) (starts counts fileDims : Nat → UInt64) : Prop :=
  InRange rank nrSlices ∧
    (0 < rank → ValidSlices rank.toNat nrSlices.toNat starts counts fileDims)

/-- The checks as the code makes them, with the sums modulo `2 ^ 64`. -/
structure ChecksPass (rank nrSlices : Nat) (starts counts fileDims : Nat → UInt64) : Prop where
  inside : ∀ k < nrSlices, ∀ d < rank,
    ((starts (rank * k + d)).toNat + (counts (rank * k + d)).toNat) % 2 ^ 64 ≤ (fileDims d).toNat
  ascending : ∀ k, k + 1 < nrSlices → (starts (rank * k)).toNat ≤ (starts (rank * (k + 1))).toNat
  ordered : ∀ k, k + 1 < nrSlices →
    ((starts (rank * k)).toNat + (counts (rank * k)).toNat) % 2 ^ 64 ≤
      (starts (rank * (k + 1))).toNat
  equal : ∀ k, k + 1 < nrSlices → ∀ d, 1 ≤ d → d < rank →
    starts (rank * k + d) = starts (rank * (k + 1) + d) ∧
      counts (rank * k + d) = counts (rank * (k + 1) + d)

theorem outOfBounds_eq_false_iff {rank : Nat} {starts counts fileDims : Nat → UInt64} {k : Nat} :
    outOfBounds rank starts counts fileDims k = false ↔ ∀ d < rank,
      ((starts (rank * k + d)).toNat + (counts (rank * k + d)).toNat) % 2 ^ 64 ≤
        (fileDims d).toNat := by
  simp only [outOfBounds, List.any_eq_false, List.mem_range, gt_iff_lt, decide_eq_true_eq,
    UInt64.not_lt, UInt64.le_iff_toNat_le, UInt64.toNat_add]

theorem outOfOrder_succ_eq_false_iff {rank : Nat} {starts counts : Nat → UInt64} {k : Nat} :
    outOfOrder rank starts counts (k + 1) = false ↔
      (starts (rank * k)).toNat ≤ (starts (rank * (k + 1))).toNat ∧
      ((starts (rank * k)).toNat + (counts (rank * k)).toNat) % 2 ^ 64 ≤
        (starts (rank * (k + 1))).toNat ∧
      ∀ d, 1 ≤ d → d < rank → starts (rank * k + d) = starts (rank * (k + 1) + d) ∧
        counts (rank * k + d) = counts (rank * (k + 1) + d) := by
  simp only [outOfOrder, Nat.zero_lt_succ, decide_true, Bool.true_and, Bool.or_eq_false_iff,
    decide_eq_false_iff_not, Nat.add_sub_cancel, Nat.add_zero, gt_iff_lt, UInt64.not_lt,
    UInt64.le_iff_toNat_le, UInt64.toNat_add, List.any_eq_false, List.mem_range'_1,
    Bool.or_eq_true, bne_iff_ne, not_or, not_not, and_assoc]
  refine and_congr_right fun _ => and_congr_right fun _ => ?_
  exact ⟨fun h d h1 h2 => h d ⟨h1, by omega⟩, fun h d hd => h d hd.1 (by omega)⟩

/-- The code makes these checks. -/
theorem slicesRefused_eq_false_iff {rank nrSlices : Nat} {starts counts fileDims : Nat → UInt64} :
    slicesRefused rank nrSlices starts counts fileDims = false ↔
      ChecksPass rank nrSlices starts counts fileDims := by
  constructor
  · intro h
    have hbounds := fun k hk =>
      outOfBounds_eq_false_iff.mp (slicesRefused_eq_false h (k := k) hk).1
    have horder := fun k hk =>
      outOfOrder_succ_eq_false_iff.mp (slicesRefused_eq_false h (k := k + 1) hk).2
    exact
      { inside := hbounds
        ascending := fun k hk => (horder k hk).1
        ordered := fun k hk => (horder k hk).2.1
        equal := fun k hk => (horder k hk).2.2 }
  · intro h
    refine List.any_eq_false.mpr fun k hk => ?_
    have hk := List.mem_range.mp hk
    rw [Bool.not_eq_true, Bool.or_eq_false_iff]
    refine ⟨outOfBounds_eq_false_iff.mpr (h.inside k hk), ?_⟩
    rcases k with _ | k
    · rfl
    · exact outOfOrder_succ_eq_false_iff.mpr ⟨h.ascending k hk, h.ordered k hk, h.equal k hk⟩

/-- Slices that equal their neighbours equal the first one. -/
theorem ChecksPass.equal_first {rank nrSlices : Nat} {starts counts fileDims : Nat → UInt64}
    (h : ChecksPass rank nrSlices starts counts fileDims) {d : Nat} (h1 : 1 ≤ d) (hd : d < rank) :
    ∀ k < nrSlices, starts (rank * k + d) = starts d ∧ counts (rank * k + d) = counts d := by
  intro k
  induction k with
  | zero =>
    intro _
    rw [Nat.mul_zero, Nat.zero_add]
    exact ⟨rfl, rfl⟩
  | succ k ih =>
    intro hk
    obtain ⟨hstart, hcount⟩ := ih (by omega)
    obtain ⟨hstart', hcount'⟩ := h.equal k hk d h1 hd
    exact ⟨hstart'.symm.trans hstart, hcount'.symm.trans hcount⟩

/-- Without wrap-around the checks are exact. -/
theorem checksPass_iff {rank nrSlices : Nat} {starts counts fileDims : Nat → UInt64}
    (hrank : 0 < rank) (hwrap : NoWrap rank nrSlices starts counts) :
    ChecksPass rank nrSlices starts counts fileDims ↔
      ValidSlices rank nrSlices starts counts fileDims := by
  have hsum : ∀ k < nrSlices, ∀ d < rank,
      ((starts (rank * k + d)).toNat + (counts (rank * k + d)).toNat) % 2 ^ 64 =
        (starts (rank * k + d)).toNat + (counts (rank * k + d)).toNat := fun k hk d hd =>
    Nat.mod_eq_of_lt (hwrap _ (index_lt hk hd))
  have hsum0 : ∀ k < nrSlices, ((starts (rank * k)).toNat + (counts (rank * k)).toNat) % 2 ^ 64 =
      (starts (rank * k)).toNat + (counts (rank * k)).toNat := fun k hk => hsum k hk 0 hrank
  constructor
  · intro h
    refine ⟨fun k hk d hd => ?_, fun k hk => ?_, fun k hk d h1 hd => h.equal_first h1 hd k hk⟩
    · rw [← hsum k hk d hd]
      exact h.inside k hk d hd
    · rw [← hsum0 k (by omega)]
      exact h.ordered k hk
  · intro h
    refine ⟨fun k hk d hd => ?_, fun k hk => ?_, fun k hk => ?_, fun k hk d h1 hd => ?_⟩
    · rw [hsum k hk d hd]
      exact h.inside k hk d hd
    · have := h.ordered k hk
      omega
    · rw [hsum0 k (by omega)]
      exact h.ordered k hk
    · obtain ⟨hstart, hcount⟩ := h.equal k (by omega) d h1 hd
      obtain ⟨hstart', hcount'⟩ := h.equal (k + 1) hk d h1 hd
      exact ⟨hstart.trans hstart'.symm, hcount.trans hcount'.symm⟩

/-- Slices within a dataset do not wrap. -/
theorem ValidSlices.noWrap {rank nrSlices : Nat} {starts counts fileDims : Nat → UInt64}
    (hrank : 0 < rank) (h : ValidSlices rank nrSlices starts counts fileDims) :
    NoWrap rank nrSlices starts counts := by
  intro i hi
  have hk : i / rank < nrSlices := Nat.div_lt_of_lt_mul hi
  have := h.inside (i / rank) hk (i % rank) (Nat.mod_lt i hrank)
  rw [Nat.div_add_mod] at this
  exact Nat.lt_of_le_of_lt this (UInt64.toNat_lt _)

/-! ## 2. The totals -/

/-- The shape of the slices put together. -/
def shape (rank nrSlices : Nat) (counts : Nat → UInt64) (d : Nat) : Nat :=
  if d = 0 then ((List.range nrSlices).map fun k => (counts (rank * k)).toNat).sum
  else (counts d).toNat

/-- The rows to read: none if a dimension is empty, and one for a scalar. -/
def rowsToRead (rank nrSlices : Nat) (counts : Nat → UInt64) : Nat :=
  if rank = 0 then 1
  else if ∃ d < rank, shape rank nrSlices counts d = 0 then 0
  else shape rank nrSlices counts 0

/-- The iterator starts with the exact totals. -/
structure Totals (rank nrSlices : Nat) (counts : Nat → UInt64) (ms : Multislice) : Prop where
  total : ∀ d < rank, (ms.totalCount d).toNat = shape rank nrSlices counts d
  left : ms.elementsLeftTotal.toNat = rowsToRead rank nrSlices counts

theorem points_length_eq_shape (rank nrSlices : Nat) (starts counts : Nat → UInt64) :
    (points (slices rank nrSlices starts counts)).length = shape rank nrSlices counts 0 := by
  simp only [points_length, slices, List.map_map, Function.comp_def, shape, if_pos,
    Nat.mul_comm rank]

/-- **The totals of accepted slices that do not wrap are exact.** -/
theorem totals_of_accepted (ms : Multislice) {rank nrSlices : Nat}
    {starts counts fileDims : Nat → UInt64} (epb : UInt64) (hrank : 0 < rank)
    (h : slicesRefused rank nrSlices starts counts fileDims = false)
    (hwrap : NoWrapRows rank nrSlices starts counts) :
    Totals rank nrSlices counts (multisliceFields ms rank nrSlices starts counts epb) := by
  have htotal : ∀ d < rank, ((multisliceFields ms rank nrSlices starts counts epb).totalCount
      d).toNat = shape rank nrSlices counts d := by
    intro d hd
    show (totalCounts ms rank nrSlices counts d).toNat = _
    rw [totalCounts, if_pos hd]
    by_cases hzero : d = 0
    · rw [if_pos hzero, totalCount0_eq hrank h hwrap, points_length_eq_shape, hzero]
    · rw [if_neg hzero, shape, if_neg hzero]
  refine ⟨htotal, ?_⟩
  rw [elementsLeftTotal_toNat ms epb hrank h hwrap, rowsToRead, if_neg (by omega), requestedRows]
  by_cases hrow : rowElements rank counts = 0
  · obtain ⟨i, h1, hi, hzero⟩ := (rowElements_eq_zero_iff rank counts).mp hrow
    have hempty : ∃ d < rank, shape rank nrSlices counts d = 0 :=
      ⟨i, hi, by rw [shape, if_neg (by omega), hzero, UInt64.toNat_zero]⟩
    rw [if_pos hrow, if_pos hempty, List.length_nil]
  · rw [if_neg hrow, points_length_eq_shape]
    split
    · rename_i hempty
      obtain ⟨d, hd, hzero⟩ := hempty
      by_cases hd0 : d = 0
      · rw [hd0] at hzero
        exact hzero
      · rw [shape, if_neg hd0] at hzero
        refine absurd ((rowElements_eq_zero_iff rank counts).mpr ⟨d, by omega, hd, ?_⟩) hrow
        exact UInt64.toNat_inj.mp hzero
    · rfl

/-! ## 3. The function -/

/-- `multislice_init` accepts exactly the valid requests, and then has the exact totals. -/
def InitExact (ms : Multislice) (rank nrSlices : Int) (starts counts : Nat → UInt64)
    (epb : UInt64) (fileDims : Nat → UInt64) : Prop :=
  ((multisliceInit ms rank nrSlices starts counts epb fileDims).isSome ↔
      Valid rank nrSlices starts counts fileDims) ∧
    ∀ ms', multisliceInit ms rank nrSlices starts counts epb fileDims = some ms' →
      Totals rank.toNat nrSlices.toNat counts ms'

theorem multisliceInit_outOfRange (ms : Multislice) {rank nrSlices : Int}
    (starts counts : Nat → UInt64) (epb : UInt64) (fileDims : Nat → UInt64)
    (h : ¬ InRange rank nrSlices) :
    multisliceInit ms rank nrSlices starts counts epb fileDims = none := by
  unfold InRange at h
  unfold multisliceInit
  split
  · rfl
  split
  · rfl
  split
  · rfl
  split
  · rfl
  · omega

theorem multisliceInit_inRange (ms : Multislice) {rank nrSlices : Int}
    (starts counts : Nat → UInt64) (epb : UInt64) (fileDims : Nat → UInt64)
    (h : InRange rank nrSlices) (hrank : 0 < rank) :
    multisliceInit ms rank nrSlices starts counts epb fileDims =
      if slicesRefused rank.toNat nrSlices.toNat starts counts fileDims then none
      else some (multisliceFields ms rank.toNat nrSlices.toNat starts counts epb) := by
  obtain ⟨_, hle, hnr, hnr'⟩ := h
  obtain ⟨r, rfl⟩ := Int.eq_ofNat_of_zero_le (Int.le_of_lt hrank)
  obtain ⟨n, rfl⟩ := Int.eq_ofNat_of_zero_le (show 0 ≤ nrSlices by omega)
  have hr : 0 < r := by omega
  rw [multisliceInit_eq ms starts counts epb fileDims (by omega) (by omega) (by omega), if_pos hr]
  rfl

theorem initExact_scalar (ms : Multislice) {nrSlices : Int} (starts counts : Nat → UInt64)
    (epb : UInt64) (fileDims : Nat → UInt64) (h : InRange 0 nrSlices) :
    InitExact ms 0 nrSlices starts counts epb fileDims := by
  have hinit : multisliceInit ms 0 nrSlices starts counts epb fileDims =
      some (multisliceFields ms 0 0 starts counts epb) := by
    obtain ⟨_, _, hnr, hnr'⟩ := h
    obtain ⟨n, rfl⟩ := Int.eq_ofNat_of_zero_le (show 0 ≤ nrSlices by omega)
    have hrank : 0 ≤ maxDims := Nat.zero_le _
    exact multisliceInit_eq ms starts counts epb fileDims hrank (by omega) (by omega)
  refine ⟨?_, fun ms' hms' => ?_⟩
  · rw [hinit]
    exact ⟨fun _ => ⟨h, fun hpos => absurd hpos (Int.lt_irrefl 0)⟩, fun _ => rfl⟩
  · rw [hinit] at hms'
    cases hms'
    exact ⟨fun d hd => absurd hd (Nat.not_lt_zero d), rfl⟩

/-- **`multislice_init` is exact, unless a start + count wraps and the wrapped slices pass the
checks.** -/
theorem multisliceInit_exact_iff (ms : Multislice) (rank nrSlices : Int)
    (starts counts : Nat → UInt64) (epb : UInt64) (fileDims : Nat → UInt64) :
    InitExact ms rank nrSlices starts counts epb fileDims ↔
      ¬ InRange rank nrSlices ∨ rank = 0 ∨ NoWrap rank.toNat nrSlices.toNat starts counts ∨
        ¬ ChecksPass rank.toNat nrSlices.toNat starts counts fileDims := by
  by_cases hrange : InRange rank nrSlices
  swap
  · have hinit := multisliceInit_outOfRange ms starts counts epb fileDims hrange
    refine ⟨fun _ => .inl hrange, fun _ => ⟨?_, fun ms' hms' => ?_⟩⟩
    · rw [hinit]
      exact ⟨fun h => absurd h Bool.false_ne_true, fun h => absurd h.1 hrange⟩
    · rw [hinit] at hms'
      cases hms'
  by_cases hzero : rank = 0
  · subst hzero
    exact ⟨fun _ => .inr (.inl rfl), fun _ => initExact_scalar ms starts counts epb fileDims hrange⟩
  have hpos : 0 < rank := by
    have := hrange.1
    omega
  have hpos' : 0 < rank.toNat := by omega
  have hvalid : Valid rank nrSlices starts counts fileDims ↔
      ValidSlices rank.toNat nrSlices.toNat starts counts fileDims :=
    ⟨fun h => h.2 hpos, fun h => ⟨hrange, fun _ => h⟩⟩
  unfold InitExact
  rw [multisliceInit_inRange ms starts counts epb fileDims hrange hpos, hvalid]
  simp only [hrange, not_true_eq_false, hzero, false_or]
  by_cases hchecks : ChecksPass rank.toNat nrSlices.toNat starts counts fileDims
  · have href := slicesRefused_eq_false_iff.mpr hchecks
    rw [href]
    simp only [Bool.false_eq_true, if_false, Option.isSome_some, true_iff, hchecks,
      not_true_eq_false, or_false, Option.some.injEq, forall_eq']
    constructor
    · rintro ⟨h, _⟩
      exact h.noWrap hpos'
    · intro hwrap
      exact ⟨(checksPass_iff hpos' hwrap).mp hchecks,
        totals_of_accepted ms epb hpos' href (hwrap.rows hpos')⟩
  · have href : slicesRefused rank.toNat nrSlices.toNat starts counts fileDims = true := by
      rw [← Bool.not_eq_false, slicesRefused_eq_false_iff]
      exact hchecks
    rw [href]
    simp only [if_true, Option.isSome_none, Bool.false_eq_true, false_iff, hchecks,
      not_false_eq_true, or_true, iff_true, reduceCtorEq, false_implies, implies_true, and_true]
    intro h
    exact hchecks ((checksPass_iff hpos' (h.noWrap hpos')).mpr h)

/-- **A slice whose end wraps is accepted**: two rows from row 2^64 - 1 of a dataset with ten. -/
theorem wrappedSlice_accepted :
    ¬ InitExact default 1 1 (fun _ => 18446744073709551615) (fun _ => 2) 0 (fun _ => 10) := by
  rintro ⟨h, _⟩
  have hvalid := h.mp (by decide)
  have hinside := (hvalid.2 (by decide)).inside 0 (by decide) 0 (by decide)
  exact absurd hinside (by decide)

end HdfStream.Slices
