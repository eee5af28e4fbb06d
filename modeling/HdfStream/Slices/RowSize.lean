/-
# The size of a row, computed before the slices are checked

`pack_dataset_multi_slice_with_max_size` multiplies the counts of the request, as the client
sent them, into the size of a row and divides the buffer size by it; only then does
`multislice_init` compare the counts with the dataset.  The product is computed modulo
`2 ^ 64`, so a request can make the size of a row zero, which traps in the division, or make
the number of values in a row zero although it is not, which leaves `elements_per_buffer` zero
while rows are left to read; the read loop then never ends (`readLoop_spins`).

`rowSize_iff` says for which requests none of this happens.
-/
import HdfStream.Slices.Request

namespace HdfStream.Slices

/-! ## 1. The exact and the computed size -/

/-- The exact size of a row in bytes. -/
def rowBytes (rank : Nat) (counts : Nat → UInt64) (elementSize : UInt64) : Nat :=
  rowElements rank counts * elementSize.toNat

/-- The computed size of a row is the exact one modulo `2 ^ 64`. -/
theorem computedRowBytes_toNat (rank : Nat) (counts : Nat → UInt64) (elementSize : UInt64) :
    (nrElements rank counts * elementSize).toNat = rowBytes rank counts elementSize % 2 ^ 64 := by
  rw [UInt64.toNat_mul, nrElements_toNat, Nat.mod_mul_mod, rowBytes]

/-- What becomes of `elements_per_buffer`, in terms of the exact numbers. -/
theorem elementsPerBuffer_eq (rank : Nat) (counts : Nat → UInt64)
    (elementSize bufferSize : UInt64) :
    elementsPerBuffer rank counts elementSize bufferSize =
      if 2 ^ 64 ∣ rowElements rank counts then .value 0
      else if 2 ^ 64 ∣ rowBytes rank counts elementSize then .divisionByZero
      else if bufferSize.toNat < rowBytes rank counts elementSize % 2 ^ 64 then .failed
      else .value (bufferSize / (nrElements rank counts * elementSize)) := by
  have hel := nrElements_toNat rank counts
  have hbytes := computedRowBytes_toNat rank counts elementSize
  have hpos : 0 < nrElements rank counts ↔ ¬ 2 ^ 64 ∣ rowElements rank counts := by
    rw [UInt64.lt_iff_toNat_lt, UInt64.toNat_zero, hel, Nat.dvd_iff_mod_eq_zero,
      Nat.pos_iff_ne_zero]
  have hzero : nrElements rank counts * elementSize = 0 ↔
      2 ^ 64 ∣ rowBytes rank counts elementSize := by
    rw [← UInt64.toNat_inj, UInt64.toNat_zero, hbytes, Nat.dvd_iff_mod_eq_zero]
  have hone : rowBytes rank counts elementSize % 2 ^ 64 ≠ 0 →
      (bufferSize / (nrElements rank counts * elementSize) < 1 ↔
        bufferSize.toNat < rowBytes rank counts elementSize % 2 ^ 64) := by
    intro hne
    rw [UInt64.lt_iff_toNat_lt, UInt64.toNat_one, UInt64.toNat_div, hbytes,
      Nat.div_lt_iff_lt_mul (Nat.pos_of_ne_zero hne), Nat.one_mul]
  unfold elementsPerBuffer
  by_cases hR : 2 ^ 64 ∣ rowElements rank counts
  · rw [if_neg (not_not.mpr hR ∘ hpos.mp), if_pos hR]
  rw [if_pos (hpos.mpr hR), if_neg hR]
  by_cases hB : 2 ^ 64 ∣ rowBytes rank counts elementSize
  · rw [if_pos (hzero.mpr hB), if_pos hB]
  rw [if_neg (mt hzero.mp hB), if_neg hB]
  have hone := hone (mt Nat.dvd_iff_mod_eq_zero.mpr hB)
  by_cases hlt : bufferSize.toNat < rowBytes rank counts elementSize % 2 ^ 64
  · rw [if_pos (hone.mpr hlt), if_pos hlt]
  · rw [if_neg (mt hone.mp hlt), if_neg hlt]

theorem elementsPerBuffer_divisionByZero {rank : Nat} {counts : Nat → UInt64}
    {elementSize bufferSize : UInt64}
    (h : elementsPerBuffer rank counts elementSize bufferSize = .divisionByZero) :
    ¬ 2 ^ 64 ∣ rowElements rank counts ∧ 2 ^ 64 ∣ rowBytes rank counts elementSize := by
  rw [elementsPerBuffer_eq] at h
  split at h
  · cases h
  rename_i hR
  split at h
  · rename_i hB
    exact ⟨hR, hB⟩
  split at h <;> cases h

theorem elementsPerBuffer_value_zero {rank : Nat} {counts : Nat → UInt64}
    {elementSize bufferSize : UInt64}
    (h : elementsPerBuffer rank counts elementSize bufferSize = .value 0) :
    2 ^ 64 ∣ rowElements rank counts := by
  rw [elementsPerBuffer_eq] at h
  split at h
  · assumption
  split at h
  · cases h
  rename_i hB
  split at h
  · cases h
  rename_i hlt
  have hdiv := congrArg UInt64.toNat (PerBuffer.value.inj h)
  rw [UInt64.toNat_div, computedRowBytes_toNat, UInt64.toNat_zero, Nat.div_eq_zero_iff] at hdiv
  rw [Nat.dvd_iff_mod_eq_zero] at hB
  omega

/-! ## 2. The request -/

theorem packDatasetMultiSlice_failed_of {rank nrSlices : Nat}
    {starts counts fileDims : Nat → UInt64}
    {elementSize bufferSize : UInt64} (passes : Nat) (ms : Multislice)
    (h : elementsPerBuffer rank counts elementSize bufferSize = .failed ∨
      ∃ epb, elementsPerBuffer rank counts elementSize bufferSize = .value epb ∧
        multisliceInit ms rank nrSlices starts counts epb fileDims = none) :
    packDatasetMultiSlice passes ms rank nrSlices starts counts fileDims elementSize bufferSize =
      .failed := by
  unfold packDatasetMultiSlice
  split
  · rfl
  rcases h with hepb | ⟨epb, hepb, hinit⟩
  · rw [hepb]
  · rw [hepb]
    dsimp only
    rw [hinit]

/-- A request that is given up after the division has been given up by `multislice_init`. -/
theorem multisliceInit_none_of {rank nrSlices : Nat} {starts counts fileDims : Nat → UInt64}
    {elementSize bufferSize epb : UInt64} {passes : Nat} {ms : Multislice} (hnr : 1 ≤ nrSlices)
    (hepb : elementsPerBuffer rank counts elementSize bufferSize = .value epb)
    (h : packDatasetMultiSlice passes ms rank nrSlices starts counts fileDims elementSize
      bufferSize = .failed) : multisliceInit ms rank nrSlices starts counts epb fileDims =
        none := by
  rw [packDatasetMultiSlice, if_neg (by omega), hepb] at h
  dsimp only at h
  cases hinit : multisliceInit ms rank nrSlices starts counts epb fileDims with
  | none => rfl
  | some ms' =>
    rw [hinit] at h
    dsimp only at h
    split at h <;> cases h

theorem packDatasetMultiSlice_divisionByZero {rank nrSlices : Nat}
    {starts counts fileDims : Nat → UInt64} {elementSize bufferSize : UInt64} {passes : Nat}
    {ms : Multislice} (h : packDatasetMultiSlice passes ms rank nrSlices starts counts fileDims
      elementSize bufferSize = .divisionByZero) :
    elementsPerBuffer rank counts elementSize bufferSize = .divisionByZero := by
  unfold packDatasetMultiSlice at h
  split at h
  · cases h
  split at h
  · cases h
  · assumption
  split at h
  · cases h
  split at h <;> cases h

/-- The row size of a request is right: it is exact or the request is given up, the division
does not trap, and while elements are left `elements_per_buffer` is not zero. -/
structure RowSizeRight (ms : Multislice) (rank nrSlices : Nat)
    (starts counts fileDims : Nat → UInt64)
    (elementSize bufferSize : UInt64) : Prop where
  exact : (nrElements rank counts * elementSize).toNat = rowBytes rank counts elementSize ∨
    ∀ passes, packDatasetMultiSlice passes ms rank nrSlices starts counts fileDims elementSize
      bufferSize = .failed
  noTrap : ∀ passes, packDatasetMultiSlice passes ms rank nrSlices starts counts fileDims
    elementSize bufferSize ≠ .divisionByZero
  noSpin : ∀ epb ms', elementsPerBuffer rank counts elementSize bufferSize = .value epb →
    multisliceInit ms rank nrSlices starts counts epb fileDims = some ms' →
    ms'.elementsLeftTotal ≠ 0 → epb ≠ 0

/-- When it is right: the exact size fits into 64 bits; or it wraps to more than the buffer; or
the slices are refused, and the division before that has no zero divisor. -/
def RowSizeFits (rank nrSlices : Nat) (starts counts fileDims : Nat → UInt64)
    (elementSize bufferSize : UInt64) : Prop :=
  rowBytes rank counts elementSize < 2 ^ 64 ∨
    bufferSize.toNat < rowBytes rank counts elementSize % 2 ^ 64 ∨
    ((2 ^ 64 ∣ rowElements rank counts ∨ ¬ 2 ^ 64 ∣ rowBytes rank counts elementSize) ∧
      slicesRefused rank nrSlices starts counts fileDims = true)

theorem rank_pos_of_rowBytes {rank : Nat} {counts : Nat → UInt64} {elementSize : UInt64}
    (h : ¬ rowBytes rank counts elementSize < 2 ^ 64) : 0 < rank := by
  rcases Nat.eq_zero_or_pos rank with rfl | hpos
  · exact absurd (by simpa [rowBytes, rowElements] using UInt64.toNat_lt elementSize) h
  · exact hpos

/-- Rows without elements leave nothing to read. -/
theorem elementsLeftTotal_zero (ms : Multislice) {rank : Nat} (hrank : 0 < rank) (nrSlices : Nat)
    (starts : Nat → UInt64) {counts : Nat → UInt64} (epb : UInt64)
    (h : rowElements rank counts = 0) :
    (multisliceFields ms rank nrSlices starts counts epb).elementsLeftTotal = 0 :=
  if_pos ((anyZero_iff ms hrank nrSlices counts).mpr (.inr h))

/-- A row size that fits into 64 bits is right. -/
theorem rowSizeRight_of_lt (ms : Multislice) {rank nrSlices : Nat}
    (starts : Nat → UInt64) {counts : Nat → UInt64} (fileDims : Nat → UInt64)
    {elementSize : UInt64} (bufferSize : UInt64) (hes : 1 ≤ elementSize.toNat)
    (h : rowBytes rank counts elementSize < 2 ^ 64) :
    RowSizeRight ms rank nrSlices starts counts fileDims elementSize bufferSize := by
  have hle : rowElements rank counts ≤ rowBytes rank counts elementSize :=
    Nat.le_mul_of_pos_right _ hes
  refine ⟨.inl ?_, fun passes htrap => ?_, fun epb ms' hepb hinit hleft hzero => ?_⟩
  · rw [computedRowBytes_toNat, Nat.mod_eq_of_lt h]
  · obtain ⟨hR, hB⟩ := elementsPerBuffer_divisionByZero (packDatasetMultiSlice_divisionByZero htrap)
    have hzero := Nat.eq_zero_of_dvd_of_lt hB h
    exact hR (by rw [show rowElements rank counts = 0 by omega]; exact Nat.dvd_zero _)
  · subst hzero
    have hzero := Nat.eq_zero_of_dvd_of_lt (elementsPerBuffer_value_zero hepb)
      (Nat.lt_of_le_of_lt hle h)
    have hrank : 0 < rank := by
      obtain ⟨i, _, hi, _⟩ := (rowElements_eq_zero_iff rank counts).mp hzero
      omega
    obtain ⟨_, _, rfl⟩ := multisliceInit_some hrank hinit
    exact hleft (elementsLeftTotal_zero ms hrank nrSlices starts 0 hzero)

/-- A request that is given up has no row size to get wrong. -/
theorem rowSizeRight_of_failed {ms : Multislice} {rank nrSlices : Nat}
    {starts counts fileDims : Nat → UInt64} {elementSize bufferSize : UInt64}
    (h : elementsPerBuffer rank counts elementSize bufferSize = .failed ∨
      ∃ epb, elementsPerBuffer rank counts elementSize bufferSize = .value epb ∧
        multisliceInit ms rank nrSlices starts counts epb fileDims = none) :
    RowSizeRight ms rank nrSlices starts counts fileDims elementSize bufferSize := by
  have hfailed := fun passes => packDatasetMultiSlice_failed_of passes ms h
  refine ⟨.inr hfailed, fun passes htrap => ?_, fun epb ms' hepb hinit => ?_⟩
  · rw [hfailed] at htrap
    cases htrap
  · rcases h with hepb' | ⟨epb', hepb', hinit'⟩
    · rw [hepb'] at hepb
      cases hepb
    · rw [hepb'] at hepb
      cases hepb
      rw [hinit'] at hinit
      cases hinit

/-- **The row size is right exactly if it fits, or the request is given up before the size
matters.** -/
theorem rowSize_iff (ms : Multislice) {rank nrSlices : Nat} (starts counts fileDims : Nat → UInt64)
    {elementSize : UInt64} (bufferSize : UInt64) (hrank : rank ≤ maxDims) (hnr : 1 ≤ nrSlices)
    (hnr' : nrSlices ≤ maxSlices) (hes : 1 ≤ elementSize.toNat) :
    RowSizeRight ms rank nrSlices starts counts fileDims elementSize bufferSize ↔
      RowSizeFits rank nrSlices starts counts fileDims elementSize bufferSize := by
  by_cases hlt : rowBytes rank counts elementSize < 2 ^ 64
  · exact ⟨fun _ => .inl hlt, fun _ => rowSizeRight_of_lt ms starts fileDims bufferSize hes hlt⟩
  have hpos := rank_pos_of_rowBytes hlt
  have hinit : ∀ epb, multisliceInit ms rank nrSlices starts counts epb fileDims = none ↔
      slicesRefused rank nrSlices starts counts fileDims = true := by
    intro epb
    rw [multisliceInit_eq ms starts counts epb fileDims hrank hnr hnr', if_pos hpos]
    split
    · simp only [*]
    · simp only [*, reduceCtorEq]
  have heq := elementsPerBuffer_eq rank counts elementSize bufferSize
  constructor
  · intro h
    have hfailed : ∀ passes, packDatasetMultiSlice passes ms rank nrSlices starts counts fileDims
        elementSize bufferSize = .failed := by
      rcases h.exact with hexact | hfailed
      · rw [computedRowBytes_toNat] at hexact
        have := Nat.mod_lt (rowBytes rank counts elementSize) (Nat.two_pow_pos 64)
        omega
      · exact hfailed
    have hrefused : ∀ epb, elementsPerBuffer rank counts elementSize bufferSize = .value epb →
        slicesRefused rank nrSlices starts counts fileDims = true := fun epb hepb =>
      (hinit epb).mp (multisliceInit_none_of hnr hepb (hfailed 0))
    split at heq
    · rename_i hR
      exact .inr (.inr ⟨.inl hR, hrefused _ heq⟩)
    split at heq
    · have htrap := hfailed 0
      rw [packDatasetMultiSlice, if_neg (by omega), heq] at htrap
      cases htrap
    rename_i hB
    split at heq
    · rename_i hbuf
      exact .inr (.inl hbuf)
    · exact .inr (.inr ⟨.inr hB, hrefused _ heq⟩)
  · rintro (hfits | hbuf | ⟨hdiv, href⟩)
    · exact absurd hfits hlt
    · have hB : ¬ 2 ^ 64 ∣ rowBytes rank counts elementSize := fun hB => by
        rw [Nat.dvd_iff_mod_eq_zero] at hB
        omega
      have hR : ¬ 2 ^ 64 ∣ rowElements rank counts := fun hR => hB (Dvd.dvd.mul_right hR _)
      rw [if_neg hR, if_neg hB, if_pos hbuf] at heq
      exact rowSizeRight_of_failed (.inl heq)
    · have hgiven : ∀ epb, elementsPerBuffer rank counts elementSize bufferSize = .value epb →
          RowSizeRight ms rank nrSlices starts counts fileDims elementSize bufferSize :=
        fun epb hepb => rowSizeRight_of_failed (.inr ⟨epb, hepb, (hinit epb).mpr href⟩)
      split at heq
      · exact hgiven _ heq
      split at heq
      · rename_i hR hB
        exact absurd hdiv (not_or.mpr ⟨hR, not_not.mpr hB⟩)
      split at heq
      · exact rowSizeRight_of_failed (.inl heq)
      · exact hgiven _ heq

/-- Ten rows of ten doubles have the right size. -/
theorem rowSize_iff_tenRows :
    RowSizeRight default 2 1 (fun _ => 0) (fun _ => 10) (fun _ => 10) 8 1024 :=
  (rowSize_iff default _ _ _ _ (by decide) (by decide) (by decide) (by decide)).mpr
    (.inl (by decide))

/-- **A row of 2^61 doubles traps**: its size wraps to zero before the slice is refused. -/
theorem rowSize_traps :
    ¬ RowSizeRight default 2 1 (fun _ => 0) (fun i => [1, 2305843009213693952].getD i 0)
      (fun _ => 10) 8 1024 := by
  intro h
  have hepb : elementsPerBuffer (2 : Nat) (fun i => [1, 2305843009213693952].getD i 0) 8 1024 =
      .divisionByZero := by decide
  refine h.noTrap 0 ?_
  rw [packDatasetMultiSlice, if_neg (by decide), hepb]

/-! ## 3. The loop that never ends -/

/-- With `elements_per_buffer` zero a call selects nothing and leaves the iterator as it was. -/
theorem multisliceSelectNextBufferData_none {ms : Multislice} (hepb : ms.elementsPerBuffer = 0)
    (hleft : ms.elementsLeftTotal ≠ 0) (hrank : ms.rank ≠ 0) (passes : Nat) :
    multisliceSelectNextBufferData (passes + 1) ms = .ok (.data ms (.hyperslabs []) 0) := by
  have hsize : minSize ms.elementsPerBuffer ms.elementsLeftTotal = 0 := by
    rw [← UInt64.toNat_inj, minSize_toNat, hepb, UInt64.toNat_zero, Nat.zero_min]
  rw [multisliceSelectNextBufferData, if_neg hleft, if_neg hrank, hsize]
  rfl

/-- **While elements are left and `elements_per_buffer` is zero, the read loop never ends.** -/
theorem readLoop_spins {ms : Multislice} (hepb : ms.elementsPerBuffer = 0)
    (hleft : ms.elementsLeftTotal ≠ 0) (hrank : ms.rank ≠ 0) (nrElements elementSize : UInt64)
    (passes : Nat) : readLoop passes nrElements elementSize ms = none := by
  cases passes with
  | zero => rfl
  | succ n =>
    have hpass : ∀ (fuel : Nat) (chunks : List Chunk),
        Loop.iter (readPass (n + 1) nrElements elementSize) fuel { ms := ms, chunks := chunks } =
          none := by
      intro fuel
      induction fuel with
      | zero => intro chunks; rfl
      | succ fuel ih =>
        intro chunks
        rw [Loop.iter, readPass, multisliceSelectNextBufferData_none hepb hleft hrank n]
        exact ih _
    exact hpass (n + 1) []

end HdfStream.Slices
