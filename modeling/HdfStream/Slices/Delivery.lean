/-
# The read loop delivers the requested rows

The chunks of the read loop are the requested rows, cut into pieces that fit into the buffer:
concatenated they are `requestedRows`, every piece has at least one row, and `H5Dread` delivers
a piece in the order in which it was selected, because the accepted slices ascend.

`rows_delivered` is the whole statement, for every request `multislice_init` accepts.  A request
whose rows are empty (a count 0 in another dimension than the first) names rows and yields
none; `emptyRow_notDelivered` is one.
-/
import HdfStream.Slices.Iterator

namespace HdfStream.Slices

open Intervals

/-! ## 1. After `multislice_init` -/

/-- The total number of rows does not wrap. -/
theorem totalCount0_eq {rank nrSlices : Nat} {starts counts fileDims : Nat → UInt64}
    (hrank : 0 < rank) (h : slicesRefused rank nrSlices starts counts fileDims = false)
    (hwrap : NoWrapRows rank nrSlices starts counts) :
    (totalCount0 rank nrSlices counts).toNat =
      (points (slices rank nrSlices starts counts)).length := by
  rw [totalCount0_toNat rank nrSlices starts counts]
  exact Nat.mod_eq_of_lt
    (Nat.lt_of_le_of_lt (points_length_le hrank h hwrap) (UInt64.toNat_lt _))

/-- **`elements_left_total` counts the requested rows.** -/
theorem elementsLeftTotal_toNat (ms : Multislice) {rank nrSlices : Nat}
    {starts counts fileDims : Nat → UInt64} (epb : UInt64) (hrank : 0 < rank)
    (h : slicesRefused rank nrSlices starts counts fileDims = false)
    (hwrap : NoWrapRows rank nrSlices starts counts) :
    (multisliceFields ms rank nrSlices starts counts epb).elementsLeftTotal.toNat =
      (requestedRows rank nrSlices starts counts).length := by
  have htotal := totalCount0_eq hrank h hwrap
  have hzero : totalCounts ms rank nrSlices counts 0 = totalCount0 rank nrSlices counts := by
    rw [totalCounts, if_pos hrank, if_pos rfl]
  simp only [multisliceFields, hzero]
  by_cases hany : ((List.range rank).any fun i => totalCounts ms rank nrSlices counts i == 0) = true
  · rw [if_pos hany, UInt64.toNat_zero, requestedRows]
    rcases (anyZero_iff ms hrank nrSlices counts).mp hany with hrows | hrow
    · rw [hrows, UInt64.toNat_zero] at htotal
      split
      · rfl
      · exact htotal
    · rw [if_pos hrow]
      rfl
  · have hrow := fun hrow => hany ((anyZero_iff ms hrank nrSlices counts).mpr (.inr hrow))
    rw [if_neg hany, if_pos hrank, htotal, requestedRows, if_neg hrow]

theorem multisliceFields_cursor (ms : Multislice) {rank nrSlices : Nat}
    {starts counts fileDims : Nat → UInt64} (epb : UInt64) (hrank : 0 < rank)
    (h : slicesRefused rank nrSlices starts counts fileDims = false)
    (hwrap : NoWrapRows rank nrSlices starts counts) (hrow : rowElements rank counts ≠ 0) :
    Cursor (slices rank nrSlices starts counts)
      (multisliceFields ms rank nrSlices starts counts epb) where
  rank_pos := hrank
  slices_eq := rfl
  inside := Nat.zero_le _
  offset_le := fun _ => Nat.zero_le _
  left := by
    rw [elementsLeftTotal_toNat ms epb hrank h hwrap, requestedRows, if_neg hrow]
    exact congrArg List.length (remaining_zero _ 0).symm

/-! ## 2. The size of a row -/

/-- The size of the dataset in bytes. -/
def datasetBytes (rank : Nat) (fileDims : Nat → UInt64) (elementSize : UInt64) : Nat :=
  ((List.range rank).map fun i => (fileDims i).toNat).prod * elementSize.toNat

theorem datasetBytes_eq {rank : Nat} (hrank : 0 < rank) (fileDims : Nat → UInt64)
    (elementSize : UInt64) :
    datasetBytes rank fileDims elementSize =
      (fileDims 0).toNat * (rowElements rank fileDims * elementSize.toNat) := by
  obtain ⟨n, rfl⟩ := Nat.exists_eq_succ_of_ne_zero (Nat.ne_of_gt hrank)
  rw [datasetBytes, List.range_eq_range', List.range'_succ, List.map_cons, List.prod_cons,
    rowElements, Nat.mul_assoc]
  rfl

/-- Where rows are requested, the size of a row does not wrap. -/
theorem rowBytes_lt {rank nrSlices : Nat} {starts counts fileDims : Nat → UInt64}
    {elementSize : UInt64} (hrank : 0 < rank) (hnr : 0 < nrSlices)
    (h : slicesRefused rank nrSlices starts counts fileDims = false)
    (hwrap : NoWrap rank nrSlices starts counts)
    (hsize : datasetBytes rank fileDims elementSize < 2 ^ 64)
    (hrows : requestedRows rank nrSlices starts counts ≠ []) :
    rowElements rank counts * elementSize.toNat < 2 ^ 64 := by
  have hle := Nat.mul_le_mul_right elementSize.toNat (rowElements_le hnr h hwrap)
  have hdim : 0 < (fileDims 0).toNat := by
    refine Nat.lt_of_lt_of_le (List.length_pos_of_ne_nil ?_)
      (points_length_le hrank h (hwrap.rows hrank))
    intro hnil
    rw [requestedRows, hnil, ite_self] at hrows
    exact hrows rfl
  rw [datasetBytes_eq hrank] at hsize
  calc rowElements rank counts * elementSize.toNat
      ≤ rowElements rank fileDims * elementSize.toNat := hle
    _ ≤ (fileDims 0).toNat * (rowElements rank fileDims * elementSize.toNat) :=
        Nat.le_mul_of_pos_left _ hdim
    _ < 2 ^ 64 := hsize

/-- `elements_per_buffer` is the number of rows the buffer holds, and it holds one. -/
theorem elementsPerBuffer_value {rank : Nat} {counts : Nat → UInt64}
    {elementSize bufferSize epb : UInt64} (hrow : rowElements rank counts ≠ 0)
    (hes : 0 < elementSize.toNat) (hfits : rowElements rank counts * elementSize.toNat < 2 ^ 64)
    (hepb : elementsPerBuffer rank counts elementSize bufferSize = .value epb) :
    (nrElements rank counts).toNat = rowElements rank counts ∧ 1 ≤ epb.toNat ∧
      epb.toNat = bufferSize.toNat / (rowElements rank counts * elementSize.toNat) := by
  have hlt : rowElements rank counts < 2 ^ 64 :=
    Nat.lt_of_le_of_lt (Nat.le_mul_of_pos_right _ hes) hfits
  have hne : (nrElements rank counts).toNat = rowElements rank counts := by
    rw [nrElements_toNat, Nat.mod_eq_of_lt hlt]
  have hbytes : (nrElements rank counts * elementSize).toNat =
      rowElements rank counts * elementSize.toNat := by
    rw [UInt64.toNat_mul, hne, Nat.mod_eq_of_lt hfits]
  have hpos : 0 < nrElements rank counts := by
    rw [UInt64.lt_iff_toNat_lt, UInt64.toNat_zero, hne]
    exact Nat.pos_of_ne_zero hrow
  rw [elementsPerBuffer, if_pos hpos] at hepb
  split at hepb
  · cases hepb
  split at hepb
  · cases hepb
  rename_i hone
  cases hepb
  refine ⟨hne, ?_, by rw [UInt64.toNat_div, hbytes]⟩
  have := mt UInt64.lt_iff_toNat_lt.mpr hone
  rw [UInt64.toNat_one] at this
  omega

/-! ## 3. The read loop -/

/-- The row ranges of a chunk, one after the other. -/
def Chunk.rows (c : Chunk) : List Nat :=
  match c.selection with
  | .all => [0]
  | .hyperslabs l => points (intervals l)

/-- A chunk that fits: `nr_elements_to_read` is the number of selected rows, at least one and at
most `elements_per_buffer`, and their bytes fit into the buffer. -/
structure Chunk.Fits (rowBytes : Nat) (epb bufferSize : UInt64) (c : Chunk) : Prop where
  hyperslabs : ∃ l, c.selection = .hyperslabs l ∧ l.length ≤ maxSelectionsPerBuffer
  selected : c.nrElementsToRead.toNat = c.rows.length
  pos : 1 ≤ c.nrElementsToRead.toNat
  perBuffer : c.nrElementsToRead.toNat ≤ epb.toNat
  bytes : c.nrBytes.toNat = c.nrElementsToRead.toNat * rowBytes
  buffer : c.nrBytes.toNat ≤ bufferSize.toNat

/-- Inside the read loop: the chunks so far and the rows behind the cursor are the rows of the
slices. -/
structure ReadInv (l : List (Nat × Nat)) (nrSlices rowBytes : Nat) (epb bufferSize : UInt64)
    (st : Reading) : Prop where
  cursor : Cursor l st.ms
  rows : st.chunks.flatMap Chunk.rows ++
    remaining l st.ms.sliceNr st.ms.offsetInSlice.toNat = points l
  fits : ∀ c ∈ st.chunks, c.Fits rowBytes epb bufferSize
  nrSlices_eq : st.ms.nrSlices = nrSlices
  perBuffer_eq : st.ms.elementsPerBuffer = epb

/-- The bytes of a chunk that fits do not wrap. -/
theorem nrBytes_toNat {nr nrElements elementSize bufferSize : UInt64} {elements : Nat}
    (hel : nrElements.toNat = elements)
    (hbuf : nr.toNat * (elements * elementSize.toNat) ≤ bufferSize.toNat)
    (hes : 0 < elementSize.toNat) :
    (nr * nrElements * elementSize).toNat = nr.toNat * (elements * elementSize.toNat) := by
  have hlt := Nat.lt_of_le_of_lt hbuf (UInt64.toNat_lt bufferSize)
  have hlt' : nr.toNat * elements < 2 ^ 64 := by
    rw [← Nat.mul_assoc] at hlt
    exact Nat.lt_of_le_of_lt (Nat.le_mul_of_pos_right _ hes) hlt
  rw [UInt64.toNat_mul, UInt64.toNat_mul, hel, Nat.mod_eq_of_lt hlt', Nat.mul_assoc,
    Nat.mod_eq_of_lt hlt]

variable {l : List (Nat × Nat)} {nrSlices elements : Nat}
  {nrElements elementSize epb bufferSize : UInt64}

/-- **A pass of the read loop** adds a chunk that fits and leaves fewer rows, or ends the loop
when no rows are left. -/
theorem ReadInv.pass (hl : ∀ s ∈ l, s.1 + s.2 < 2 ^ 64) (hel : nrElements.toNat = elements)
    (hes : 0 < elementSize.toNat) (hone : 1 ≤ epb.toNat)
    (hepb : epb.toNat = bufferSize.toNat / (elements * elementSize.toNat)) {passes : Nat}
    (hpasses : 2 ^ 64 + nrSlices ≤ passes) {st : Reading}
    (h : ReadInv l nrSlices (elements * elementSize.toNat) epb bufferSize st) :
    (∃ st', readPass passes nrElements elementSize st = .ok (.inl st') ∧
      ReadInv l nrSlices (elements * elementSize.toNat) epb bufferSize st' ∧
      st'.ms.elementsLeftTotal.toNat < st.ms.elementsLeftTotal.toNat) ∨
    ∃ chunks, readPass passes nrElements elementSize st = .ok (.inr chunks) ∧
      chunks.flatMap Chunk.rows = points l ∧
      ∀ c ∈ chunks, c.Fits (elements * elementSize.toNat) epb bufferSize := by
  by_cases hleft : st.ms.elementsLeftTotal = 0
  · have hnil : remaining l st.ms.sliceNr st.ms.offsetInSlice.toNat = [] := by
      have hlen := h.cursor.left
      rw [hleft, UInt64.toNat_zero] at hlen
      exact List.length_eq_zero_iff.mp hlen.symm
    have hrows := h.rows
    rw [hnil, List.append_nil] at hrows
    refine .inr ⟨st.chunks, ?_, hrows, h.fits⟩
    rw [readPass, multisliceSelectNextBufferData, if_pos hleft]
  · have hpos : 0 < st.ms.elementsLeftTotal.toNat :=
      Nat.pos_of_ne_zero fun hzero => hleft (UInt64.toNat_inj.mp hzero)
    have hpasses' : 2 ^ 64 + st.ms.nrSlices ≤ passes := by rw [h.nrSlices_eq]; exact hpasses
    obtain ⟨ms', sel, nr, hcall, htaken⟩ := multisliceSelectNextBufferData_data hl h.cursor
      (by rw [h.perBuffer_eq]; exact hone) hpos hpasses'
    have hfits := htaken.fits
    rw [h.perBuffer_eq] at hfits
    have hbuf : nr.toNat * (elements * elementSize.toNat) ≤ bufferSize.toNat := by
      rw [hepb] at hfits
      exact (Nat.mul_le_mul_right _ hfits).trans (Nat.div_mul_le_self _ _)
    have hbytes := nrBytes_toNat hel hbuf hes
    refine .inl ⟨_, by rw [readPass, hcall], ?_, ?_⟩
    · constructor
      · exact htaken.cursor
      · rw [List.flatMap_append, List.flatMap_singleton, List.append_assoc]
        show _ ++ (points (intervals sel) ++ _) = _
        rw [← htaken.rows]
        exact h.rows
      · intro c hc
        rcases List.mem_append.mp hc with hold | hnew
        · exact h.fits c hold
        · rw [List.mem_singleton] at hnew
          subst hnew
          exact
            { hyperslabs := ⟨sel, rfl, htaken.few⟩
              selected := htaken.selected
              pos := htaken.pos
              perBuffer := hfits
              bytes := hbytes
              buffer := by rw [hbytes]; exact hbuf }
      · exact htaken.nrSlices_eq.trans h.nrSlices_eq
      · exact htaken.perBuffer_eq.trans h.perBuffer_eq
    · have hlen := congrArg List.length htaken.rows
      rw [List.length_append, ← htaken.selected, ← h.cursor.left, ← htaken.cursor.left] at hlen
      have := htaken.pos
      show ms'.elementsLeftTotal.toNat < _
      omega

/-- **The read loop ends with the rows of the slices.** -/
theorem readLoop_rows (hl : ∀ s ∈ l, s.1 + s.2 < 2 ^ 64) (hel : nrElements.toNat = elements)
    (hes : 0 < elementSize.toNat) (hone : 1 ≤ epb.toNat)
    (hepb : epb.toNat = bufferSize.toNat / (elements * elementSize.toNat)) {ms : Multislice}
    (hms : Cursor l ms) (hstart : ms.sliceNr = 0) (hstart' : ms.offsetInSlice = 0)
    (hms' : ms.elementsPerBuffer = epb) {passes : Nat} (hpasses : 2 ^ 64 + ms.nrSlices ≤ passes) :
    ∃ chunks, readLoop passes nrElements elementSize ms = some (.ok chunks) ∧
      chunks.flatMap Chunk.rows = points l ∧
      ∀ c ∈ chunks, c.Fits (elements * elementSize.toNat) epb bufferSize := by
  refine Loop.iter_total (readPass passes nrElements elementSize)
    (ReadInv l ms.nrSlices (elements * elementSize.toNat) epb bufferSize)
    (fun chunks => chunks.flatMap Chunk.rows = points l ∧
      ∀ c ∈ chunks, c.Fits (elements * elementSize.toNat) epb bufferSize)
    (fun st => st.ms.elementsLeftTotal.toNat)
    (fun st hst => hst.pass hl hel hes hone hepb hpasses) passes _ ?_ ?_
  · constructor
    · exact hms
    · rw [hstart, hstart', UInt64.toNat_zero, remaining_zero]
      rfl
    · intro c hc
      cases hc
    · rfl
    · exact hms'
  · have := UInt64.toNat_lt ms.elementsLeftTotal
    dsimp only
    omega

/-! ## 4. The request -/

/-- `H5Dread` delivers the rows of a chunk in the order of its selections. -/
theorem h5Dread_eq {fileDims : Nat → UInt64} {c : Chunk}
    (hsel : ∃ l, c.selection = .hyperslabs l) (hsorted : c.rows.Pairwise (· < ·))
    (hinside : ∀ i ∈ c.rows, i < (fileDims 0).toNat) : h5Dread fileDims c.selection = c.rows := by
  obtain ⟨l, hl⟩ := hsel
  have hrows : c.rows = points (intervals l) := by rw [Chunk.rows, hl]
  rw [hrows] at hsorted hinside ⊢
  rw [hl]
  refine filter_range_eq hsorted hinside _ fun i => ?_
  rw [mem_points, List.any_eq_true]
  simp only [Bool.and_eq_true, decide_eq_true_eq, intervals]
  constructor
  · rintro ⟨s, hs, hi⟩
    exact ⟨_, List.mem_map.mpr ⟨s, hs, rfl⟩, hi⟩
  · rintro ⟨t, ht, hi⟩
    obtain ⟨s, hs, rfl⟩ := List.mem_map.mp ht
    exact ⟨s, hs, hi⟩

theorem mem_flatMap_rows_sublist {chunks : List Chunk} {c : Chunk} (hc : c ∈ chunks) :
    c.rows.Sublist (chunks.flatMap Chunk.rows) := by
  rw [List.flatMap_def]
  exact List.sublist_flatten_of_mem (List.mem_map_of_mem hc)

/-- The rows are delivered if the size of one of them does not wrap. -/
theorem rows_read (ms : Multislice) {ms' : Multislice} {rank nrSlices : Nat}
    {starts counts fileDims : Nat → UInt64} {elementSize bufferSize epb : UInt64} {passes : Nat}
    (hrank : 1 ≤ rank) (hes : 1 ≤ elementSize.toNat)
    (hlt : requestedRows rank nrSlices starts counts ≠ [] →
      rowElements rank counts * elementSize.toNat < 2 ^ 64)
    (hwrap : NoWrap rank nrSlices starts counts)
    (hepb : elementsPerBuffer rank counts elementSize bufferSize = .value epb)
    (hinit : multisliceInit ms rank nrSlices starts counts epb fileDims = some ms')
    (hpasses : 2 ^ 64 + nrSlices ≤ passes) :
    ∃ chunks,
      packDatasetMultiSlice passes ms rank nrSlices starts counts fileDims elementSize
          bufferSize = .packed chunks ∧
      chunks.flatMap Chunk.rows = requestedRows rank nrSlices starts counts ∧
      ∀ c ∈ chunks,
        c.Fits (rowElements rank counts * elementSize.toNat) epb bufferSize ∧
        h5Dread fileDims c.selection = c.rows := by
  obtain ⟨hnr, href, rfl⟩ := multisliceInit_some hrank hinit
  have hpack : ∀ chunks,
      readLoop passes (nrElements rank counts) elementSize
          (multisliceFields ms rank nrSlices starts counts epb) = some (.ok chunks) →
        packDatasetMultiSlice passes ms rank nrSlices starts counts fileDims elementSize
          bufferSize = .packed chunks := by
    intro chunks hloop
    rw [packDatasetMultiSlice, if_neg (by omega), hepb]
    dsimp only
    rw [hinit]
    dsimp only
    rw [hloop]
  have hleft := elementsLeftTotal_toNat ms epb hrank href (hwrap.rows hrank)
  by_cases hrows : requestedRows rank nrSlices starts counts = []
  · -- nothing to read: the first call ends the loop
    refine ⟨[], hpack [] ?_, hrows.symm, fun c hc => by cases hc⟩
    have hzero : (multisliceFields ms rank nrSlices starts counts epb).elementsLeftTotal = 0 := by
      rw [hrows] at hleft
      exact UInt64.toNat_inj.mp hleft
    obtain ⟨n, rfl⟩ := Nat.exists_eq_succ_of_ne_zero (show passes ≠ 0 by omega)
    rw [readLoop, Loop.iter, readPass, multisliceSelectNextBufferData, if_pos hzero]
  · have hrow : rowElements rank counts ≠ 0 := fun hzero => by
      rw [requestedRows, if_pos hzero] at hrows
      exact hrows rfl
    have hrowsEq : requestedRows rank nrSlices starts counts =
        points (slices rank nrSlices starts counts) := if_neg hrow
    obtain ⟨hel, hone, hepb'⟩ := elementsPerBuffer_value hrow hes (hlt hrows) hepb
    have hl : ∀ s ∈ slices rank nrSlices starts counts, s.1 + s.2 < 2 ^ 64 := fun s hs =>
      Nat.lt_of_le_of_lt (slices_inside hrank href (hwrap.rows hrank) hs) (UInt64.toNat_lt _)
    obtain ⟨chunks, hloop, hchunks, hfits⟩ := readLoop_rows hl hel hes hone hepb'
      (multisliceFields_cursor ms epb hrank href (hwrap.rows hrank) hrow) rfl rfl rfl hpasses
    refine ⟨chunks, hpack chunks hloop, hchunks.trans hrowsEq.symm, fun c hc => ⟨hfits c hc, ?_⟩⟩
    have hsub := mem_flatMap_rows_sublist hc
    rw [hchunks] at hsub
    obtain ⟨l, hsel, _⟩ := (hfits c hc).hyperslabs
    refine h5Dread_eq ⟨l, hsel⟩ ((slices_ascending href (hwrap.rows hrank)).sorted.sublist hsub) ?_
    intro i hi
    obtain ⟨s, hs, _, hi'⟩ := mem_points.mp (hsub.subset hi)
    exact Nat.lt_of_lt_of_le hi' (slices_inside hrank href (hwrap.rows hrank) hs)

/-- **The requested rows are delivered, in order, once.**  The request ends with its chunks: no
assertion fails and no loop goes on for ever.  The row ranges of the chunks, concatenated, are
the requested rows, and every chunk fits into the buffer. -/
theorem rows_delivered (ms : Multislice) {ms' : Multislice} {rank nrSlices : Nat}
    {starts counts fileDims : Nat → UInt64} {elementSize bufferSize epb : UInt64} {passes : Nat}
    (hrank : 1 ≤ rank) (hes : 1 ≤ elementSize.toNat)
    (hsize : datasetBytes rank fileDims elementSize < 2 ^ 64)
    (hwrap : NoWrap rank nrSlices starts counts)
    (hepb : elementsPerBuffer rank counts elementSize bufferSize = .value epb)
    (hinit : multisliceInit ms rank nrSlices starts counts epb fileDims = some ms')
    (hpasses : 2 ^ 64 + nrSlices ≤ passes) :
    ∃ chunks,
      packDatasetMultiSlice passes ms rank nrSlices starts counts fileDims elementSize
          bufferSize = .packed chunks ∧
      chunks.flatMap Chunk.rows = requestedRows rank nrSlices starts counts ∧
      ∀ c ∈ chunks,
        c.Fits (rowElements rank counts * elementSize.toNat) epb bufferSize ∧
        h5Dread fileDims c.selection = c.rows := by
  obtain ⟨hnr, href, _⟩ := multisliceInit_some hrank hinit
  exact rows_read ms hrank hes (rowBytes_lt hrank hnr href hwrap hsize) hwrap hepb hinit hpasses

/-- A request for rows 0, 1 and 4 of a dataset of shape (5, 2), two rows to a buffer. -/
theorem rows_delivered_twoSlices :
    ∃ chunks,
      packDatasetMultiSlice (2 ^ 64 + 2) default 2 2 (fun i => [0, 0, 4, 0].getD i 0)
          (fun i => [2, 2, 1, 2].getD i 0) (fun i => [5, 2].getD i 0) 8 32 = .packed chunks ∧
      chunks.flatMap Chunk.rows = [0, 1, 4] ∧
      ∀ c ∈ chunks,
        c.Fits 16 2 32 ∧ h5Dread (fun i => [5, 2].getD i 0) c.selection = c.rows :=
  rows_delivered default (by decide) (by decide) (by decide) (by unfold NoWrap; decide)
    (by decide) ((multisliceInit_eq _ _ _ _ _ (by decide) (by decide) (by decide)).trans
      (if_neg (by decide))) (by decide)

/-- **A row without elements is never read.**  Row 0 of a dataset of shape (1, 1) is requested
with a count 0 in the second dimension; the call delivers no row. -/
theorem emptyRow_notDelivered :
    (multisliceInit default 2 1 (fun _ => 0) (fun i => [1, 0].getD i 0) 0 (fun _ => 1)).isSome ∧
      NoWrap 2 1 (fun _ => 0) (fun i => [1, 0].getD i 0) ∧
      datasetBytes 2 (fun _ => 1) 1 < 2 ^ 64 ∧
      elementsPerBuffer 2 (fun i => [1, 0].getD i 0) 1 1 = .value 0 ∧
      ∀ passes chunks,
        packDatasetMultiSlice passes default 2 1 (fun _ => 0) (fun i => [1, 0].getD i 0)
            (fun _ => 1) 1 1 = .packed chunks →
          chunks.flatMap Chunk.rows ≠ points
            (slices 2 1 (fun _ => 0) fun i => [1, 0].getD i 0) := by
  refine ⟨by decide, by unfold NoWrap; decide, by decide, by decide, ?_⟩
  intro passes chunks hpacked
  cases passes with
  | zero => cases hpacked
  | succ passes =>
    cases hpacked
    decide

end HdfStream.Slices
