/-
# A request whose rank is not that of the dataset

`pack_dataset_multi_slice_with_max_size` takes the rank from the request and never compares it
with the rank of the dataset.  What it has from the dataset is `file_dims`, of which
`H5Sget_simple_extent_dims` sets as many entries as the dataset has dimensions, and the selections
`H5Sselect_hyperslab` makes in the file dataspace, which reads as many entries of `ms.start` and
`ms.count` as the dataset has dimensions.  The entries nobody has set may be anything.

This file is the model of the function over a dataset with a rank of its own: what is selected in
the file (`select_slices`), and the comparison of the numbers of points in `H5Dread`, which is all
that can tell the ranks apart after the bounds checks.  `wrongRank_iff` says for which requests
the function returns a value other than zero, and `oneElement_accepted` is a request of the wrong
rank for which it returns zero.

Whether the header and the chunks can be packed depends on the data type and on the values; it is
a parameter (`Packing`).  `H5Sget_simple_extent_dims` succeeds, as do the other calls of the HDF5
library whose outcome does not depend on a rank.
-/
import HdfStream.Slices.Delivery
import HdfStream.Slices.RowSize
import Mathlib.Data.List.Dedup

namespace HdfStream.Slices

open Intervals

/-! ## 1. The file dataspace -/

/-- The dataspace of a dataset. -/
structure Dataspace where
  rank : Nat
  dims : Nat → UInt64

/-- `file_dims` after `H5Sget_simple_extent_dims`, which sets one entry for each dimension. -/
def Dataspace.fileDims (space : Dataspace) (fileDims : Nat → UInt64) : Nat → UInt64 :=
  fun i => if i < space.rank then space.dims i else fileDims i

/-- The rows of a union of hyperslabs. -/
def unionRows (l : List (UInt64 × UInt64)) : Nat := (points (intervals l)).dedup.length

/-- The number of points selected in the file; `count` are the counts in the dimensions but the
first. -/
def Dataspace.npoints (space : Dataspace) (count : Nat → UInt64) : Selection → Nat
  | .all => ((List.range space.rank).map fun i => (space.dims i).toNat).prod
  | .hyperslabs l => unionRows l * rowElements space.rank count

/-- `select_slices` returns 0.  A scalar dataspace has no hyperslabs, so `H5Sselect_hyperslab`
fails there.  Unless `NDEBUG` is defined the number of selected points is checked. -/
def selectSlices (ndebug : Bool) (space : Dataspace) (count : Nat → UInt64) : Selection → Bool
  | .all => true
  | .hyperslabs l =>
    (decide (0 < space.rank) || l.isEmpty) &&
      (ndebug ||
        decide (((l.map fun s => s.2.toNat).sum * rowElements space.rank count) % 2 ^ 64 =
          space.npoints count (.hyperslabs l) % 2 ^ 64))

/-- The number of points of the memory dataspace, which has the rank of the request. -/
def memPoints (rank : Nat) (counts : Nat → UInt64) (nrElementsToRead : UInt64) : Nat :=
  if 0 < rank then nrElementsToRead.toNat * rowElements rank counts else 1

/-! ## 2. The request -/

/-- Whether `pack_contents_header` and `pack_contents_body` return 0. -/
structure Packing where
  header : Bool
  body : Chunk → Bool

/-- What does not change in the read loop. -/
structure Request where
  ndebug : Bool
  space : Dataspace
  packing : Packing
  rank : Nat
  counts : Nat → UInt64
  elementSize : UInt64

/-- The chunk for a selection. -/
def Request.chunk (req : Request) (selection : Selection) (nrElementsToRead : UInt64) : Chunk where
  selection := selection
  nrElementsToRead := nrElementsToRead
  nrBytes := nrElementsToRead * nrElements req.rank req.counts * req.elementSize

/-- A buffer full of rows is selected, read and packed: `H5Dread` fails exactly if the numbers of
points in the file and in memory differ. -/
def Request.delivered (req : Request) (ms : Multislice) (selection : Selection)
    (nrElementsToRead : UInt64) : Bool :=
  selectSlices req.ndebug req.space ms.count selection &&
    decide (req.space.npoints ms.count selection =
      memPoints req.rank req.counts nrElementsToRead) &&
    req.packing.body (req.chunk selection nrElementsToRead)

/-- One pass of the read loop; it is left with the chunks, or with `none` for `goto cleanup`. -/
def Request.readPass (req : Request) (passes : Nat) (st : Reading) :
    Except Stop (Reading ⊕ Option (List Chunk)) :=
  match multisliceSelectNextBufferData passes st.ms with
  | .error e => .error e
  | .ok .atEnd => .ok (.inr (some st.chunks))
  | .ok (.data ms selection nrElementsToRead) =>
    if req.delivered ms selection nrElementsToRead then
      .ok (.inl { ms := ms, chunks := st.chunks ++ [req.chunk selection nrElementsToRead] })
    else .ok (.inr none)

/-- `pack_dataset_multi_slice_with_max_size` for a dataset of any rank.  `ms` and `fileDims` are
the uninitialised variables on the stack. -/
def Request.packDataset (req : Request) (passes : Nat) (ms : Multislice) (nrSlices : Nat)
    (starts fileDims : Nat → UInt64) (bufferSize : UInt64) : Outcome :=
  if nrSlices < 1 then .failed
  else
    match elementsPerBuffer req.rank req.counts req.elementSize bufferSize with
    | .failed => .failed
    | .divisionByZero => .divisionByZero
    | .value epb =>
      match multisliceInit ms req.rank nrSlices starts req.counts epb
          (req.space.fileDims fileDims) with
      | none => .failed
      | some ms =>
        if ¬ req.packing.header then .failed
        else
          match Loop.iter (req.readPass passes) passes { ms := ms, chunks := [] } with
          | none => .stopped .passes
          | some (.error e) => .stopped e
          | some (.ok none) => .failed
          | some (.ok (some chunks)) => .packed chunks

/-- The request returns a value other than zero. -/
def Request.NonZero (req : Request) (ms : Multislice) (nrSlices : Nat)
    (starts fileDims : Nat → UInt64) (bufferSize : UInt64) : Prop :=
  ∃ passes, req.packDataset passes ms nrSlices starts fileDims bufferSize = .failed

/-! ## 3. When it does -/

/-- The buffers the iterator fills, counted from 0. -/
def buffer (passes : Nat) : Nat → Multislice → Option (Multislice × Selection × UInt64)
  | n, ms =>
    match multisliceSelectNextBufferData passes ms with
    | .ok (.data ms' selection nr) =>
      match n with
      | 0 => some (ms', selection, nr)
      | n + 1 => buffer passes n ms'
    | _ => none

/-- Some buffer is not delivered. -/
def Request.Undelivered (req : Request) (ms : Multislice) : Prop :=
  ∃ passes n ms' selection nr, buffer passes n ms = some (ms', selection, nr) ∧
    req.delivered ms' selection nr = false

/-- The bounds checks of `multislice_init` refuse the request. -/
def Request.Refused (req : Request) (nrSlices : Nat) (starts fileDims : Nat → UInt64) : Prop :=
  maxDims < req.rank ∨ maxSlices < nrSlices ∨
    slicesRefused req.rank (if 0 < req.rank then nrSlices else 0) starts req.counts
      (req.space.fileDims fileDims) = true

/-- The counts of the hyperslabs in the dimensions but the first: as many as the request has
dimensions, and then what was in `ms.count`. -/
def Request.selectCount (req : Request) (ms : Multislice) : Nat → UInt64 :=
  fun i => if decide (1 ≤ i) && decide (i < req.rank) then req.counts i else ms.count i

/-- The numbers of points differ.  A request of rank 0 reads all of the dataset as one value.  Any
other request selects rows, if there are rows and the buffer has space for one, and their size
in the file is not their size in memory. -/
def Request.SizesDiffer (req : Request) (ms : Multislice) (nrSlices : Nat) (starts : Nat → UInt64)
    (epb : UInt64) : Prop :=
  if req.rank = 0 then req.space.npoints ms.count .all ≠ 1
  else requestedRows req.rank nrSlices starts req.counts ≠ [] ∧ epb ≠ 0 ∧
    (req.space.rank = 0 ∨
      rowElements req.space.rank (req.selectCount ms) ≠ rowElements req.rank req.counts)

/-- The request is given up: no row fits into the buffer, the bounds checks refuse it, it cannot
be packed, or what `late` says of `elements_per_buffer`. -/
def Request.GivenUp (req : Request) (nrSlices : Nat) (starts fileDims : Nat → UInt64)
    (bufferSize : UInt64) (late : UInt64 → Prop) : Prop :=
  elementsPerBuffer req.rank req.counts req.elementSize bufferSize = .failed ∨
    ∃ epb, elementsPerBuffer req.rank req.counts req.elementSize bufferSize = .value epb ∧
      (req.Refused nrSlices starts fileDims ∨ req.packing.header = false ∨ late epb)

/-- The iterator `multislice_init` makes. -/
def Request.iterator (req : Request) (ms : Multislice) (nrSlices : Nat) (starts : Nat → UInt64)
    (epb : UInt64) : Multislice :=
  multisliceFields ms req.rank (if 0 < req.rank then nrSlices else 0) starts req.counts epb

variable {req : Request}

/-! ### The read loop -/

theorem multisliceSelectNextBufferData_mono {passes passes' : Nat} (hle : passes ≤ passes')
    {ms : Multislice} {r : Selected} (h : multisliceSelectNextBufferData passes ms = .ok r) :
    multisliceSelectNextBufferData passes' ms = .ok r := by
  rw [multisliceSelectNextBufferData] at h ⊢
  split at h
  · rename_i hleft
    rw [if_pos hleft]
    exact h
  rename_i hleft
  rw [if_neg hleft]
  split at h
  · rename_i hrank
    rw [if_pos hrank]
    exact h
  rename_i hrank
  rw [if_neg hrank]
  split at h
  · cases h
  · cases h
  · rename_i hiter
    rw [Loop.iter_mono selectPass hle hiter]
    exact h

theorem buffer_mono {passes passes' : Nat} (hle : passes ≤ passes') {n : Nat} {ms : Multislice}
    {b : Multislice × Selection × UInt64} (h : buffer passes n ms = some b) :
    buffer passes' n ms = some b := by
  induction n generalizing ms with
  | zero =>
    rw [buffer] at h ⊢
    split at h
    · rename_i hdata
      rw [multisliceSelectNextBufferData_mono hle hdata]
      exact h
    · cases h
  | succ n ih =>
    rw [buffer] at h ⊢
    split at h
    · rename_i hdata
      rw [multisliceSelectNextBufferData_mono hle hdata]
      exact ih h
    · cases h

/-- A loop that is left for `cleanup` has come to a buffer that is not delivered. -/
theorem undelivered_of_loop {passes : Nat} :
    ∀ (fuel : Nat) (st : Reading), Loop.iter (req.readPass passes) fuel st = some (.ok none) →
      req.Undelivered st.ms := by
  intro fuel
  induction fuel with
  | zero => intro st h; cases h
  | succ fuel ih =>
    intro st h
    rw [Loop.iter, Request.readPass] at h
    split at h
    · cases h
    · rename_i hpass
      split at hpass
      · cases hpass
      · cases hpass
        cases h
      · rename_i ms selection nr hdata
        split at hpass
        · cases hpass
        · rename_i hdelivered
          refine ⟨passes, 0, ms, selection, nr, ?_, Bool.eq_false_iff.mpr hdelivered⟩
          rw [buffer, hdata]
    · rename_i st' hpass
      split at hpass
      · cases hpass
      · cases hpass
      · rename_i ms selection nr hdata
        split at hpass
        · cases hpass
          obtain ⟨passes', n, ms', selection', nr', hbuffer, hnot⟩ := ih _ h
          refine ⟨max passes passes', n + 1, ms', selection', nr', ?_, hnot⟩
          rw [buffer, multisliceSelectNextBufferData_mono (Nat.le_max_left _ _) hdata]
          exact buffer_mono (Nat.le_max_right _ _) hbuffer
        · cases hpass

/-- A loop with a buffer that is not delivered is left for `cleanup`. -/
theorem loop_of_undelivered {passes n : Nat} {ms' : Multislice} {selection : Selection}
    {nr : UInt64}
    (hnot : req.delivered ms' selection nr = false) :
    ∀ (fuel : Nat) (ms : Multislice) (chunks : List Chunk), n < fuel →
      buffer passes n ms = some (ms', selection, nr) →
      Loop.iter (req.readPass passes) fuel { ms := ms, chunks := chunks } = some (.ok none) := by
  induction n with
  | zero =>
    intro fuel ms chunks hlt h
    obtain ⟨fuel, rfl⟩ := Nat.exists_eq_succ_of_ne_zero (Nat.ne_of_gt hlt)
    rw [buffer] at h
    split at h
    · rename_i hdata
      cases h
      rw [Loop.iter, Request.readPass]
      dsimp only
      rw [hdata]
      dsimp only
      rw [hnot]
      rfl
    · cases h
  | succ n ih =>
    intro fuel ms chunks hlt h
    obtain ⟨fuel, rfl⟩ := Nat.exists_eq_succ_of_ne_zero (Nat.ne_of_gt (Nat.zero_lt_of_lt hlt))
    rw [buffer] at h
    split at h
    · rename_i ms₁ selection₁ nr₁ hdata
      rw [Loop.iter, Request.readPass]
      dsimp only
      rw [hdata]
      dsimp only
      by_cases hfirst : req.delivered ms₁ selection₁ nr₁ = true
      · rw [if_pos hfirst]
        exact ih fuel ms₁ _ (by omega) h
      · rw [if_neg hfirst]
    · cases h

theorem loop_iff_undelivered (ms : Multislice) :
    (∃ passes, Loop.iter (req.readPass passes) passes { ms := ms, chunks := [] } =
      some (.ok none)) ↔ req.Undelivered ms := by
  constructor
  · rintro ⟨passes, h⟩
    exact undelivered_of_loop passes _ h
  · rintro ⟨passes, n, ms', selection, nr, hbuffer, hnot⟩
    have hlt : n < max passes (n + 1) := Nat.lt_of_lt_of_le n.lt_succ_self (Nat.le_max_right _ _)
    exact ⟨_, loop_of_undelivered hnot _ ms [] hlt (buffer_mono (Nat.le_max_left _ _) hbuffer)⟩

/-! ### The whole function -/

theorem Request.init_eq (req : Request) (ms : Multislice) {nrSlices : Nat} (hnr : 1 ≤ nrSlices)
    (starts fileDims : Nat → UInt64) (epb : UInt64) :
    (req.Refused nrSlices starts fileDims ∧
        multisliceInit ms req.rank nrSlices starts req.counts epb (req.space.fileDims fileDims) =
          none) ∨
      (¬ req.Refused nrSlices starts fileDims ∧
        multisliceInit ms req.rank nrSlices starts req.counts epb (req.space.fileDims fileDims) =
          some (req.iterator ms nrSlices starts epb)) := by
  by_cases hrank : maxDims < req.rank
  · refine .inl ⟨.inl hrank, ?_⟩
    rw [multisliceInit, if_pos (by omega)]
  by_cases hslices : maxSlices < nrSlices
  · refine .inl ⟨.inr (.inl hslices), ?_⟩
    rw [multisliceInit, if_neg (by omega), if_neg (by omega), if_pos (by omega)]
  rw [multisliceInit_eq ms starts req.counts epb _ (by omega) hnr (by omega)]
  by_cases href : slicesRefused req.rank (if 0 < req.rank then nrSlices else 0) starts req.counts
      (req.space.fileDims fileDims) = true
  · exact .inl ⟨.inr (.inr href), if_pos href⟩
  · refine .inr ⟨?_, if_neg href⟩
    rintro (h | h | h)
    · exact hrank h
    · exact hslices h
    · exact href h

/-- **The function returns a value other than zero exactly if it gives the request up before the
read loop or comes to a buffer that is not delivered.** -/
theorem nonZero_iff (ms : Multislice) {nrSlices : Nat} (starts fileDims : Nat → UInt64)
    (bufferSize : UInt64) (hnr : 1 ≤ nrSlices) :
    req.NonZero ms nrSlices starts fileDims bufferSize ↔
      req.GivenUp nrSlices starts fileDims bufferSize fun epb =>
        req.Undelivered (req.iterator ms nrSlices starts epb) := by
  unfold Request.NonZero Request.GivenUp
  cases hepb : elementsPerBuffer req.rank req.counts req.elementSize bufferSize with
  | failed =>
    refine ⟨fun _ => .inl rfl, fun _ => ⟨0, ?_⟩⟩
    rw [Request.packDataset, if_neg (by omega), hepb]
  | divisionByZero =>
    constructor
    · rintro ⟨passes, h⟩
      rw [Request.packDataset, if_neg (by omega), hepb] at h
      cases h
    · rintro (h | ⟨_, h, _⟩) <;> cases h
  | value epb =>
    have hpack : ∀ passes, req.packDataset passes ms nrSlices starts fileDims bufferSize = .failed ↔
        req.Refused nrSlices starts fileDims ∨ req.packing.header = false ∨
          Loop.iter (req.readPass passes) passes
            { ms := req.iterator ms nrSlices starts epb, chunks := [] } = some (.ok none) := by
      intro passes
      rw [Request.packDataset, if_neg (by omega), hepb]
      dsimp only
      rcases req.init_eq ms hnr starts fileDims epb with ⟨href, hinit⟩ | ⟨href, hinit⟩
      · rw [hinit]
        exact ⟨fun _ => .inl href, fun _ => rfl⟩
      rw [hinit]
      dsimp only
      simp only [href, false_or]
      cases hheader : req.packing.header with
      | false => simp
      | true =>
        simp only [Bool.true_eq_false, false_or, not_true_eq_false, if_false]
        split <;> rename_i hiter <;> rw [hiter] <;> simp
    simp only [hpack]
    constructor
    · rintro ⟨passes, href | hheader | hloop⟩
      · exact .inr ⟨epb, rfl, .inl href⟩
      · exact .inr ⟨epb, rfl, .inr (.inl hheader)⟩
      · exact .inr ⟨epb, rfl, .inr (.inr ((loop_iff_undelivered _).mp ⟨passes, hloop⟩))⟩
    · rintro (h | ⟨epb', h, hlate⟩)
      · cases h
      · cases h
        rcases hlate with href | hheader | hundelivered
        · exact ⟨0, .inl href⟩
        · exact ⟨0, .inr (.inl hheader)⟩
        · obtain ⟨passes, hloop⟩ := (loop_iff_undelivered _).mpr hundelivered
          exact ⟨passes, .inr (.inr hloop)⟩

/-! ## 4. Requests whose rows do not wrap -/

/-- A pass that does not fail an assertion takes rows or leaves the loop. -/
theorem selectPass_cases {st : Selecting} {x : Selecting ⊕ Selecting}
    (h : selectPass st = .ok x) : x = .inl (afterPass st) ∨ x = .inr st := by
  by_cases hspace : 0 < st.elementsLeftInBuffer ∧ st.selections.length < maxSelectionsPerBuffer
  · by_cases hslice : st.ms.sliceNr < st.ms.nrSlices
    · have hnext : (if st.ms.counts (st.ms.sliceNr * st.ms.rank) ≤ st.ms.offsetInSlice + takes st
          then st.ms.sliceNr + 1 else st.ms.sliceNr) ≤ st.ms.nrSlices := by
        split
        · exact hslice
        · exact Nat.le_of_lt hslice
      unfold selectPass at h
      rw [if_pos hspace, if_neg (not_not.mpr hslice)] at h
      have h := (if_neg (not_not.mpr hnext)).symm.trans h
      by_cases hbuffer : takes st ≤ st.elementsLeftInBuffer
      · have h := (if_neg (not_not.mpr hbuffer)).symm.trans h
        by_cases htotal : takes st ≤ st.ms.elementsLeftTotal
        · cases (if_neg (not_not.mpr htotal)).symm.trans h
          exact .inl rfl
        · cases (if_pos htotal).symm.trans h
      · cases (if_pos hbuffer).symm.trans h
    · rw [selectPass, if_pos hspace, if_pos hslice] at h
      cases h
  · rw [selectPass, if_neg hspace] at h
    cases h
    exact .inr rfl

/-- The selection loop leaves the counts of the other dimensions alone. -/
theorem selectPass_count {st : Selecting} {x : Selecting ⊕ Selecting}
    (h : selectPass st = .ok x) : (x.elim (·.ms.count) (·.ms.count)) = st.ms.count := by
  rcases selectPass_cases h with rfl | rfl <;> rfl

theorem multisliceSelectNextBufferData_count {passes : Nat} {ms ms' : Multislice}
    {selection : Selection} {nr : UInt64}
    (h : multisliceSelectNextBufferData passes ms = .ok (.data ms' selection nr)) :
    ms'.count = ms.count := by
  rw [multisliceSelectNextBufferData] at h
  split at h
  · cases h
  split at h
  · split at h <;> cases h
    rfl
  split at h
  · cases h
  · cases h
  · rename_i st hiter
    cases h
    refine Loop.iter_partial selectPass (fun st => st.ms.count = ms.count)
      (fun st => st.ms.count = ms.count) ?_ ?_ passes _ _ rfl hiter
    · intro s s' hs hstep
      exact (selectPass_count hstep).trans hs
    · intro s r hs hstep
      exact (selectPass_count hstep).trans hs

/-- Rows that are selected once are counted once. -/
theorem unionRows_eq {l : List (UInt64 × UInt64)} (h : (points (intervals l)).Nodup) :
    unionRows l = (l.map fun s => s.2.toNat).sum := by
  rw [unionRows, h.dedup, points_length, intervals, List.map_map]
  rfl

/-- **A buffer full of rows is delivered exactly if a row has the same size in the file and in
memory.** -/
theorem delivered_iff {l : List (Nat × Nat)} {ms ms' : Multislice}
    {selections : List (UInt64 × UInt64)} {nr : UInt64} (hrank : 0 < req.rank)
    (hbody : ∀ c, req.packing.body c = true) (htaken : Taken l ms ms' selections nr)
    (hnodup : (points (intervals selections)).Nodup) :
    req.delivered ms' (.hyperslabs selections) nr = true ↔ 0 < req.space.rank ∧
      rowElements req.space.rank ms'.count = rowElements req.rank req.counts := by
  have hpos := htaken.pos
  have hrows : unionRows selections = nr.toNat := by
    rw [htaken.selected, unionRows, hnodup.dedup]
  have hsum := (unionRows_eq hnodup).symm.trans hrows
  have hne : selections ≠ [] := by
    intro hnil
    rw [hnil] at hrows
    change 0 = _ at hrows
    omega
  have hsize : nr.toNat * rowElements req.space.rank ms'.count =
      nr.toNat * rowElements req.rank req.counts ↔
        rowElements req.space.rank ms'.count = rowElements req.rank req.counts :=
    Nat.mul_right_inj (by omega)
  simp only [Request.delivered, selectSlices, Dataspace.npoints, memPoints, if_pos hrank, hbody,
    hrows, hsum, List.isEmpty_iff, hne, Bool.and_eq_true, Bool.or_eq_true, decide_eq_true_eq,
    or_false, or_true, and_true, hsize]

/-- Rows are left behind the cursor of a request, each of them once. -/
structure Ahead (req : Request) (l : List (Nat × Nat)) (nrSlices : Nat) (count : Nat → UInt64)
    (epb : UInt64) (ms : Multislice) : Prop where
  cursor : Cursor l ms
  nodup : (remaining l ms.sliceNr ms.offsetInSlice.toNat).Nodup
  nrSlices_eq : ms.nrSlices = nrSlices
  count_eq : ms.count = count
  perBuffer_eq : ms.elementsPerBuffer = epb

variable {l : List (Nat × Nat)} {nrSlices : Nat} {count : Nat → UInt64} {epb : UInt64}

/-- One call of the iterator. -/
theorem Ahead.next (hl : ∀ s ∈ l, s.1 + s.2 < 2 ^ 64) {ms : Multislice}
    (h : Ahead req l nrSlices count epb ms) (hepb : epb ≠ 0) (hleft : ms.elementsLeftTotal ≠ 0)
    {passes : Nat} (hpasses : 2 ^ 64 + nrSlices ≤ passes) :
    ∃ ms' selections nr, multisliceSelectNextBufferData passes ms =
        .ok (.data ms' (.hyperslabs selections) nr) ∧ Taken l ms ms' selections nr ∧
      (points (intervals selections)).Nodup ∧ Ahead req l nrSlices count epb ms' := by
  have hpos : ∀ {x : UInt64}, x ≠ 0 → 0 < x.toNat := fun hx =>
    Nat.pos_of_ne_zero fun hzero => hx (UInt64.toNat_inj.mp hzero)
  obtain ⟨ms', selections, nr, hcall, htaken⟩ := multisliceSelectNextBufferData_data hl h.cursor
    (by rw [h.perBuffer_eq]; exact hpos hepb) (hpos hleft)
    (show 2 ^ 64 + ms.nrSlices ≤ passes by rw [h.nrSlices_eq]; exact hpasses)
  have hnodup := h.nodup
  rw [htaken.rows, List.nodup_append] at hnodup
  refine ⟨ms', selections, nr, hcall, htaken, hnodup.1, ?_⟩
  exact
    { cursor := htaken.cursor
      nodup := hnodup.2.1
      nrSlices_eq := htaken.nrSlices_eq.trans h.nrSlices_eq
      count_eq := (multisliceSelectNextBufferData_count hcall).trans h.count_eq
      perBuffer_eq := htaken.perBuffer_eq.trans h.perBuffer_eq }

/-- **If some buffer is not delivered, a row has another size in the file than in memory**, and
the first buffer is not delivered either. -/
theorem Ahead.undelivered_iff (hl : ∀ s ∈ l, s.1 + s.2 < 2 ^ 64) (hrank : 0 < req.rank)
    (hbody : ∀ c, req.packing.body c = true) {ms : Multislice}
    (h : Ahead req l nrSlices count epb ms) :
    req.Undelivered ms ↔ ms.elementsLeftTotal ≠ 0 ∧ epb ≠ 0 ∧
      (req.space.rank = 0 ∨
        rowElements req.space.rank count ≠ rowElements req.rank req.counts) := by
  have hsame : ∀ {ms' : Multislice}, Ahead req l nrSlices count epb ms' →
      ((req.space.rank = 0 ∨
          rowElements req.space.rank count ≠ rowElements req.rank req.counts) ↔
        ¬ (0 < req.space.rank ∧
          rowElements req.space.rank ms'.count = rowElements req.rank req.counts)) := by
    intro ms' h'
    rw [h'.count_eq, not_and_or, Nat.pos_iff_ne_zero, not_not]
  constructor
  · rintro ⟨passes, n, ms', selection, nr, hbuffer, hnot⟩
    -- enough passes for every call
    replace hbuffer := buffer_mono (Nat.le_max_left passes (2 ^ 64 + nrSlices)) hbuffer
    have hpasses := Nat.le_max_right passes (2 ^ 64 + nrSlices)
    generalize max passes (2 ^ 64 + nrSlices) = fuel at hbuffer hpasses
    have hleft : ms.elementsLeftTotal ≠ 0 := by
      intro hzero
      unfold buffer at hbuffer
      rw [multisliceSelectNextBufferData, if_pos hzero] at hbuffer
      cases hbuffer
    have hepb : epb ≠ 0 := by
      intro hzero
      have hspin : ∀ m, buffer fuel m ms = some (ms, .hyperslabs [], 0) := by
        obtain ⟨fuel, rfl⟩ := Nat.exists_eq_succ_of_ne_zero (show fuel ≠ 0 by omega)
        have hcall := multisliceSelectNextBufferData_none (h.perBuffer_eq.trans hzero) hleft
          (Nat.ne_of_gt h.cursor.rank_pos) fuel
        intro m
        induction m with
        | zero => rw [buffer, hcall]
        | succ m ih => rw [buffer, hcall]; exact ih
      rw [hspin] at hbuffer
      cases hbuffer
      rw [Request.delivered, hbody] at hnot
      simp [selectSlices, Dataspace.npoints, memPoints, hrank, unionRows, intervals] at hnot
    refine ⟨hleft, hepb, ?_⟩
    clear hleft
    induction n generalizing ms with
    | zero =>
      unfold buffer at hbuffer
      by_cases hleft : ms.elementsLeftTotal = 0
      · rw [multisliceSelectNextBufferData, if_pos hleft] at hbuffer
        cases hbuffer
      obtain ⟨ms₁, selections, nr₁, hcall, htaken, hnodup, h'⟩ := h.next hl hepb hleft hpasses
      rw [hcall] at hbuffer
      cases hbuffer
      rw [hsame h', ← delivered_iff hrank hbody htaken hnodup, hnot]
      exact Bool.false_ne_true
    | succ n ih =>
      unfold buffer at hbuffer
      by_cases hleft : ms.elementsLeftTotal = 0
      · rw [multisliceSelectNextBufferData, if_pos hleft] at hbuffer
        cases hbuffer
      obtain ⟨ms₁, selections, nr₁, hcall, htaken, hnodup, h'⟩ := h.next hl hepb hleft hpasses
      rw [hcall] at hbuffer
      exact ih h' hbuffer
  · rintro ⟨hleft, hepb, hdiffer⟩
    obtain ⟨ms', selections, nr, hcall, htaken, hnodup, h'⟩ := h.next hl hepb hleft (Nat.le_refl _)
    refine ⟨2 ^ 64 + nrSlices, 0, ms', _, nr, by rw [buffer, hcall], ?_⟩
    rw [hsame h', ← delivered_iff hrank hbody htaken hnodup] at hdiffer
    exact Bool.eq_false_iff.mpr hdiffer

/-- A request with nothing to read delivers what it selects. -/
theorem not_undelivered_of_done {ms : Multislice} (h : ms.elementsLeftTotal = 0) :
    ¬ req.Undelivered ms := by
  rintro ⟨passes, n, ms', selection, nr, hbuffer, _⟩
  unfold buffer at hbuffer
  rw [multisliceSelectNextBufferData, if_pos h] at hbuffer
  cases hbuffer

/-- A request of rank 0 selects the whole dataset, once. -/
theorem undelivered_scalar_iff (ms : Multislice) (nrSlices : Nat) (starts : Nat → UInt64)
    (epb : UInt64) (hrank : req.rank = 0) (hbody : ∀ c, req.packing.body c = true) :
    req.Undelivered (req.iterator ms nrSlices starts epb) ↔ req.space.npoints ms.count .all
      ≠ 1 := by
  have hcall : ∀ passes, multisliceSelectNextBufferData passes
    (req.iterator ms nrSlices starts epb) =
      .ok (.data { req.iterator ms nrSlices starts epb with elementsLeftTotal := 0 } .all 1) := by
    intro passes
    simp [multisliceSelectNextBufferData, Request.iterator, multisliceFields, hrank]
  have hdelivered : ∀ ms', req.delivered ms' .all 1 = false ↔
      req.space.npoints ms.count .all ≠ 1 := by
    intro ms'
    simp [Request.delivered, selectSlices, memPoints, hrank, hbody, Dataspace.npoints]
  constructor
  · rintro ⟨passes, n, ms', selection, nr, hbuffer, hnot⟩
    unfold buffer at hbuffer
    rw [hcall] at hbuffer
    cases n with
    | zero =>
      cases hbuffer
      exact (hdelivered _).mp hnot
    | succ n =>
      dsimp only at hbuffer
      unfold buffer at hbuffer
      rw [multisliceSelectNextBufferData, if_pos rfl] at hbuffer
      cases hbuffer
  · intro hne
    exact ⟨0, 0, _, .all, 1, by rw [buffer, hcall], (hdelivered _).mpr hne⟩

/-- Whether a buffer is not delivered can be told from the request. -/
theorem undelivered_iff_sizesDiffer (ms : Multislice) {nrSlices : Nat}
    {starts fileDims : Nat → UInt64} (epb : UInt64) (href : ¬ req.Refused nrSlices starts fileDims)
    (hwrap : 0 < req.rank → NoWrapRows req.rank nrSlices starts req.counts)
    (hbody : ∀ c, req.packing.body c = true) :
    req.Undelivered (req.iterator ms nrSlices starts epb) ↔
      req.SizesDiffer ms nrSlices starts epb := by
  unfold Request.SizesDiffer
  by_cases hrank : req.rank = 0
  · rw [if_pos hrank]
    exact undelivered_scalar_iff ms nrSlices starts epb hrank hbody
  rw [if_neg hrank]
  replace hrank := Nat.pos_of_ne_zero hrank
  replace hwrap := hwrap hrank
  have hslices : slicesRefused req.rank nrSlices starts req.counts (req.space.fileDims fileDims) =
      false := by
    rw [← Bool.not_eq_true]
    intro h
    refine href (.inr (.inr ?_))
    rw [if_pos hrank]
    exact h
  have hms : req.iterator ms nrSlices starts epb =
      multisliceFields ms req.rank nrSlices starts req.counts epb := by
    rw [Request.iterator, if_pos hrank]
  have hleft := elementsLeftTotal_toNat ms epb hrank hslices hwrap
  rw [← hms] at hleft
  by_cases hrows : requestedRows req.rank nrSlices starts req.counts = []
  · rw [hrows, List.length_nil] at hleft
    exact ⟨fun h => absurd h (not_undelivered_of_done (UInt64.toNat_inj.mp hleft)),
      fun h => absurd hrows h.1⟩
  have hrow : rowElements req.rank req.counts ≠ 0 := fun hzero => by
    rw [requestedRows, if_pos hzero] at hrows
    exact hrows rfl
  have hne : (req.iterator ms nrSlices starts epb).elementsLeftTotal ≠ 0 := by
    intro hzero
    rw [hzero, UInt64.toNat_zero] at hleft
    exact hrows (List.length_eq_zero_iff.mp hleft.symm)
  have hl : ∀ s ∈ slices req.rank nrSlices starts req.counts, s.1 + s.2 < 2 ^ 64 := fun s hs =>
    Nat.lt_of_le_of_lt (slices_inside hrank hslices hwrap hs) (UInt64.toNat_lt _)
  have hahead : Ahead req (slices req.rank nrSlices starts req.counts) nrSlices
      (req.selectCount ms) epb (req.iterator ms nrSlices starts epb) := by
    rw [hms]
    constructor
    · exact multisliceFields_cursor ms epb hrank hslices hwrap hrow
    · show (remaining _ 0 0).Nodup
      rw [remaining_zero]
      exact (slices_ascending hslices hwrap).sorted.imp Nat.ne_of_lt
    · rfl
    · rfl
    · rfl
  rw [hahead.undelivered_iff hl hrank hbody]
  exact ⟨fun h => ⟨hrows, h.2⟩, fun h => ⟨hne, h.2⟩⟩

/-- The same request, with values that can be packed. -/
def Request.packable (req : Request) : Request :=
  { req with packing := { req.packing with body := fun _ => true } }

/-- Values that cannot be packed do not make a buffer deliverable. -/
theorem Request.Undelivered.of_packable {ms : Multislice} (h : req.packable.Undelivered ms) :
    req.Undelivered ms := by
  obtain ⟨passes, n, ms', selection, nr, hbuffer, hnot⟩ := h
  refine ⟨passes, n, ms', selection, nr, hbuffer, ?_⟩
  have hsame : (selectSlices req.ndebug req.space ms'.count selection &&
      decide (req.space.npoints ms'.count selection = memPoints req.rank req.counts nr)) =
        false := by
    rw [← Bool.and_true (_ && _)]
    exact hnot
  rw [Request.delivered, hsame, Bool.false_and]

theorem Request.GivenUp.imp {nrSlices : Nat} {starts fileDims : Nat → UInt64} {bufferSize : UInt64}
    {late late' : UInt64 → Prop}
    (hlate : ∀ epb, ¬ req.Refused nrSlices starts fileDims → late epb → late' epb)
    (h : req.GivenUp nrSlices starts fileDims bufferSize late) :
    req.GivenUp nrSlices starts fileDims bufferSize late' := by
  rcases h with h | ⟨epb, hepb, h⟩
  · exact .inl h
  refine .inr ⟨epb, hepb, ?_⟩
  by_cases href : req.Refused nrSlices starts fileDims
  · exact .inl href
  · exact h.imp_right (Or.imp_right (hlate epb href))

/-- **When a request fails, whatever its rank.**  The function returns a value other than zero if
it gives the request up before the read loop, or if the slices do not wrap and `SizesDiffer`; and
if the slices do not wrap and the values can be packed, in no other case. -/
theorem wrongRank_iff (req : Request) (ms : Multislice) {nrSlices : Nat}
    (starts fileDims : Nat → UInt64) (bufferSize : UInt64) (hnr : 1 ≤ nrSlices) :
    (req.GivenUp nrSlices starts fileDims bufferSize (fun epb =>
        (0 < req.rank → NoWrapRows req.rank nrSlices starts req.counts) ∧
          req.SizesDiffer ms nrSlices starts epb) →
      req.NonZero ms nrSlices starts fileDims bufferSize) ∧
    ((0 < req.rank → NoWrapRows req.rank nrSlices starts req.counts) →
      (∀ c, req.packing.body c = true) →
      (req.NonZero ms nrSlices starts fileDims bufferSize ↔
        req.GivenUp nrSlices starts fileDims bufferSize
          (req.SizesDiffer ms nrSlices starts))) := by
  rw [nonZero_iff ms starts fileDims bufferSize hnr]
  constructor
  · intro h
    refine h.imp fun epb href hdiffer => ?_
    -- the bounds checks and the sizes are the same for values that can be packed
    have hbounds : ¬ req.packable.Refused nrSlices starts fileDims := href
    have hsizes : req.packable.SizesDiffer ms nrSlices starts epb := hdiffer.2
    exact ((undelivered_iff_sizesDiffer ms epb hbounds hdiffer.1 fun _ => rfl).mpr
      hsizes).of_packable
  · intro hwrap hbody
    have hlate := fun epb (href : ¬ req.Refused nrSlices starts fileDims) =>
      undelivered_iff_sizesDiffer ms epb href hwrap hbody
    exact ⟨fun h => h.imp fun epb href => (hlate epb href).mp,
      fun h => h.imp fun epb href => (hlate epb href).mpr⟩

/-- A request of rank 2 for a cube fails if `ms.count` has a 7 behind the counts of the request. -/
theorem wrongRank_iff_cube :
    Request.NonZero
      { ndebug := false
        space := { rank := 3, dims := fun _ => 10 }
        packing := { header := true, body := fun _ => true }
        rank := 2, counts := fun _ => 10, elementSize := 4 }
      { (default : Multislice) with count := fun _ => 7 } 1 (fun _ => 0) (fun _ => 0) 1024 := by
  have hwrap : NoWrapRows 2 1 (fun _ => 0) (fun _ => 10) := by unfold NoWrapRows; decide
  refine ((wrongRank_iff _ _ _ _ _ (by decide)).2 (fun _ => hwrap) (fun _ => rfl)).mpr
    (.inr ⟨25, by decide, .inr (.inr ?_)⟩)
  exact ⟨by decide, by decide, .inr (by decide)⟩

/-- **A dataset with one element is read as a scalar.**  The dataset has one dimension, the
request has rank 0, and the function returns zero. -/
theorem oneElement_accepted :
    ∃ req : Request, req.rank ≠ req.space.rank ∧
      ¬ req.NonZero default 1 (fun _ => 0) (fun _ => 0) 1024 ∧
      ∃ chunks, req.packDataset 2 default 1 (fun _ => 0) (fun _ => 0) 1024 = .packed chunks := by
  refine ⟨{ ndebug := false
            space := { rank := 1, dims := fun _ => 1 }
            packing := { header := true, body := fun _ => true }
            rank := 0, counts := fun _ => 0, elementSize := 8 }, by decide, ?_, _, rfl⟩
  rw [nonZero_iff _ _ _ _ (by decide)]
  rintro (h | ⟨epb, _, href | hheader | hundelivered⟩)
  · cases h
  · rcases href with h | h | h
    · exact absurd h (by decide)
    · exact absurd h (by decide)
    · exact absurd h (by decide)
  · cases hheader
  · exact (undelivered_scalar_iff _ _ _ _ rfl (fun _ => rfl)).mp hundelivered (by decide)

end HdfStream.Slices
