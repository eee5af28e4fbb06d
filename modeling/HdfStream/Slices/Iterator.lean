/-
# The iterator takes the rows of the slices one after the other

The four counters of `struct multislice` (`slice_nr`, `offset_in_slice`, `elements_left_total`
and, inside one call, `elements_left_in_buffer`) are a cursor into the list of slices.  The
invariant `Cursor` says so: the rows still to come are those behind the cursor, and
`elements_left_total` counts them.  Inside a call `Taking` adds what has been selected: the
selections followed by the rows behind the cursor are the rows the call began with.

A pass of the selection loop keeps `Taking` (`Taking.pass`) and makes the variant smaller, so
the loop ends without a failed assertion, whichever of its two conditions ends it
(`multisliceSelectNextBufferData_data`).
-/
import HdfStream.Slices.Request

namespace HdfStream.Slices

open Intervals

/-- A list of selections as intervals. -/
def intervals (l : List (UInt64 × UInt64)) : List (Nat × Nat) :=
  l.map fun s => (s.1.toNat, s.2.toNat)

/-! ## 1. The cursor -/

/-- `ms` is at a row of the slices `l`, or behind the last one. -/
structure Cursor (l : List (Nat × Nat)) (ms : Multislice) : Prop where
  rank_pos : 0 < ms.rank
  slices_eq : slices ms.rank ms.nrSlices ms.starts ms.counts = l
  inside : ms.sliceNr ≤ ms.nrSlices
  offset_le : ms.sliceNr < ms.nrSlices →
    ms.offsetInSlice.toNat ≤ (ms.counts (ms.sliceNr * ms.rank)).toNat
  left : ms.elementsLeftTotal.toNat = (remaining l ms.sliceNr ms.offsetInSlice.toNat).length

theorem Cursor.length_eq {l : List (Nat × Nat)} {ms : Multislice} (h : Cursor l ms) :
    l.length = ms.nrSlices := by
  rw [← h.slices_eq, slices_length]

/-- The interval under the cursor. -/
theorem Cursor.getElem_eq {l : List (Nat × Nat)} {ms : Multislice} (h : Cursor l ms)
    (hk : ms.sliceNr < l.length) :
    l[ms.sliceNr] = ((ms.starts (ms.sliceNr * ms.rank)).toNat,
      (ms.counts (ms.sliceNr * ms.rank)).toNat) := by
  have hl := h.slices_eq
  subst hl
  simp only [slices, List.getElem_map, List.getElem_range]

/-- While rows are left, the cursor is at a slice. -/
theorem Cursor.lt_of_left {l : List (Nat × Nat)} {ms : Multislice} (h : Cursor l ms)
    (hleft : 0 < ms.elementsLeftTotal.toNat) : ms.sliceNr < ms.nrSlices := by
  rcases Nat.lt_or_ge ms.sliceNr ms.nrSlices with hlt | hge
  · exact hlt
  · have hnil : l.drop ms.sliceNr = [] := List.drop_eq_nil_of_le (by rw [h.length_eq]; exact hge)
    have hleft' := h.left
    rw [remaining, hnil] at hleft'
    simp only [List.length_nil] at hleft'
    omega

/-! ## 2. One pass of the selection loop -/

theorem points_intervals_append (sel : List (UInt64 × UInt64)) (s : UInt64 × UInt64) :
    points (intervals (sel ++ [s])) =
      points (intervals sel) ++ List.range' s.1.toNat s.2.toNat := by
  simp only [intervals, List.map_append, List.map_cons, List.map_nil, points_append, points_cons,
    points_nil, List.append_nil]

/-- Inside a call: `todo` are the rows that were left when the call began, `want` is how many
of them fit into the buffer. -/
structure Taking (l : List (Nat × Nat)) (todo : List Nat) (want : Nat) (ms : Multislice)
    (st : Selecting) : Prop where
  cursor : Cursor l st.ms
  rows : points (intervals st.selections) ++
    remaining l st.ms.sliceNr st.ms.offsetInSlice.toNat = todo
  selected : st.nrElementsToRead.toNat = (points (intervals st.selections)).length
  buffer : st.nrElementsToRead.toNat + st.elementsLeftInBuffer.toNat = want
  enough : st.elementsLeftInBuffer.toNat ≤ st.ms.elementsLeftTotal.toNat
  few : st.selections.length ≤ maxSelectionsPerBuffer
  nonempty : st.selections ≠ [] → 0 < st.nrElementsToRead.toNat
  nrSlices_eq : st.ms.nrSlices = ms.nrSlices
  perBuffer_eq : st.ms.elementsPerBuffer = ms.elementsPerBuffer

/-- Passes of the selection loop still to come, at most. -/
def passesLeft (st : Selecting) : Nat :=
  st.elementsLeftInBuffer.toNat + (st.ms.nrSlices - st.ms.sliceNr)

/-- The rows one pass takes from the slice under the cursor. -/
def takes (st : Selecting) : UInt64 :=
  minSize (st.ms.counts (st.ms.sliceNr * st.ms.rank) - st.ms.offsetInSlice)
    st.elementsLeftInBuffer

/-- The state after a pass that takes rows. -/
def afterPass (st : Selecting) : Selecting :=
  let sliceCount := st.ms.counts (st.ms.sliceNr * st.ms.rank)
  let offset := st.ms.offsetInSlice + takes st
  { ms := { st.ms with
      offsetInSlice := if sliceCount ≤ offset then 0 else offset
      sliceNr := if sliceCount ≤ offset then st.ms.sliceNr + 1 else st.ms.sliceNr
      elementsLeftTotal := st.ms.elementsLeftTotal - takes st }
    selections :=
      if 0 < takes st then
        st.selections ++ [(st.ms.starts (st.ms.sliceNr * st.ms.rank) + st.ms.offsetInSlice,
          takes st)]
      else st.selections
    elementsLeftInBuffer := st.elementsLeftInBuffer - takes st
    nrElementsToRead := st.nrElementsToRead + takes st }

/-- What a pass with space left in the buffer does, its assertions being hypotheses. -/
theorem selectPass_eq {st : Selecting} (hspace : 0 < st.elementsLeftInBuffer)
    (hfew : st.selections.length < maxSelectionsPerBuffer) (hslice : st.ms.sliceNr < st.ms.nrSlices)
    (hbuffer : takes st ≤ st.elementsLeftInBuffer) (htotal : takes st ≤ st.ms.elementsLeftTotal) :
    selectPass st = .ok (.inl (afterPass st)) := by
  have hnext : (if st.ms.counts (st.ms.sliceNr * st.ms.rank) ≤ st.ms.offsetInSlice + takes st
      then st.ms.sliceNr + 1 else st.ms.sliceNr) ≤ st.ms.nrSlices := by
    split
    · exact hslice
    · exact Nat.le_of_lt hslice
  unfold selectPass
  rw [if_pos ⟨hspace, hfew⟩, if_neg (not_not.mpr hslice)]
  exact (if_neg (not_not.mpr hnext)).trans
    ((if_neg (not_not.mpr hbuffer)).trans (if_neg (not_not.mpr htotal)))

theorem takes_toNat {l : List (Nat × Nat)} {st : Selecting} (h : Cursor l st.ms)
    (hslice : st.ms.sliceNr < st.ms.nrSlices) :
    (takes st).toNat = min ((st.ms.counts (st.ms.sliceNr * st.ms.rank)).toNat -
      st.ms.offsetInSlice.toNat) st.elementsLeftInBuffer.toNat := by
  rw [takes, minSize_toNat, sub_toNat_of_le (h.offset_le hslice)]

/-- **The cursor after a pass**: it stands behind the rows the pass has taken. -/
theorem Cursor.pass {l : List (Nat × Nat)} (hl : ∀ s ∈ l, s.1 + s.2 < 2 ^ 64) {st : Selecting}
    (h : Cursor l st.ms) (hslice : st.ms.sliceNr < st.ms.nrSlices) :
    Cursor l (afterPass st).ms ∧
      remaining l st.ms.sliceNr st.ms.offsetInSlice.toNat =
        List.range' ((st.ms.starts (st.ms.sliceNr * st.ms.rank)).toNat +
            st.ms.offsetInSlice.toNat) (takes st).toNat ++
          remaining l (afterPass st).ms.sliceNr (afterPass st).ms.offsetInSlice.toNat := by
  have hk : st.ms.sliceNr < l.length := by rw [h.length_eq]; exact hslice
  have hoff := h.offset_le hslice
  have htake := takes_toNat h hslice
  have hwrap := hl l[st.ms.sliceNr] (List.getElem_mem hk)
  have hsplit := remaining_split hk st.ms.offsetInSlice.toNat (takes st).toNat
    (by rw [h.getElem_eq hk]; dsimp only; omega)
  rw [h.getElem_eq hk] at hwrap hsplit
  have hsum : (st.ms.offsetInSlice + takes st).toNat =
      st.ms.offsetInSlice.toNat + (takes st).toNat := add_toNat_of_lt (by omega)
  have hend : st.ms.counts (st.ms.sliceNr * st.ms.rank) ≤ st.ms.offsetInSlice + takes st ↔
      (st.ms.counts (st.ms.sliceNr * st.ms.rank)).toNat ≤
        st.ms.offsetInSlice.toNat + (takes st).toNat := by
    rw [UInt64.le_iff_toNat_le, hsum]
  have hrows : remaining l st.ms.sliceNr st.ms.offsetInSlice.toNat =
      List.range' ((st.ms.starts (st.ms.sliceNr * st.ms.rank)).toNat +
          st.ms.offsetInSlice.toNat) (takes st).toNat ++
        remaining l (afterPass st).ms.sliceNr (afterPass st).ms.offsetInSlice.toNat := by
    rw [hsplit]
    unfold afterPass
    by_cases hc : st.ms.counts (st.ms.sliceNr * st.ms.rank) ≤ st.ms.offsetInSlice + takes st
    · simp only [if_pos hc, if_pos (hend.mp hc), UInt64.toNat_zero]
    · simp only [if_neg hc, if_neg (mt hend.mpr hc), hsum]
  refine ⟨?_, hrows⟩
  constructor
  · exact h.rank_pos
  · exact h.slices_eq
  · show (if _ then st.ms.sliceNr + 1 else st.ms.sliceNr) ≤ st.ms.nrSlices
    split
    · exact hslice
    · exact Nat.le_of_lt hslice
  · intro _
    by_cases hc : st.ms.counts (st.ms.sliceNr * st.ms.rank) ≤ st.ms.offsetInSlice + takes st
    · simp only [afterPass, if_pos hc, UInt64.toNat_zero]
      exact Nat.zero_le _
    · simp only [afterPass, if_neg hc, hsum]
      have := mt hend.mpr hc
      omega
  · have hlen := congrArg List.length hrows
    rw [List.length_append, List.length_range', ← h.left] at hlen
    have htotal : (takes st).toNat ≤ st.ms.elementsLeftTotal.toNat := by omega
    show (st.ms.elementsLeftTotal - takes st).toNat = _
    rw [sub_toNat_of_le htotal]
    omega

/-- The rows selected after a pass. -/
theorem afterPass_points (st : Selecting)
    (h : (st.ms.starts (st.ms.sliceNr * st.ms.rank)).toNat + st.ms.offsetInSlice.toNat < 2 ^ 64) :
    points (intervals (afterPass st).selections) =
      points (intervals st.selections) ++
        List.range' ((st.ms.starts (st.ms.sliceNr * st.ms.rank)).toNat +
          st.ms.offsetInSlice.toNat) (takes st).toNat := by
  unfold afterPass
  by_cases ht : 0 < takes st
  · simp only [if_pos ht]
    rw [points_intervals_append, add_toNat_of_lt h]
  · have hzero : (takes st).toNat = 0 := by
      have := mt UInt64.lt_iff_toNat_lt.mpr ht
      rw [UInt64.toNat_zero] at this
      omega
    simp only [if_neg ht, hzero, List.range'_zero, List.append_nil]

theorem afterPass_few {st : Selecting} (h : st.selections.length < maxSelectionsPerBuffer) :
    (afterPass st).selections.length ≤ maxSelectionsPerBuffer := by
  unfold afterPass
  by_cases ht : 0 < takes st
  · simp only [if_pos ht, List.length_append, List.length_singleton]
    exact h
  · simp only [if_neg ht]
    exact Nat.le_of_lt h

/-- **One pass keeps the invariant and makes the variant smaller.** -/
theorem Taking.pass {l : List (Nat × Nat)} (hl : ∀ s ∈ l, s.1 + s.2 < 2 ^ 64) {todo : List Nat}
    {want : Nat} (hwant : want < 2 ^ 64) {ms : Multislice} {st : Selecting}
    (h : Taking l todo want ms st) (hspace : 0 < st.elementsLeftInBuffer)
    (hfew : st.selections.length < maxSelectionsPerBuffer) :
    ∃ st', selectPass st = .ok (.inl st') ∧ Taking l todo want ms st' ∧
      passesLeft st' < passesLeft st := by
  have hspace' := UInt64.lt_iff_toNat_lt.mp hspace
  rw [UInt64.toNat_zero] at hspace'
  have henough := h.enough
  have hslice := h.cursor.lt_of_left (by omega)
  have hk : st.ms.sliceNr < l.length := by rw [h.cursor.length_eq]; exact hslice
  have hoff := h.cursor.offset_le hslice
  have htake := takes_toNat h.cursor hslice
  have hwrap := hl l[st.ms.sliceNr] (List.getElem_mem hk)
  rw [h.cursor.getElem_eq hk] at hwrap
  obtain ⟨hcursor, hrows⟩ := h.cursor.pass hl hslice
  have hbuffer := h.buffer
  refine ⟨afterPass st, ?_, ?_, ?_⟩
  · exact selectPass_eq hspace hfew hslice (UInt64.le_iff_toNat_le.mpr (by omega))
      (UInt64.le_iff_toNat_le.mpr (by omega))
  · have hread : (st.nrElementsToRead + takes st).toNat =
        st.nrElementsToRead.toNat + (takes st).toNat := add_toNat_of_lt (by omega)
    have hspace'' : (st.elementsLeftInBuffer - takes st).toNat =
        st.elementsLeftInBuffer.toNat - (takes st).toNat := sub_toNat_of_le (by omega)
    have htotal : (st.ms.elementsLeftTotal - takes st).toNat =
        st.ms.elementsLeftTotal.toNat - (takes st).toNat := sub_toNat_of_le (by omega)
    have hpoints : points (intervals (afterPass st).selections) =
        points (intervals st.selections) ++
          List.range' ((st.ms.starts (st.ms.sliceNr * st.ms.rank)).toNat +
            st.ms.offsetInSlice.toNat) (takes st).toNat := afterPass_points st (by omega)
    constructor
    · exact hcursor
    · rw [hpoints, List.append_assoc, ← hrows]
      exact h.rows
    · rw [hpoints, List.length_append, List.length_range', ← h.selected]
      exact hread
    · show (st.nrElementsToRead + takes st).toNat + (st.elementsLeftInBuffer - takes st).toNat =
        want
      omega
    · show (st.elementsLeftInBuffer - takes st).toNat ≤ (st.ms.elementsLeftTotal - takes st).toNat
      omega
    · exact afterPass_few hfew
    · intro hne
      show 0 < (st.nrElementsToRead + takes st).toNat
      rw [hread]
      by_cases ht : 0 < takes st
      · have := UInt64.lt_iff_toNat_lt.mp ht
        rw [UInt64.toNat_zero] at this
        omega
      · have := h.nonempty (by rwa [afterPass, if_neg ht] at hne)
        omega
    · exact h.nrSlices_eq
    · exact h.perBuffer_eq
  · show (st.elementsLeftInBuffer - takes st).toNat + (st.ms.nrSlices -
      (if st.ms.counts (st.ms.sliceNr * st.ms.rank) ≤ st.ms.offsetInSlice + takes st
        then st.ms.sliceNr + 1 else st.ms.sliceNr)) <
      st.elementsLeftInBuffer.toNat + (st.ms.nrSlices - st.ms.sliceNr)
    rw [sub_toNat_of_le (by omega)]
    -- a pass that takes no row has come to the end of its slice
    by_cases ht : (takes st).toNat = 0
    · rw [if_pos (UInt64.le_iff_toNat_le.mpr (by rw [add_toNat_of_lt (by omega)]; omega))]
      omega
    · split <;> omega

/-! ## 3. One call -/

/-- What a call that returns 0 has done: `selections` are the next rows, at least one and at
most a buffer full. -/
structure Taken (l : List (Nat × Nat)) (ms ms' : Multislice) (selections : List (UInt64 × UInt64))
    (nrElementsToRead : UInt64) : Prop where
  cursor : Cursor l ms'
  rows : remaining l ms.sliceNr ms.offsetInSlice.toNat =
    points (intervals selections) ++ remaining l ms'.sliceNr ms'.offsetInSlice.toNat
  selected : nrElementsToRead.toNat = (points (intervals selections)).length
  pos : 1 ≤ nrElementsToRead.toNat
  fits : nrElementsToRead.toNat ≤ ms.elementsPerBuffer.toNat
  few : selections.length ≤ maxSelectionsPerBuffer
  nrSlices_eq : ms'.nrSlices = ms.nrSlices
  perBuffer_eq : ms'.elementsPerBuffer = ms.elementsPerBuffer

theorem Taking.start {l : List (Nat × Nat)} {ms : Multislice} (h : Cursor l ms) :
    Taking l (remaining l ms.sliceNr ms.offsetInSlice.toNat)
      (min ms.elementsPerBuffer.toNat ms.elementsLeftTotal.toNat) ms
      { ms := ms, selections := []
        elementsLeftInBuffer := minSize ms.elementsPerBuffer ms.elementsLeftTotal
        nrElementsToRead := 0 } where
  cursor := h
  rows := rfl
  selected := rfl
  buffer := by rw [minSize_toNat, UInt64.toNat_zero, Nat.zero_add]
  enough := by rw [minSize_toNat]; exact Nat.min_le_right _ _
  few := Nat.zero_le _
  nonempty := fun hne => absurd rfl hne
  nrSlices_eq := rfl
  perBuffer_eq := rfl

/-- The selection loop ends because the buffer is full or because there are
`MAX_SELECTIONS_PER_BUFFER` selections; either way rows have been selected. -/
theorem Taking.leave {l : List (Nat × Nat)} {todo : List Nat} {want : Nat} {ms : Multislice}
    {st : Selecting} (h : Taking l todo want ms st) (hwant : 0 < want)
    (hend : ¬ (0 < st.elementsLeftInBuffer ∧ st.selections.length < maxSelectionsPerBuffer)) :
    0 < st.nrElementsToRead.toNat := by
  by_cases hsel : st.selections = []
  · have hspace : ¬ 0 < st.elementsLeftInBuffer := fun hc =>
      hend ⟨hc, by rw [hsel]; decide⟩
    have hzero := mt UInt64.lt_iff_toNat_lt.mpr hspace
    rw [UInt64.toNat_zero] at hzero
    have := h.buffer
    omega
  · exact h.nonempty hsel

/-- **A call with rows left selects the next rows**, and no assertion fails in it. -/
theorem multisliceSelectNextBufferData_data {l : List (Nat × Nat)}
    (hl : ∀ s ∈ l, s.1 + s.2 < 2 ^ 64) {ms : Multislice} (h : Cursor l ms)
    (hepb : 0 < ms.elementsPerBuffer.toNat) (hleft : 0 < ms.elementsLeftTotal.toNat) {passes : Nat}
    (hpasses : 2 ^ 64 + ms.nrSlices ≤ passes) :
    ∃ ms' selections nr, multisliceSelectNextBufferData passes ms =
        .ok (.data ms' (.hyperslabs selections) nr) ∧ Taken l ms ms' selections nr := by
  have hne : ¬ ms.elementsLeftTotal = 0 := fun hc => by
    rw [hc, UInt64.toNat_zero] at hleft
    exact Nat.lt_irrefl 0 hleft
  have hwant : min ms.elementsPerBuffer.toNat ms.elementsLeftTotal.toNat < 2 ^ 64 :=
    Nat.lt_of_le_of_lt (Nat.min_le_left _ _) (UInt64.toNat_lt _)
  have hstart := Taking.start h
  obtain ⟨st, hrun, hst, hpos⟩ := Loop.iter_total selectPass (Taking l _ _ ms)
    (fun st => Taking l (remaining l ms.sliceNr ms.offsetInSlice.toNat)
      (min ms.elementsPerBuffer.toNat ms.elementsLeftTotal.toNat) ms st ∧
        0 < st.nrElementsToRead.toNat)
    passesLeft (fun st hst => by
      by_cases hmore : 0 < st.elementsLeftInBuffer ∧
          st.selections.length < maxSelectionsPerBuffer
      · exact .inl (hst.pass hl hwant hmore.1 hmore.2)
      · exact .inr ⟨st, if_neg hmore, hst, hst.leave (by omega) hmore⟩)
    passes _ hstart (by
      have := UInt64.toNat_lt (minSize ms.elementsPerBuffer ms.elementsLeftTotal)
      simp only [passesLeft]
      omega)
  refine ⟨st.ms, st.selections, st.nrElementsToRead, ?_, ?_⟩
  · rw [multisliceSelectNextBufferData, if_neg hne, if_neg (Nat.ne_of_gt h.rank_pos), hrun]
  · exact
      { cursor := hst.cursor
        rows := hst.rows.symm
        selected := hst.selected
        pos := hpos
        fits := by have := hst.buffer; omega
        few := hst.few
        nrSlices_eq := hst.nrSlices_eq
        perBuffer_eq := hst.perBuffer_eq }

end HdfStream.Slices
