/-
# The value of a dataset

`pack_dataset` writes headers before it knows whether the rest can be packed.  A call that returns
0 has nevertheless packed one value: a map with five entries, or with six, of which the last is the
encoding of the stored elements.  Otherwise it returns -1, or it does not return: it divides by
zero, stops at an assertion, reads a null pointer, or goes on for ever.

`Dataset.Sound` says of a dataset, in terms of what is stored, that the call returns.  The condition
is exact for every dataset for which the model says what happens (`Dataset.Regular`); it does not
when `H5Dread` is called for rows of 2^64 bytes, which are more than the buffer has.
-/
import HdfStream.Pack.Dataset
import HdfStream.Pack.Entries

namespace HdfStream.Pack

open Msgpack Outcome Pieces

variable {D : Prop} {native : Datatype → Option Datatype}

/-! ## 1. The contents -/

/-- What `pack_dataset` reads of a dataset before it packs anything. -/
def Dataset.Reads (native : Datatype → Option Datatype) (dset : Dataset) (memType : Datatype) :
    Prop :=
  dset.space.dims.length ≤ Slices.maxDims ∧
    makePackedNativeType native dset.fileType = some memType ∧ memType.size ≠ 0

/-- What HDF5 promises: `H5Dread` puts the elements of the selected rows into the buffer, and the
elements are in memory. -/
structure Dataset.InMemory (native : Datatype → Option Datatype) (dset : Dataset) : Prop where
  attributes : ∀ attr ∈ dset.attributes, attr.InMemory native
  data : ∀ memType, dset.Reads native memType → ∀ selection,
    dset.data selection = dset.stored.gather memType.size.toNat
      (rowIndex (numberOf dset.space.dims.tail)
        (Slices.h5Dread (fun _ => dset.space.dims.headD 1) selection))
  stored : ∀ memType, dset.Reads native memType → memType.pointers = true →
    dset.space ≠ .null → dset.stored.Holds maxBinSize memType (numberOf dset.space.dims)

/-- "Can't buffer even one element": the call returns -1. -/
def RowRefused (dims : List UInt64) (size bufferSize : UInt64) : Prop :=
  ¬ 2 ^ 64 ∣ numberOf dims.tail ∧ ¬ 2 ^ 64 ∣ numberOf dims.tail * size.toNat ∧
    bufferSize.toNat < numberOf dims.tail * size.toNat % 2 ^ 64

/-- **Reading the contents returns**: there is no division by zero, the size of the contents and the
number of their binaries can be computed, and the pointers that are read have been stored, and none
of them is null. -/
structure ContentsSound (dset : Dataset) (memType : Datatype) (bufferSize : UInt64) : Prop where
  row : RowFits dset.space.dims memType.size bufferSize
  size : numberOf dset.space.dims * memType.size.toNat + maxBinSize ≤ 2 ^ 64
  nonNull : memType.pointers = true → numberOf dset.space.dims ≤ maxBinSize →
    dset.space ≠ .null ∧ dset.stored.NonNull memType (numberOf dset.space.dims)

/-- The model says what happens: `H5Dread` is not called for rows of 2^64 bytes or more, the sizes
of arrays of pointers do not wrap, no pointer is read that nobody wrote, and sequences have lengths
of 32 bits. -/
structure Dataset.Regular (native : Datatype → Option Datatype) (bufferSize : UInt64)
    (dset : Dataset) : Prop where
  attributes : ∀ attr ∈ dset.attributes, attr.Regular native
  row : ∀ memType, dset.Reads native memType → RowFits dset.space.dims memType.size bufferSize →
    2 ^ 64 ∣ numberOf dset.space.dims.tail ∨
      numberOf dset.space.dims.tail * memType.size.toNat < 2 ^ 64
  pointers : ∀ memType, dset.Reads native memType → memType.hasVariable = true →
    RowFits dset.space.dims memType.size bufferSize →
      numberOf dset.space.dims * memType.size.toNat + maxBinSize ≤ 2 ^ 64
  short : ∀ memType, dset.Reads native memType → memType.pointers = true →
    dset.space ≠ .null ∧ dset.stored.Short maxBinSize memType (numberOf dset.space.dims)

/-- The value of the contents: the encoding of the stored elements, if a row can be read. -/
def IsContents (dset : Dataset) (memType : Datatype) (bufferSize : UInt64) (v : Value Bytes) :
    Prop :=
  RowFits dset.space.dims memType.size bufferSize ∧
    arrayValue maxBinSize memType (elements maxBinSize memType) dset.space.dims
      (wholeCalls (numberOf dset.space.dims) dset.stored) = some v

/-! ## 2. Rows whose size wraps -/

/-- A row whose number of elements wraps to 0 makes the loop go on for ever. -/
theorem packDatasetMultiSlice_endless (initial : Initial) {dims : List UInt64}
    (hrank : dims.length ≤ Slices.maxDims) (hne : dims ≠ []) (hpos : ∀ d ∈ dims, d ≠ 0)
    (hrow : 2 ^ 64 ∣ numberOf dims.tail) (size bufferSize : UInt64) (passes : Nat) :
    Slices.packDatasetMultiSlice passes initial.multislice dims.length (1 : Nat)
      (initial.start dims.length) (initial.dims dims) (initial.dims dims) size bufferSize =
        .stopped .passes := by
  have hzero : Slices.nrElements dims.length (initial.dims dims) = 0 := by
    have hel := Slices.nrElements_toNat dims.length (initial.dims dims)
    rw [rowElements_dims, Nat.mod_eq_zero_of_dvd hrow] at hel
    exact UInt64.toNat_inj.mp hel
  have hepb : Slices.elementsPerBuffer dims.length (initial.dims dims) size bufferSize =
      .value 0 := by
    rw [Slices.elementsPerBuffer, hzero, if_neg (UInt64.lt_irrefl 0)]
  have hlength : 0 < dims.length := List.length_pos_iff.mpr hne
  have hcount : ∀ i < dims.length,
      Slices.totalCounts initial.multislice dims.length 1 (initial.dims dims) i ≠ 0 := by
    intro i hi
    rw [totalCounts_dims initial dims _ hi, Initial.dims, List.getD_eq_getElem?_getD,
      List.getElem?_eq_getElem hi, Option.getD_some]
    exact hpos _ (List.getElem_mem hi)
  have hleft : (Slices.multisliceFields initial.multislice dims.length 1
      (initial.start dims.length) (initial.dims dims) 0).elementsLeftTotal ≠ 0 := by
    rw [Slices.multisliceFields]
    dsimp only
    rw [if_neg, if_pos hlength]
    · exact hcount 0 hlength
    · rw [Bool.not_eq_true]
      exact List.any_eq_false.mpr fun i hi => by
        rw [beq_iff_eq]
        exact hcount i (List.mem_range.mp hi)
  rw [Slices.packDatasetMultiSlice, if_neg (by decide), hepb]
  dsimp only
  rw [@multisliceInit_whole initial dims initial.multislice hrank 0, if_pos hlength]
  dsimp only
  rw [Slices.readLoop_spins rfl hleft (Nat.ne_of_gt hlength)]

/-- **The contents of such a dataset are read for ever.** -/
theorem packDatasetSlice_endless (pk : Packer) {native : Datatype → Option Datatype} (passes : Nat)
    (initial : Initial) {dset : Dataset} {memType : Datatype}
    (hmem : makePackedNativeType native dset.fileType = some memType)
    (hdetect : ¬ detectVlenTypes memType < 0) (hrank : dset.space.dims.length ≤ Slices.maxDims)
    (hne : dset.space.dims ≠ []) (hpos : ∀ d ∈ dset.space.dims, d ≠ 0)
    (hrow : 2 ^ 64 ∣ numberOf dset.space.dims.tail) (bufferSize : UInt64) :
    packDatasetSlice pk native passes initial dset dset.space.dims.length
      (initial.start dset.space.dims.length) (initial.dims dset.space.dims) bufferSize =
        .error (.selection .passes) := by
  have hstopped := packDatasetMultiSlice_endless initial hrank hne hpos hrow memType.size bufferSize
    passes
  have hone : ((1 : Nat) : Int) = 1 := rfl
  rw [hone] at hstopped
  rw [packDatasetSlice, packDatasetMultiSliceWithMaxSize, hmem]
  dsimp only
  rw [if_neg hdetect, hstopped]

/-! ## 3. The contents are packed, or the process stops -/

theorem DatasetFailure.contents_injective : Function.Injective DatasetFailure.contents :=
  fun _ _ h => DatasetFailure.contents.inj h

section

variable {dset : Dataset} {memType : Datatype} {bufferSize : UInt64} {initial : Initial}
  {chunks : List Slices.Chunk} {passes : Nat}

theorem RowFits.not_refused {dims : List UInt64} {size : UInt64}
    (h : RowFits dims size bufferSize) : ¬ RowRefused dims size bufferSize := by
  rintro ⟨hrow, _, hlt⟩
  rcases h with h | ⟨_, hle⟩
  · exact hrow h
  · omega

/-- What becomes of a row that cannot be read. -/
theorem elementsPerBuffer_notFits (initial : Initial) {dims : List UInt64} {size : UInt64}
    (h : ¬ RowFits dims size bufferSize) :
    Slices.elementsPerBuffer dims.length (initial.dims dims) size bufferSize = .failed ∧
        RowRefused dims size bufferSize ∨
      Slices.elementsPerBuffer dims.length (initial.dims dims) size bufferSize = .divisionByZero ∧
        ¬ RowRefused dims size bufferSize := by
  obtain ⟨hrow, hfits⟩ := not_or.mp h
  rw [Slices.elementsPerBuffer_eq, Slices.rowBytes, rowElements_dims, if_neg hrow]
  by_cases hbytes : 2 ^ 64 ∣ numberOf dims.tail * size.toNat
  · rw [if_pos hbytes]
    exact .inr ⟨rfl, fun hrefused => hrefused.2.1 hbytes⟩
  · have hlt : bufferSize.toNat < numberOf dims.tail * size.toNat % 2 ^ 64 :=
      Nat.not_le.mp fun hle => hfits ⟨hbytes, hle⟩
    rw [if_neg hbytes, if_pos hlt]
    exact .inl ⟨rfl, hrow, hbytes, hlt⟩

/-- The calls of `pack_contents_body` for the chunks of a dataset. -/
def chunkCalls (initial : Initial) (dset : Dataset) (memType : Datatype)
    (chunks : List Slices.Chunk) : List BodyCall :=
  chunks.map (chunkCall initial dset memType
    (Slices.nrElements dset.space.dims.length (initial.dims dset.space.dims)))

/-- With each chunk the elements of its rows are read. -/
theorem chunkCalls_eq (hreads : dset.Reads native memType) (hmemory : dset.InMemory native)
    (h : WholeChunks initial dset.space.dims memType.size chunks) :
    chunkCalls initial dset memType chunks =
      chunks.map (readCall memType dset.stored initial.buffer
        (fun c => c.rows.length * numberOf dset.space.dims.tail)
        (fun c => rowIndex (numberOf dset.space.dims.tail) c.rows)) := by
  refine List.map_congr_left fun c hc => ?_
  rw [chunkCall, readCall, h.count c hc, hmemory.data memType hreads, h.selection c hc]

/-- `pack_dataset_slice` for a whole dataset, after its chunks have been read. -/
theorem packDatasetSlice_packed (pk : Packer) (hreads : dset.Reads native memType)
    (hdetect : 0 ≤ detectVlenTypes memType)
    (hrow : wholeRows dset.space.dims ≠ [] →
      numberOf dset.space.dims.tail * memType.size.toNat < 2 ^ 64)
    (hfits : RowFits dset.space.dims memType.size bufferSize) (hpasses : 2 ^ 64 + 1 ≤ passes)
    (initial : Initial) :
    ∃ chunks, WholeChunks initial dset.space.dims memType.size chunks ∧
      packDatasetSlice pk native passes initial dset dset.space.dims.length
          (initial.start dset.space.dims.length) (initial.dims dset.space.dims) bufferSize =
        (packArray pk default maxBinSize memType dset.space.dims
          (numberOf dset.space.dims * memType.size.toNat % 2 ^ 64)
          (chunkCalls initial dset memType chunks)).mapError .contents := by
  have hes : 1 ≤ memType.size.toNat := by
    have hne : memType.size.toNat ≠ 0 := fun h => hreads.2.2 (UInt64.toNat_inj.mp h)
    omega
  obtain ⟨chunks, hchunks, hwhole⟩ := whole_chunks initial hreads.1 hes hrow hfits hpasses
  have hone : ((1 : Nat) : Int) = 1 := rfl
  rw [hone] at hchunks
  refine ⟨chunks, hwhole, ?_⟩
  rw [packDatasetSlice, packDatasetMultiSliceWithMaxSize, hreads.2.1]
  dsimp only
  rw [if_neg (Int.not_lt.mpr hdetect), hchunks]
  dsimp only
  rw [Int.toNat_natCast, Int.toNat_one, map_totalCounts, arraySize_toNat]
  rfl

theorem Dataset.Reads.size_pos (h : dset.Reads native memType) : 1 ≤ memType.size.toNat := by
  have hne : memType.size.toNat ≠ 0 := fun hzero => h.2.2 (UInt64.toNat_inj.mp hzero)
  omega

theorem Dataset.Reads.eq {memType' : Datatype} (h : dset.Reads native memType)
    (h' : dset.Reads native memType') : memType' = memType :=
  Option.some.inj (h'.2.1.symm.trans h.2.1)

/-- The number of elements is computed exactly, if that of the bytes is. -/
theorem nrElements_exact {dims : List UInt64} {size n : Nat} (hes : 1 ≤ size)
    (h : numberOf dims * size + n ≤ 2 ^ 64) (hn : 0 < n) :
    numberOf dims < 2 ^ 64 ∧ (nrElements dims).toNat = numberOf dims := by
  have hle := Nat.le_mul_of_pos_right (numberOf dims) hes
  have hlt : numberOf dims < 2 ^ 64 := by omega
  exact ⟨hlt, by rw [nrElements_toNat, Nat.mod_eq_of_lt hlt]⟩

/-- Contents that are sound. -/
theorem packDatasetSlice_sound (pk : Packer) (hreads : dset.Reads native memType)
    (hdetect : 0 ≤ detectVlenTypes memType) (hmemory : dset.InMemory native)
    (hsound : ContentsSound dset memType bufferSize) (hpasses : 2 ^ 64 + 1 ≤ passes)
    (initial : Initial) :
    Packs (.contents .error) (fun v => pk.write (Value.tokens v))
      (IsContents dset memType bufferSize)
      (packDatasetSlice pk native passes initial dset dset.space.dims.length
        (initial.start dset.space.dims.length) (initial.dims dset.space.dims) bufferSize) := by
  obtain ⟨hfits, hsize, hnonNull⟩ := hsound
  obtain ⟨hlt, hdims⟩ := nrElements_exact hreads.size_pos hsize maxBinSize_pos
  have hbytes : numberOf dset.space.dims * memType.size.toNat < 2 ^ 64 := by
    have := maxBinSize_pos
    omega
  obtain ⟨chunks, hwhole, hpack⟩ := packDatasetSlice_packed pk hreads hdetect
    (wholeRow_lt hbytes) hfits hpasses initial
  rw [hpack, chunkCalls_eq hreads hmemory hwhole]
  refine Packs.mapError DatasetFailure.contents ?_
  have hcount := countOf_readCalls (t := memType) dset.stored initial.buffer hwhole.elements
  by_cases hmany : memType.pointers = true ∧ maxBinSize < numberOf dset.space.dims
  · -- the header is refused
    obtain ⟨hpointers, hmany⟩ := hmany
    have hvar := Datatype.hasVariable_of_pointers hpointers
    rw [packArray_tooMany (detectVlenTypes_variable hdetect hvar) _ _ _
      (by rw [hdims]; exact hmany)]
    refine ⟨rfl, ?_⟩
    rintro v ⟨_, hvalue⟩
    rw [arrayValue_tooMany hvar _ (by rw [countOf_wholeCalls]; exact hmany)] at hvalue
    cases hvalue
  have hstored : memType.pointers = true →
      dset.space ≠ .null ∧ dset.stored.NonNull memType (numberOf dset.space.dims) :=
    fun hpointers => hnonNull hpointers (Nat.not_lt.mp fun h => hmany ⟨hpointers, h⟩)
  have hall : dset.stored.NonNull memType (numberOf dset.space.dims) := by
    by_cases hpointers : memType.pointers = true
    · exact (hstored hpointers).2
    · exact (nonNull_iff _ _).mpr fun i _ =>
        nonNullAt_of_pointers (Bool.eq_false_iff.mpr hpointers) _ i
  have harray := @packArray_eq pk default maxBinSize memType dset.space.dims _ hdetect
    maxBinSize_pos hcount.symm (by rw [hcount]; exact hlt)
    (fun _ => ⟨maxBinSize_lt, by rw [hcount]; exact hsize⟩)
    (readCalls_holds initial.buffer hwhole.elements fun hpointers =>
      hmemory.stored memType hreads hpointers (hstored hpointers).1)
    ((readCalls_nonNull dset.stored initial.buffer hwhole.elements).mpr hall)
  rw [hcount, arrayValue_chunks dset.space.dims dset.stored initial.buffer hwhole.pos
    hwhole.elements] at harray
  rw [harray]
  rcases hvalue : arrayValue maxBinSize memType (elements maxBinSize memType) dset.space.dims
    (wholeCalls (numberOf dset.space.dims) dset.stored) with _ | v
  · refine ⟨rfl, ?_⟩
    rintro v ⟨_, hv⟩
    cases hvalue.symm.trans hv
  · exact ⟨v, ⟨hfits, hvalue⟩, rfl⟩

theorem numberOf_pos {dims : List UInt64} (h : 0 < numberOf dims) : ∀ d ∈ dims, d ≠ 0 := by
  induction dims with
  | nil => exact fun d hd => by cases hd
  | cons e dims ih =>
    rw [numberOf_cons] at h
    intro d hd
    rcases List.mem_cons.mp hd with rfl | hd
    · rintro rfl
      rw [UInt64.toNat_zero, Nat.zero_mul] at h
      exact absurd h (Nat.lt_irrefl 0)
    · exact ih (Nat.pos_of_mul_pos_left h) d hd

/-- A null string among the elements is read. -/
theorem packDatasetSlice_null (pk : Packer) (hreads : dset.Reads native memType)
    (hdetect : 0 ≤ detectVlenTypes memType) (hmemory : dset.InMemory native)
    (hspace : dset.space ≠ .null)
    (hshort : dset.stored.Short maxBinSize memType (numberOf dset.space.dims))
    (hnull : ¬ dset.stored.NonNull memType (numberOf dset.space.dims))
    (hfew : numberOf dset.space.dims ≤ maxBinSize)
    (hsize : numberOf dset.space.dims * memType.size.toNat + maxBinSize ≤ 2 ^ 64)
    (hfits : RowFits dset.space.dims memType.size bufferSize) (hpasses : 2 ^ 64 + 1 ≤ passes)
    (initial : Initial) :
    Traps (.contents .error)
      (packDatasetSlice pk native passes initial dset dset.space.dims.length
        (initial.start dset.space.dims.length) (initial.dims dset.space.dims) bufferSize) := by
  obtain ⟨_, hdims⟩ := nrElements_exact hreads.size_pos hsize maxBinSize_pos
  have hbytes : numberOf dset.space.dims * memType.size.toNat < 2 ^ 64 := by
    have := maxBinSize_pos
    omega
  obtain ⟨chunks, hwhole, hpack⟩ := packDatasetSlice_packed pk hreads hdetect
    (wholeRow_lt hbytes) hfits hpasses initial
  have ht := strings_of_null hnull
  rw [hpack, chunkCalls_eq hreads hmemory hwhole]
  refine Traps.mapError DatasetFailure.contents_injective ⟨.nullPointer, by decide, packArray_null
    (nullSpec maxBinSize_pos ht) ht maxBinSize_pos default _ _ (by rw [hdims]; exact hfew)
    (readCalls_holds initial.buffer hwhole.elements fun hpointers =>
      hmemory.stored memType hreads hpointers hspace)
    ((readCalls_short dset.stored initial.buffer hwhole.elements).mpr hshort) fun h => ?_⟩
  exact hnull ((readCalls_nonNull dset.stored initial.buffer hwhole.elements).mp h)

/-- There are more bytes than the header announces. -/
theorem packDatasetSlice_overrun (pk : Packer) (hreads : dset.Reads native memType)
    (htype : (typeValue memType none).isSome) (hmemory : dset.InMemory native)
    (hfixed : memType.hasVariable = false)
    (hrow : numberOf dset.space.dims.tail * memType.size.toNat < 2 ^ 64)
    (hsize : ¬ numberOf dset.space.dims * memType.size.toNat + maxBinSize ≤ 2 ^ 64)
    (hfits : RowFits dset.space.dims memType.size bufferSize) (hpasses : 2 ^ 64 + 1 ≤ passes)
    (initial : Initial) :
    Traps (.contents .error)
      (packDatasetSlice pk native passes initial dset dset.space.dims.length
        (initial.start dset.space.dims.length) (initial.dims dset.space.dims) bufferSize) := by
  have hdetect := detectVlenTypes_of_typeValue htype
  obtain ⟨chunks, hwhole, hpack⟩ := packDatasetSlice_packed pk hreads hdetect
    (fun _ => hrow) hfits hpasses initial
  rw [hpack, chunkCalls_eq hreads hmemory hwhole]
  have hcount := countOf_readCalls (t := memType) dset.stored initial.buffer hwhole.elements
  have hpointers : memType.pointers = false := by
    by_contra hne
    rw [Datatype.hasVariable_of_pointers (Bool.not_eq_false _ ▸ hne)] at hfixed
    cases hfixed
  have hover := @packArray_overrun maxBinSize memType pk
    (detectVlenTypes_fixed hdetect hfixed) htype maxBinSize_pos maxBinSize_lt default
    dset.space.dims
    (chunks.map (readCall memType dset.stored initial.buffer
      (fun c => c.rows.length * numberOf dset.space.dims.tail)
      (fun c => rowIndex (numberOf dset.space.dims.tail) c.rows)))
    (fun call hcall => ?_) (fun call hcall => ?_) (by rw [hcount]; exact Nat.not_le.mp hsize)
  · rw [hcount] at hover
    exact hover.mapError DatasetFailure.contents_injective
  · obtain ⟨c, hc, rfl⟩ := List.mem_map.mp hcall
    exact hwhole.bytes c hc
  · have hholds : call.buffer.Holds maxBinSize memType call.count :=
      readCalls_holds initial.buffer hwhole.elements
        (fun h => by rw [hpointers] at h; cases h) call hcall
    exact hholds.bytes hfixed

/-- Contents that are not sound, although a row can be read. -/
theorem packDatasetSlice_unsound (pk : Packer) (hreads : dset.Reads native memType)
    (htype : (typeValue memType none).isSome) (hmemory : dset.InMemory native)
    (hregular : dset.Regular native bufferSize)
    (hfits : RowFits dset.space.dims memType.size bufferSize)
    (hunsound : ¬ ContentsSound dset memType bufferSize) (hpasses : 2 ^ 64 + 1 ≤ passes)
    (initial : Initial) :
    Traps (.contents .error)
      (packDatasetSlice pk native passes initial dset dset.space.dims.length
        (initial.start dset.space.dims.length) (initial.dims dset.space.dims) bufferSize) := by
  have hdetect := detectVlenTypes_of_typeValue htype
  by_cases hsize : numberOf dset.space.dims * memType.size.toNat + maxBinSize ≤ 2 ^ 64
  · -- a null pointer is stored
    have hnull := fun h => hunsound ⟨hfits, hsize, h⟩
    obtain ⟨hpointers, hnull⟩ := Classical.not_imp.mp hnull
    obtain ⟨hfew, hnull⟩ := Classical.not_imp.mp hnull
    obtain ⟨hspace, hshort⟩ := hregular.short memType hreads hpointers
    exact packDatasetSlice_null pk hreads hdetect hmemory hspace hshort
      (fun h => hnull ⟨hspace, h⟩) hfew hsize hfits hpasses initial
  · have hfixed : memType.hasVariable = false := by
      by_contra hvar
      exact hsize (hregular.pointers memType hreads (Bool.not_eq_false _ ▸ hvar) hfits)
    rcases hregular.row memType hreads hfits with hrow | hrow
    · -- the number of elements of a row wraps to 0
      have hpos : 0 < numberOf dset.space.dims := by
        refine Nat.pos_of_ne_zero fun hzero => hsize ?_
        rw [hzero, Nat.zero_mul, Nat.zero_add]
        exact Nat.le_of_lt maxBinSize_lt
      have hne : dset.space.dims ≠ [] := by
        intro hnil
        rw [hnil] at hrow
        exact absurd hrow (by decide)
      exact ⟨.selection .passes, fun h => (by cases h), packDatasetSlice_endless pk passes initial
        hreads.2.1 (Int.not_lt.mpr hdetect) hreads.1 hne (numberOf_pos hpos) hrow bufferSize⟩
    · exact packDatasetSlice_overrun pk hreads htype hmemory hfixed hrow hsize hfits hpasses
        initial

/-- A row cannot be read: the call returns -1, or divides by zero. -/
theorem packDatasetSlice_notFits (pk : Packer) (hreads : dset.Reads native memType)
    (hdetect : 0 ≤ detectVlenTypes memType)
    (h : ¬ RowFits dset.space.dims memType.size bufferSize) (passes : Nat) (initial : Initial) :
    packDatasetSlice pk native passes initial dset dset.space.dims.length
          (initial.start dset.space.dims.length) (initial.dims dset.space.dims) bufferSize =
        .error (.contents .error) ∧ RowRefused dset.space.dims memType.size bufferSize ∨
      packDatasetSlice pk native passes initial dset dset.space.dims.length
          (initial.start dset.space.dims.length) (initial.dims dset.space.dims) bufferSize =
        .error .divisionByZero ∧ ¬ RowRefused dset.space.dims memType.size bufferSize := by
  rw [packDatasetSlice, packDatasetMultiSliceWithMaxSize, hreads.2.1]
  dsimp only
  rw [if_neg (Int.not_lt.mpr hdetect), Slices.packDatasetMultiSlice, if_neg (by decide)]
  rcases elementsPerBuffer_notFits initial h with ⟨hepb, hrefused⟩ | ⟨hepb, hrefused⟩
  · rw [hepb]
    exact .inl ⟨rfl, hrefused⟩
  · rw [hepb]
    exact .inr ⟨rfl, hrefused⟩

/-- **The contents are packed as their encoding**, as long as they are sound. -/
theorem packDatasetSlice_decides (pk : Packer) (hreads : dset.Reads native memType)
    (htype : (typeValue memType none).isSome) (hmemory : dset.InMemory native)
    (hregular : D → dset.Regular native bufferSize) (hpasses : 2 ^ 64 + 1 ≤ passes)
    (initial : Initial) :
    Decides D (.contents .error) (fun v => pk.write (Value.tokens v))
      (IsContents dset memType bufferSize)
      (¬ RowRefused dset.space.dims memType.size bufferSize →
        ContentsSound dset memType bufferSize)
      (packDatasetSlice pk native passes initial dset dset.space.dims.length
        (initial.start dset.space.dims.length) (initial.dims dset.space.dims) bufferSize) := by
  have hdetect := detectVlenTypes_of_typeValue htype
  by_cases hfits : RowFits dset.space.dims memType.size bufferSize
  · refine ⟨fun hsound => ?_, fun hD hunsound => ?_⟩
    · exact packDatasetSlice_sound pk hreads hdetect hmemory (hsound hfits.not_refused) hpasses
        initial
    · exact packDatasetSlice_unsound pk hreads htype hmemory (hregular hD) hfits
        (fun h => hunsound fun _ => h) hpasses initial
  rcases packDatasetSlice_notFits pk hreads hdetect hfits passes initial with
    ⟨hpack, hrefused⟩ | ⟨hpack, hrefused⟩
  · rw [hpack]
    exact ⟨fun _ => ⟨rfl, fun v hv => hfits hv.1⟩,
      fun _ hunsound => absurd (fun h => absurd hrefused h) hunsound⟩
  · rw [hpack]
    exact ⟨fun hsound => absurd (hsound hrefused).row hfits,
      fun _ _ => ⟨_, fun h => (by cases h), rfl⟩⟩

end

/-! ## 4. The map -/

/-- A map with strings as keys. -/
def record (fields : List (Bytes × Value Bytes)) : Value Bytes :=
  .map (fields.map fun f => (.str f.1, f.2))

theorem writeEntries_record (pk : Packer) (fields : List (Bytes × Value Bytes)) :
    pk.token (.mapHeader fields.length) ++
        writeEntries pk (fields.map fun f => (f.1, pk.write f.2.tokens)) =
      pk.write (record fields).tokens := by
  rw [record, Value.tokens_map, Packer.write_cons, List.length_map]
  congr 1
  induction fields with
  | nil => rfl
  | cons f fields ih =>
    rw [writeEntries, List.map_cons, List.flatMap_cons, List.map_cons, List.flatMap_cons,
      Packer.write_append, ← ih, Value.tokens_str, List.singleton_append, Packer.write_cons]
    rfl

/-- The first fields of the value of a dataset. -/
def datasetFields (attributes type kind : Value Bytes) (dims : List UInt64) :
    List (Bytes × Value Bytes) :=
  [(ascii "hdf5_object", .str (ascii "dataset")), (ascii "attributes", attributes),
   (ascii "type", type), (ascii "kind", kind), (ascii "shape", shapeValue dims)]

theorem datasetEntries_eq (pk : Packer) (attributes type kind : Value Bytes)
    (dims : List UInt64) :
    datasetEntries pk (pk.write attributes.tokens) type.tokens kind.tokens dims =
      (datasetFields attributes type kind dims).map fun f => (f.1, pk.write f.2.tokens) := by
  simp only [datasetEntries, datasetFields, List.map_cons, List.map_nil, Value.tokens_str,
    Packer.write_cons, Packer.write_nil, List.append_nil, shapeValue, tokens_intsValue,
    List.length_map, List.map_map]
  rfl

/-- Contents of this size are within the limit, as `pack_dataset` computes it. -/
def SeemsSmall (dset : Dataset) (memType : Datatype) (dataSizeLimit : UInt64) : Prop :=
  numberOf dset.space.dims * memType.size.toNat % 2 ^ 64 ≤ dataSizeLimit.toNat

/-- **The value of a dataset**: a map with five entries, or with six if the contents are within
the limit.  There is none if contents that seem to be small cannot be read. -/
def IsDataset (native : Datatype → Option Datatype) (dataSizeLimit bufferSize : UInt64)
    (dset : Dataset) (v : Value Bytes) : Prop :=
  ∃ memType attributes type, dset.Reads native memType ∧
    IsAttributes native dset.attributes attributes ∧ typeValue memType none = some type ∧
    (SeemsSmall dset memType dataSizeLimit → RowFits dset.space.dims memType.size bufferSize) ∧
    if numberOf dset.space.dims * memType.size.toNat ≤ dataSizeLimit.toNat then
      ∃ data, IsContents dset memType bufferSize data ∧
        v = record (datasetFields attributes type (kindValue memType) dset.space.dims ++
          [(ascii "data", data)])
    else v = record (datasetFields attributes type (kindValue memType) dset.space.dims)

/-- **Packing the dataset returns**: its attributes are sound, and if the call comes to the
contents and can read a row, these are. -/
def Dataset.Sound (native : Datatype → Option Datatype) (dataSizeLimit bufferSize : UInt64)
    (dset : Dataset) : Prop :=
  ∀ memType, dset.Reads native memType →
    AttributesSound native dset.attributes ∧
      ((∃ attributes, IsAttributes native dset.attributes attributes) →
        (typeValue memType none).isSome → SeemsSmall dset memType dataSizeLimit →
          ¬ RowRefused dset.space.dims memType.size bufferSize →
            ContentsSound dset memType bufferSize)

section

variable {dset : Dataset} {memType : Datatype} {dataSizeLimit bufferSize : UInt64} {passes : Nat}

/-- `pack_dataset`, when the type is known. -/
theorem packDataset_reads (pk : Packer) (hreads : dset.Reads native memType) (passes : Nat)
    (initial : Initial) (dataSizeLimit bufferSize : UInt64) :
    packDataset pk native passes initial dset dataSizeLimit bufferSize =
      let attributes :=
        (packAttributes pk native initial.attributes dset.attributes).mapError .contents
      match typeValue memType none with
      | none => andThen attributes (.error (.contents .error) : Except DatasetFailure Bytes)
          fun _ out => out
      | some type =>
        let entries := fun attributes =>
          datasetEntries pk attributes type.tokens (kindValue memType).tokens dset.space.dims
        if numberOf dset.space.dims * memType.size.toNat % 2 ^ 64 ≤ dataSizeLimit.toNat then
          andThen attributes (packDatasetSlice pk native passes initial dset
            dset.space.dims.length (initial.start dset.space.dims.length)
            (initial.dims dset.space.dims) bufferSize) fun attributes data =>
              pk.token (.mapHeader 6) ++
                writeEntries pk (entries attributes ++ [(ascii "data", data)])
        else attributes.map fun attributes =>
          pk.token (.mapHeader 5) ++ writeEntries pk (entries attributes) := by
  have htype := packNumpyType_value memType none
  simp only [packDataset, if_neg (Nat.not_lt.mpr hreads.1), hreads.2.1, if_neg hreads.2.2, htype,
    UInt64.le_iff_toNat_le, dataSize_toNat, decide_eq_true_eq]
  rcases hvalue : typeValue memType none with _ | type
  · rcases packAttributes pk native initial.attributes dset.attributes with e | attributes
    · rfl
    · rfl
  · rw [Option.map_some, packNumpyKind_value hvalue]
    rcases packAttributes pk native initial.attributes dset.attributes with e | attributes
    · dsimp only
      split
      · rfl
      · rfl
    · rfl

/-- Nothing is packed of a dataset that cannot be read. -/
theorem packDataset_noReads (pk : Packer) (h : ∀ memType, ¬ dset.Reads native memType)
    (passes : Nat) (initial : Initial) (dataSizeLimit bufferSize : UInt64) :
    packDataset pk native passes initial dset dataSizeLimit bufferSize =
      .error (.contents .error) := by
  by_cases hrank : Slices.maxDims < dset.space.dims.length
  · exact if_pos hrank
  cases hmem : makePackedNativeType native dset.fileType with
  | none => simp only [packDataset, if_neg hrank, hmem]
  | some memType =>
    have hzero : memType.size = 0 :=
      Classical.not_not.mp fun hne => h memType ⟨Nat.not_lt.mp hrank, hmem, hne⟩
    rw [packDataset, if_neg hrank, hmem]
    exact if_pos hzero

theorem Dataset.sound_iff (hreads : dset.Reads native memType) :
    dset.Sound native dataSizeLimit bufferSize ↔
      AttributesSound native dset.attributes ∧
        ((∃ attributes, IsAttributes native dset.attributes attributes) →
          (typeValue memType none).isSome → SeemsSmall dset memType dataSizeLimit →
            ¬ RowRefused dset.space.dims memType.size bufferSize →
              ContentsSound dset memType bufferSize) := by
  refine ⟨fun h => h memType hreads, fun h memType' hreads' => ?_⟩
  cases hreads.eq hreads'
  exact h

/-- The contents of a sound dataset that seem to be small are small. -/
theorem ContentsSound.le_iff (h : ContentsSound dset memType bufferSize) :
    SeemsSmall dset memType dataSizeLimit ↔
      numberOf dset.space.dims * memType.size.toNat ≤ dataSizeLimit.toNat := by
  have hmax := maxBinSize_pos
  have hsize := h.size
  rw [SeemsSmall, Nat.mod_eq_of_lt (by omega)]

/-- The values of a sound dataset with contents. -/
theorem isDataset_iff {type : Value Bytes} (hreads : dset.Reads native memType)
    (htype : typeValue memType none = some type) (hsmall : SeemsSmall dset memType dataSizeLimit)
    (hsound : dset.Sound native dataSizeLimit bufferSize) (v : Value Bytes) :
    (∃ attributes data, IsAttributes native dset.attributes attributes ∧
      IsContents dset memType bufferSize data ∧
        v = record (datasetFields attributes type (kindValue memType) dset.space.dims ++
          [(ascii "data", data)])) ↔
      IsDataset native dataSizeLimit bufferSize dset v := by
  have hcontents : ∀ attributes, IsAttributes native dset.attributes attributes →
      RowFits dset.space.dims memType.size bufferSize → ContentsSound dset memType bufferSize :=
    fun attributes hattributes hfits => (hsound memType hreads).2 ⟨attributes, hattributes⟩
      (by rw [htype]; rfl) hsmall hfits.not_refused
  constructor
  · rintro ⟨attributes, data, hattributes, hdata, rfl⟩
    refine ⟨memType, attributes, type, hreads, hattributes, htype, fun _ => hdata.1, ?_⟩
    rw [if_pos ((hcontents attributes hattributes hdata.1).le_iff.mp hsmall)]
    exact ⟨data, hdata, rfl⟩
  · rintro ⟨memType', attributes, type', hreads', hattributes, htype', hfits, hv⟩
    cases hreads.eq hreads'
    cases htype.symm.trans htype'
    rw [if_pos ((hcontents attributes hattributes (hfits hsmall)).le_iff.mp hsmall)] at hv
    obtain ⟨data, hdata, rfl⟩ := hv
    exact ⟨attributes, data, hattributes, hdata, rfl⟩

/-- **A dataset is packed as its value**, as long as it is sound. -/
theorem packDataset_decides (pk : Packer) (hsmall : dset.attributes.length < 2 ^ 31)
    (hmemory : dset.InMemory native) (hregular : D → dset.Regular native bufferSize)
    (hpasses : 2 ^ 64 + 1 ≤ passes) (initial : Initial) (dataSizeLimit : UInt64) :
    Decides D (.contents .error) (fun v => pk.write (Value.tokens v))
      (IsDataset native dataSizeLimit bufferSize dset)
      (dset.Sound native dataSizeLimit bufferSize)
      (packDataset pk native passes initial dset dataSizeLimit bufferSize) := by
  by_cases hread : ∃ memType, dset.Reads native memType
  swap
  · have hnone : ∀ memType, ¬ dset.Reads native memType := fun memType h => hread ⟨memType, h⟩
    rw [packDataset_noReads pk hnone]
    refine (Decides.failed ?_).congr (iff_of_true trivial fun memType h => absurd h (hnone memType))
    rintro v ⟨memType, _, _, h, _⟩
    exact hnone memType h
  obtain ⟨memType, hreads⟩ := hread
  have hattributes := (packAttributes_decides pk hsmall hmemory.attributes
    (fun hD => (hregular hD).attributes) initial.attributes).mapError
      DatasetFailure.contents_injective
  rw [packDataset_reads pk hreads]
  dsimp only
  rcases htype : typeValue memType none with _ | type
  · -- the type cannot be described
    have hfailed : Decides D (.contents .error) (fun v => pk.write (Value.tokens v))
        (fun _ => False) True (.error (.contents .error) : Except DatasetFailure Bytes) :=
      Decides.failed fun _ => id
    refine (Decides.andThen hattributes (fun _ => hfailed) (fun _ _ _ h => h.elim)
      fun v hv => ?_).congr ?_
    · obtain ⟨memType', _, _, hreads', _, htype', _⟩ := hv
      cases hreads.eq hreads'
      cases htype.symm.trans htype'
    · rw [Dataset.sound_iff hreads, htype]
      exact and_congr_right fun _ => iff_of_true (fun _ => trivial) fun _ h => by cases h
  have htypeSome : (typeValue memType none).isSome := by rw [htype]; rfl
  by_cases hdata : SeemsSmall dset memType dataSizeLimit
  · dsimp only
    rw [if_pos (show _ ≤ _ from hdata)]
    refine Decides.values (Decides.congr (Decides.andThen hattributes (fun _ =>
      packDatasetSlice_decides pk hreads htypeSome hmemory hregular hpasses initial)
        (fun attributes data ha hd => ?_) ?_) ?_)
        (isDataset_iff hreads htype hdata)
    · refine ⟨_, ⟨attributes, data, ha, hd, rfl⟩, ?_⟩
      rw [datasetEntries_eq, ← writeEntries_record, List.map_append]
      rfl
    · rintro v ⟨attributes, data, ha, hd, _⟩
      exact ⟨⟨attributes, ha⟩, data, hd⟩
    · rw [Dataset.sound_iff hreads]
      exact and_congr_right fun _ =>
        ⟨fun h ha _ _ => h ha, fun h ha => h ha htypeSome hdata⟩
  · have hlimit : ¬ numberOf dset.space.dims * memType.size.toNat ≤ dataSizeLimit.toNat :=
      fun hle => hdata (Nat.le_trans (Nat.mod_le _ _) hle)
    dsimp only
    rw [if_neg (show ¬ _ ≤ _ from hdata)]
    refine (Decides.map hattributes (fun attributes ha => ?_) fun v hv => ?_).congr ?_
    · refine ⟨record (datasetFields attributes type (kindValue memType) dset.space.dims),
        ⟨memType, attributes, type, hreads, ha, htype, fun h => absurd h hdata, ?_⟩, ?_⟩
      · rw [if_neg hlimit]
      · rw [datasetEntries_eq]
        exact writeEntries_record pk
          (datasetFields attributes type (kindValue memType) dset.space.dims)
    · obtain ⟨_, attributes, _, _, ha, _⟩ := hv
      exact ⟨attributes, ha⟩
    · rw [Dataset.sound_iff hreads]
      exact ⟨fun h => ⟨h, fun _ _ hsmall => absurd hsmall hdata⟩, And.left⟩

end

theorem bytesDataset_inMemory (dims : List UInt64) : (bytesDataset dims).InMemory some where
  attributes := fun attr hattr => by cases hattr
  data := fun _ _ _ => rfl
  stored := fun memType hreads hpointers => by
    cases hreads.2.1
    cases hpointers

end HdfStream.Pack
