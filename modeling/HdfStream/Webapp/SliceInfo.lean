/-
# The slices of a request

The model of `SliceInfo.java`, `DimensionInfo.java`, `DimensionArray.java` and `MsgpackUtils.java`.
The slices of a dataset come as a string in a GET request, and as a string or as nested arrays of
MessagePack integers in a POST request; either way they become two arrays of `long`.

Both parsers fill the arrays element by element, so an access out of range and an array of
negative size are among the outcomes here (`Thrown`).  `parse_wellFormed` and
`fromUnpacker_wellFormed` say that they do not occur and what the arrays are.

`malformed` is what the decoder of the Java library makes of bytes that are not UTF-8.
-/
import HdfStream.Lib.JavaArray
import HdfStream.Lib.Outcome
import HdfStream.Lib.JavaString
import HdfStream.Lib.Unpacker
import Mathlib.Data.List.GetD

namespace HdfStream.Webapp

open Java Msgpack Outcome

/-- A stream of bytes, as the calls that would have written it. -/
abbrev Bytes := List UInt8

/-- What is thrown. -/
inductive Thrown where
  /-- `InvalidSliceException`. -/
  | invalidSlice (message : JString)
  /-- `IOException`. -/
  | io (message : JString)
  /-- An exception of the unpacker. -/
  | unpack (e : UnpackError)
  /-- `ArrayIndexOutOfBoundsException`. -/
  | arrayIndex
  /-- `NegativeArraySizeException`. -/
  | negativeArraySize
deriving DecidableEq

instance : Coe UnpackError Thrown := ⟨.unpack⟩

/-- The exceptions that stand for a request that is refused. -/
def Thrown.Refuses : Thrown → Prop
  | .arrayIndex => False
  | .negativeArraySize => False
  | _ => True

variable {α : Type}

def invalidSlice (message : String) : Except Thrown α := .error (.invalidSlice (lit message))

/-- `MAX_STRING_LENGTH`. -/
def maxStringLength : Nat := 8 * 1024 * 1024
/-- `MAX_SLICES`. -/
def maxSlices : Nat := 16777216
/-- `MAX_DIMENSIONS`. -/
def maxDimensions : Nat := 8

structure SliceInfo where
  nrSlices : Int
  rank : Int
  starts : List Int
  counts : List Int
deriving DecidableEq

/-! ## 1. Slices as a string -/

/-- The start and the end of the range in one dimension. -/
def parseRange (dim : JString) : Except Thrown (Int × Int) :=
  match dim.splitOn ':' with
  | [field] =>
    match valueOfLong (trim field) with
    | .ok start => .ok (start.toInt, wrapLong (start.toInt + 1))
    | .error _ => invalidSlice "Unable to parse start index as integer"
  | [field, field'] =>
    match valueOfLong (trim field), valueOfLong (trim field') with
    | .ok start, .ok stop => .ok (start.toInt, stop.toInt)
    | _, _ => invalidSlice "Unable to parse start/end index as integer"
  | _ => invalidSlice "Unable to interpret slice specification!"

/-- The start and the count in one dimension. -/
def parseDim (dim : JString) : Except Thrown (Int × Int) := do
  let (start, stop) ← parseRange dim
  if start < 0 ∨ stop < 0 ∨ wrapLong (stop - start) < 0 then
    invalidSlice "Slice indexes must not be negative"
  else .ok (start, wrapLong (stop - start))

/-- The arrays, and how far they are filled. -/
structure Filling where
  rank : Int
  starts : List Int
  counts : List Int
  offset : Int

/-- `starts[offset] = start; counts[offset] = count; offset += 1`. -/
def Filling.put (st : Filling) (start count : Int) : Except Thrown Filling := do
  let starts ← store .arrayIndex st.starts st.offset start
  let counts ← store .arrayIndex st.counts st.offset count
  .ok { st with starts := starts, counts := counts, offset := wrapInt (st.offset + 1) }

/-- `starts` and `counts`, for `n` values each. -/
def Filling.new (rank n offset : Int) : Except Thrown Filling := do
  let starts ← newArray .negativeArraySize n
  let counts ← newArray .negativeArraySize n
  .ok { rank := rank, starts := starts, counts := counts, offset := offset }

/-- The dimensions of one slice. -/
def dimsOf (slice : JString) : List JString :=
  if (trim slice).length = 0 then [] else slice.splitOn ','

/-- One slice. -/
def parseSlice (nrSlices : Int) (st : Filling) (slice : JString × Nat) : Except Thrown Filling := do
  let dims := dimsOf slice.1
  if maxDimensions < dims.length then invalidSlice "Too many dimensions!"
  else
    let st ←
      if slice.2 = 0 then Filling.new dims.length (wrapInt (nrSlices * dims.length)) st.offset
      else if st.rank ≠ dims.length then
        invalidSlice "Slices must all have the same number of dimensions!"
      else .ok st
    dims.foldlM (fun st dim => do
      let (start, count) ← parseDim dim
      st.put start count) st

/-- `new SliceInfo(slice_descriptor)`. -/
def SliceInfo.parse (sliceDescriptor : JString) : Except Thrown SliceInfo := do
  if maxStringLength < charLength sliceDescriptor then invalidSlice "Slice string is too long!"
  else
    let slices := sliceDescriptor.splitOn ';'
    if maxSlices < slices.length then invalidSlice "Too many slices!"
    else
      let st ← slices.zipIdx.foldlM (parseSlice slices.length)
        { rank := 0, starts := [], counts := [], offset := 0 }
      .ok { nrSlices := slices.length, rank := st.rank, starts := st.starts, counts := st.counts }

/-! ## 2. Slices as MessagePack -/

/-- `unpackLimitedString`. -/
def unpackLimitedString (malformed : Bytes → JString) (maxBytes : Int) :
    Unpack Bytes Thrown JString := do
  let rawBytes ← unpackRawString
  if maxBytes < rawBytes.length then
    throw (.io (lit "String exceeds allowed size: " ++ decimal rawBytes.length ++ lit " bytes"))
  else return ofUtf8 malformed rawBytes

/-- The loop of `unpackLongArray`. -/
def unpackLongs : Nat → Unpack Bytes Thrown (List Int)
  | 0 => return []
  | n + 1 => do
    let value ← unpackLong
    let values ← unpackLongs n
    return value :: values

/-- `unpackLongArray`. -/
def unpackLongArray (maxLength : Nat) : Unpack Bytes Thrown (List Int) := do
  let n ← unpackArrayHeader
  if maxLength < n then throw (.io (lit "Array is too large!")) else unpackLongs n

/-- `unpackLongArrayOrScalar`. -/
def unpackLongArrayOrScalar (maxLength : Nat) : Unpack Bytes Thrown (List Int) := do
  match ← peek with
  | .int _ =>
    let value ← unpackLong
    return [value]
  | _ => unpackLongArray maxLength

/-- `if(c) throw new InvalidSliceException(message)`. -/
def refuseIf (c : Prop) [Decidable c] (message : String) : Unpack Bytes Thrown Unit :=
  if c then throw (.invalidSlice (lit message)) else return ()

/-- `catch (MessageTypeException e)`, where an `InvalidSliceException` is thrown instead. -/
def catchType (message : String) (x : Unpack Bytes Thrown α) : Unpack Bytes Thrown α := fun s =>
  match x s with
  | .error (.unpack .type) => invalidSlice message
  | r => r

structure DimensionInfo where
  start : List Int
  count : List Int

/-- `new DimensionInfo(unpacker)`. -/
def DimensionInfo.unpack : Unpack Bytes Thrown DimensionInfo :=
  catchType "Unexpected msgpack data type decoding slice" do
    let n ← unpackArrayHeader
    refuseIf (n ≠ 2) "Expected two element array with start:end indexes for slice(s)"
    let start ← unpackLongArrayOrScalar maxSlices
    let count ← unpackLongArrayOrScalar maxSlices
    refuseIf (count.length ≠ 1 ∧ start.length ≠ count.length)
      "Count array must be the same length as start array if not scalar"
    refuseIf (count.length = 0 ∨ start.length = 0)
      "Start and count arrays must not have zero length"
    return { start := start, count := count }

structure DimensionArray where
  nrDims : Int
  dims : List DimensionInfo

/-- The dimensions, one after the other. -/
def unpackDims : Nat → Unpack Bytes Thrown (List DimensionInfo)
  | 0 => return []
  | n + 1 => do
    let dim ← DimensionInfo.unpack
    let dims ← unpackDims n
    return dim :: dims

/-- `new DimensionArray(unpacker)`. -/
def DimensionArray.unpack : Unpack Bytes Thrown DimensionArray := do
  let nrDims ← catchType "Unexpected msgpack type decoding slice" unpackArrayHeader
  refuseIf (maxDimensions < nrDims) "Too many dimensions"
  let dims ← unpackDims nrDims
  refuseIf (∃ dim ∈ dims.drop 1, 1 < dim.start.length)
    "Slices may only differ in the first dimension"
  return { nrDims := nrDims, dims := dims }

/-- An array with one value for all slices or one for each. -/
def oneOrEach (values : List Int) (sliceNr : Int) : Except Thrown Int :=
  if 1 < values.length then load .arrayIndex values sliceNr else load .arrayIndex values 0

/-- The start and the count of a slice in one dimension. -/
def DimensionArray.putDim (this : DimensionArray) (sliceNr : Nat) (st : Filling) (dimNr : Nat) :
    Except Thrown Filling := do
  let dim ← load .arrayIndex this.dims dimNr
  let start ← oneOrEach dim.start sliceNr
  let count ← oneOrEach dim.count sliceNr
  st.put start count

/-- One slice. -/
def DimensionArray.putSlice (this : DimensionArray) (st : Filling) (sliceNr : Nat) :
    Except Thrown Filling :=
  (List.range this.nrDims.toNat).foldlM (this.putDim sliceNr) st

/-- The number of slices. -/
def DimensionArray.countSlices (this : DimensionArray) : Except Thrown Int :=
  if 0 < this.nrDims then (load .arrayIndex this.dims 0).map fun dim => dim.start.length
  else .ok 1

/-- `getSliceInfo`. -/
def DimensionArray.getSliceInfo (this : DimensionArray) : Except Thrown SliceInfo := do
  let nrSlices ← this.countSlices
  let st ← Filling.new this.nrDims (wrapInt (nrSlices * this.nrDims)) 0
  let st ← (List.range nrSlices.toNat).foldlM this.putSlice st
  .ok { nrSlices := nrSlices, rank := this.nrDims, starts := st.starts, counts := st.counts }

/-- `fromUnpacker`. -/
def SliceInfo.fromUnpacker (malformed : Bytes → JString) : Unpack Bytes Thrown SliceInfo := do
  let next ← hasNext
  refuseIf (next = false) "No messagepack slice data to unpack"
  match ← peek with
  | .str _ => do
    let descriptor ← unpackLimitedString malformed maxStringLength
    liftM (SliceInfo.parse descriptor)
  | .arrayHeader _ => do
    let darray ← DimensionArray.unpack
    liftM darray.getSliceInfo
  | _ => throw (.invalidSlice (lit "slice parameter must be a string or an array"))

/-! ## 3. Filling the arrays -/

/-- The values so far, in arrays for `n`. -/
structure Filling.At (rank n : Nat) (values : List (Int × Int)) (st : Filling) : Prop where
  rank_eq : st.rank = rank
  starts : Filled (values.map Prod.fst) n st.starts
  counts : Filled (values.map Prod.snd) n st.counts
  offset_eq : st.offset = values.length

theorem Filling.new_at (rank n : Nat) {offset : Int} (hoffset : offset = 0) :
    ∃ st, Filling.new rank n offset = .ok st ∧ st.At rank n [] := by
  refine ⟨{ rank := rank, starts := List.replicate n 0, counts := List.replicate n 0
            offset := offset }, ?_, ?_⟩
  · rw [Filling.new, newArray_natCast]
    rfl
  · exact ⟨rfl, Filled.nil n, Filled.nil n, hoffset⟩

/-- **One more value** fits while there is space. -/
theorem Filling.At.put {rank n : Nat} {values : List (Int × Int)} {st : Filling}
    (h : st.At rank n values) (hlt : values.length < n) (hn : n < 2147483648) (start count : Int) :
    ∃ st', st.put start count = .ok st' ∧ st'.At rank n (values ++ [(start, count)]) := by
  obtain ⟨starts, hstarts, hfilled⟩ := h.starts.store Thrown.arrayIndex
    (by rw [List.length_map]; exact hlt) start
  obtain ⟨counts, hcounts, hfilled'⟩ := h.counts.store Thrown.arrayIndex
    (by rw [List.length_map]; exact hlt) count
  rw [List.length_map] at hstarts hcounts
  refine ⟨{ st with starts := starts, counts := counts, offset := wrapInt (st.offset + 1) },
    ?_, h.rank_eq, ?_, ?_, ?_⟩
  · rw [Filling.put, h.offset_eq, hstarts, hcounts]
    rfl
  · rw [List.map_append]
    exact hfilled
  · rw [List.map_append]
    exact hfilled'
  · show wrapInt (st.offset + 1) = _
    rw [h.offset_eq, wrapInt_eq (by omega) (by omega), List.length_append, List.length_singleton]
    rfl

/-- Arrays that are full. -/
theorem Filling.At.full {rank n : Nat} {values : List (Int × Int)} {st : Filling}
    (h : st.At rank n values) (hlen : values.length = n) :
    st.starts = values.map Prod.fst ∧ st.counts = values.map Prod.snd := by
  have hstarts := h.starts
  have hcounts := h.counts
  rw [← hlen, ← List.length_map (f := Prod.fst)] at hstarts
  rw [← hlen, ← List.length_map (f := Prod.snd)] at hcounts
  exact ⟨hstarts.full, hcounts.full⟩

/-- A value of type `long`. -/
def IsLong (n : Int) : Prop := -9223372036854775808 ≤ n ∧ n < 9223372036854775808

theorem isLong_wrapLong (n : Int) : IsLong (wrapLong n) := by
  have h := Int.le_bmod (x := n) (m := 2 ^ 64) (by decide)
  have h' := Int.bmod_lt (x := n) (m := 2 ^ 64) (by decide)
  unfold IsLong wrapLong
  omega

theorem isLong_toInt (b : BitVec 64) : IsLong b.toInt := by
  have h := BitVec.le_toInt b
  have h' := BitVec.toInt_lt (x := b)
  unfold IsLong
  omega

/-- The slices of a request as the C library wants them. -/
structure SliceInfo.WellFormed (slice : SliceInfo) : Prop where
  nrSlices_pos : 1 ≤ slice.nrSlices
  nrSlices_le : slice.nrSlices ≤ maxSlices
  rank_nonneg : 0 ≤ slice.rank
  rank_le : slice.rank ≤ maxDimensions
  starts_length : slice.starts.length = slice.nrSlices * slice.rank
  counts_length : slice.counts.length = slice.nrSlices * slice.rank
  starts_long : ∀ n ∈ slice.starts, IsLong n
  counts_long : ∀ n ∈ slice.counts, IsLong n

/-- The slices in arrays that are full. -/
theorem Filling.At.wellFormed {rank nrSlices : Nat} {values : List (Int × Int)} {st : Filling}
    (h : st.At rank (nrSlices * rank) values) (hlen : values.length = nrSlices * rank)
    (hlong : ∀ v ∈ values, IsLong v.1 ∧ IsLong v.2) (hpos : 1 ≤ nrSlices)
    (hle : nrSlices ≤ maxSlices) (hrank : rank ≤ maxDimensions) :
    SliceInfo.WellFormed
      { nrSlices := nrSlices, rank := st.rank, starts := st.starts, counts := st.counts } := by
  obtain ⟨hstarts, hcounts⟩ := h.full hlen
  constructor
  · show (1 : Int) ≤ nrSlices
    omega
  · show (nrSlices : Int) ≤ maxSlices
    omega
  · rw [h.rank_eq]
    exact Int.natCast_nonneg rank
  · rw [h.rank_eq]
    show (rank : Int) ≤ maxDimensions
    omega
  · rw [h.rank_eq, hstarts, List.length_map, hlen]
    exact Int.natCast_mul nrSlices rank
  · rw [h.rank_eq, hcounts, List.length_map, hlen]
    exact Int.natCast_mul nrSlices rank
  · intro n hn
    rw [hstarts] at hn
    obtain ⟨v, hv, rfl⟩ := List.mem_map.mp hn
    exact (hlong v hv).1
  · intro n hn
    rw [hcounts] at hn
    obtain ⟨v, hv, rfl⟩ := List.mem_map.mp hn
    exact (hlong v hv).2

/-! ## 4. The string -/

theorem parseRange_long (dim : JString) :
    Ends Thrown.Refuses (fun r => IsLong r.1 ∧ IsLong r.2) (parseRange dim) := by
  unfold parseRange
  split
  · split
    · exact ⟨isLong_toInt _, isLong_wrapLong _⟩
    · trivial
  · split
    · exact ⟨isLong_toInt _, isLong_toInt _⟩
    · trivial
  · trivial

theorem parseDim_long (dim : JString) :
    Ends Thrown.Refuses (fun r => IsLong r.1 ∧ IsLong r.2) (parseDim dim) := by
  refine (parseRange_long dim).bind ?_
  rintro ⟨start, stop⟩ hr
  dsimp only
  split
  · trivial
  · exact ⟨hr.1, isLong_wrapLong _⟩

/-- The dimensions of one slice are put behind those of the slices before. -/
theorem putDims_at {rank n : Nat} {values : List (Int × Int)} {dims : List JString} {st : Filling}
    (h : st.At rank n values) (hspace : values.length + dims.length ≤ n) (hn : n < 2147483648)
    (hlong : ∀ v ∈ values, IsLong v.1 ∧ IsLong v.2) :
    Ends Thrown.Refuses
      (fun st' => ∃ values', st'.At rank n values' ∧
        values'.length = values.length + dims.length ∧ ∀ v ∈ values', IsLong v.1 ∧ IsLong v.2)
      (dims.foldlM (fun st dim => do
        let (start, count) ← parseDim dim
        Filling.put st start count) st) := by
  refine Ends.foldlM (I := fun before st' => ∃ values', Filling.At rank n values' st' ∧
      values'.length = values.length + before.length ∧ ∀ v ∈ values', IsLong v.1 ∧ IsLong v.2)
    ?_ ⟨values, h, rfl, hlong⟩
  rintro before dim st₁ hprefix ⟨values₁, h₁, hlen₁, hlong₁⟩
  refine (parseDim_long dim).bind ?_
  rintro ⟨start, count⟩ hr
  have hlt := hprefix.length_le
  rw [List.length_append, List.length_singleton] at hlt
  obtain ⟨st₂, hput, h₂⟩ := h₁.put (by omega) hn start count
  dsimp only
  rw [hput]
  refine ⟨_, h₂, ?_, ?_⟩
  · simp only [List.length_append, List.length_singleton]
    omega
  · intro v hv
    rcases List.mem_append.mp hv with hv | hv
    · exact hlong₁ v hv
    · rw [List.mem_singleton.mp hv]
      exact hr

/-- After the slices `before` of `nrSlices`. -/
def Parsed (nrSlices : Nat) (before : List (JString × Nat)) (st : Filling) : Prop :=
  if before = [] then st.offset = 0
  else ∃ (rank : Nat) (values : List (Int × Int)), rank ≤ maxDimensions ∧
    st.At rank (nrSlices * rank) values ∧ values.length = before.length * rank ∧
    ∀ v ∈ values, IsLong v.1 ∧ IsLong v.2

/-- **One slice.** -/
theorem parseSlice_parsed {nrSlices : Nat} (hnr : nrSlices ≤ maxSlices)
    {before : List (JString × Nat)} {slice : JString × Nat} {st : Filling}
    (hindex : slice.2 = before.length) (hlt : before.length < nrSlices)
    (h : Parsed nrSlices before st) :
    Ends Thrown.Refuses (Parsed nrSlices (before ++ [slice])) (parseSlice nrSlices st slice) := by
  have hbound : ∀ rank, rank ≤ maxDimensions → nrSlices * rank < 2147483648 := fun rank hrank =>
    Nat.lt_of_le_of_lt (Nat.mul_le_mul hnr hrank) (by decide)
  -- the dimensions of this slice, whatever is before it
  have hput : ∀ (values : List (Int × Int)) (st₁ : Filling),
      (dimsOf slice.1).length ≤ maxDimensions →
      st₁.At (dimsOf slice.1).length (nrSlices * (dimsOf slice.1).length) values →
      values.length = before.length * (dimsOf slice.1).length →
      (∀ v ∈ values, IsLong v.1 ∧ IsLong v.2) →
      Ends Thrown.Refuses (Parsed nrSlices (before ++ [slice]))
        ((dimsOf slice.1).foldlM (fun st dim => do
          let (start, count) ← parseDim dim
          Filling.put st start count) st₁) := by
    intro values st₁ hrank hat hlen hlong
    have hspace : values.length + (dimsOf slice.1).length ≤
        nrSlices * (dimsOf slice.1).length := by
      rw [hlen, ← Nat.succ_mul]
      exact Nat.mul_le_mul_right _ hlt
    refine (putDims_at hat hspace (hbound _ hrank) hlong).mono fun st₂ h₂ => ?_
    obtain ⟨values', hat', hlen', hlong'⟩ := h₂
    rw [Parsed, if_neg (List.append_ne_nil_of_right_ne_nil _ (List.cons_ne_nil _ _))]
    refine ⟨_, values', hrank, hat', ?_, hlong'⟩
    rw [hlen', hlen, List.length_append, List.length_singleton, Nat.succ_mul]
  unfold parseSlice
  dsimp only
  split
  · trivial
  rename_i hdims
  replace hdims : (dimsOf slice.1).length ≤ maxDimensions := Nat.le_of_not_lt hdims
  by_cases hfirst : slice.2 = 0
  · have hbefore : before = [] := List.length_eq_zero_iff.mp (hindex.symm.trans hfirst)
    rw [Parsed, if_pos hbefore] at h
    have hsize : wrapInt ((nrSlices : Int) * ((dimsOf slice.1).length : Int)) =
        ((nrSlices * (dimsOf slice.1).length : Nat) : Int) := by
      have := hbound _ hdims
      rw [← Int.natCast_mul, wrapInt_eq (by omega) (by omega)]
    obtain ⟨st₁, hnew, hat⟩ := Filling.new_at (dimsOf slice.1).length
      (nrSlices * (dimsOf slice.1).length) h
    rw [if_pos hfirst, hsize, hnew]
    refine hput [] st₁ hdims hat ?_ fun v hv => by cases hv
    rw [hbefore]
    exact (Nat.zero_mul _).symm
  · have hbefore : before ≠ [] := by
      intro hnil
      rw [hnil] at hindex
      exact hfirst hindex
    rw [Parsed, if_neg hbefore] at h
    obtain ⟨rank, values, _, hat, hlen, hlong⟩ := h
    rw [if_neg hfirst]
    split
    · trivial
    rename_i hsame
    have hrank : rank = (dimsOf slice.1).length := by
      rw [hat.rank_eq, not_not] at hsame
      exact_mod_cast hsame
    subst hrank
    exact hput values st hdims hat hlen hlong

/-- **A string that is parsed makes well-formed slices**, and a string that is not parsed is
refused. -/
theorem parse_wellFormed (sliceDescriptor : JString) :
    Ends Thrown.Refuses SliceInfo.WellFormed (SliceInfo.parse sliceDescriptor) := by
  unfold SliceInfo.parse
  split
  · trivial
  dsimp only
  split
  · trivial
  rename_i _ hslices
  have hpos : 1 ≤ (sliceDescriptor.splitOn ';').length :=
    List.length_pos_iff.mpr (List.splitOnP_ne_nil _ _)
  generalize sliceDescriptor.splitOn ';' = slices at hslices hpos
  refine Ends.bind (Ends.foldlM (I := Parsed slices.length) ?_ rfl) fun st hst => ?_
  · intro before slice st hprefix h
    have hlt := hprefix.length_le
    rw [List.length_append, List.length_singleton, List.length_zipIdx] at hlt
    refine parseSlice_parsed (Nat.le_of_not_lt hslices) ?_ hlt h
    have hslice := hprefix.getElem (i := before.length) (by simp)
    rw [List.getElem_concat_length rfl, List.getElem_zipIdx] at hslice
    rw [hslice, Nat.zero_add]
  · have hne : slices.zipIdx ≠ [] := by
      rw [← List.length_pos_iff, List.length_zipIdx]
      exact hpos
    rw [Parsed, if_neg hne, List.length_zipIdx] at hst
    obtain ⟨rank, values, hrank, hat, hlen, hlong⟩ := hst
    exact hat.wellFormed hlen hlong hpos (Nat.le_of_not_lt hslices) hrank

/-! ## 5. The nested arrays -/

/-- A call on any stream returns a value with `P` or is refused. -/
def Unpacks (P : α → Prop) (x : Unpack Bytes Thrown α) : Prop :=
  ∀ s, Ends Thrown.Refuses (fun r => P r.1) (x s)

variable {β : Type}

theorem Unpacks.bind {P : α → Prop} {Q : β → Prop} {x : Unpack Bytes Thrown α}
    {f : α → Unpack Bytes Thrown β} (h : Unpacks P x) (hf : ∀ a, P a → Unpacks Q (f a)) :
    Unpacks Q (x >>= f) := fun s => (h s).bind fun r hr => hf r.1 hr r.2

theorem Unpacks.pure {P : α → Prop} {a : α} (h : P a) : Unpacks P (Pure.pure a) := fun _ => h

theorem Unpacks.throw {P : α → Prop} {e : Thrown} (h : e.Refuses) :
    Unpacks P (MonadExcept.throw e) := fun _ => h

theorem Unpacks.lift {P : α → Prop} {x : Except Thrown α} (h : Ends Thrown.Refuses P x) :
    Unpacks P (liftM x) := by
  intro s
  cases x with
  | ok a => exact h
  | error e => exact h

theorem Unpacks.mono {P Q : α → Prop} {x : Unpack Bytes Thrown α} (h : Unpacks P x)
    (hPQ : ∀ a, P a → Q a) : Unpacks Q x := fun s => (h s).mono fun r hr => hPQ r.1 hr

theorem Unpacks.catchType {P : α → Prop} {x : Unpack Bytes Thrown α} (h : Unpacks P x)
    (message : String) : Unpacks P (catchType message x) := by
  intro s
  unfold Webapp.catchType
  split
  · trivial
  · exact h s

theorem unpacks_refuseIf (c : Prop) [Decidable c] (message : String) :
    Unpacks (fun _ => ¬ c) (refuseIf c message) := by
  intro s
  unfold refuseIf
  split
  · trivial
  · assumption

theorem unpacks_arrayHeader : Unpacks (fun _ => True)
    (unpackArrayHeader : Unpack Bytes Thrown Nat) := by
  intro s
  unfold unpackArrayHeader
  split
  · unfold size
    split
    · trivial
    · trivial
  · trivial
  · trivial

theorem unpacks_peek : Unpacks (fun _ => True) (peek : Unpack Bytes Thrown (Token Bytes)) := by
  intro s
  unfold peek
  split <;> trivial

theorem unpacks_rawString : Unpacks (fun _ => True)
    (unpackRawString : Unpack Bytes Thrown Bytes) := by
  intro s
  unfold unpackRawString
  split <;> trivial

theorem unpacks_long : Unpacks IsLong (unpackLong : Unpack Bytes Thrown Int) := by
  intro s
  unfold unpackLong
  split
  · split
    · assumption
    · trivial
  · trivial
  · trivial

theorem unpacks_longs (n : Nat) :
    Unpacks (fun values => values.length = n ∧ ∀ v ∈ values, IsLong v) (unpackLongs n) := by
  induction n with
  | zero => exact Unpacks.pure ⟨rfl, fun v hv => by cases hv⟩
  | succ n ih =>
    refine unpacks_long.bind fun value hvalue => ih.bind fun values hvalues => Unpacks.pure ⟨?_, ?_⟩
    · rw [List.length_cons, hvalues.1]
    · intro v hv
      rcases List.mem_cons.mp hv with rfl | hv
      · exact hvalue
      · exact hvalues.2 v hv

theorem unpacks_longArrayOrScalar {maxLength : Nat} (hmax : 1 ≤ maxLength) :
    Unpacks (fun values => values.length ≤ maxLength ∧ ∀ v ∈ values, IsLong v)
      (unpackLongArrayOrScalar maxLength) := by
  refine unpacks_peek.bind fun t _ => ?_
  split
  · refine unpacks_long.bind fun value hvalue => Unpacks.pure ⟨hmax, fun v hv => ?_⟩
    rw [List.mem_singleton.mp hv]
    exact hvalue
  · refine unpacks_arrayHeader.bind fun n _ => ?_
    split
    · exact Unpacks.throw trivial
    · rename_i hle
      exact (unpacks_longs n).mono fun values hvalues => ⟨by omega, hvalues.2⟩

/-- One dimension: a start for each slice, and one count or a count for each slice. -/
structure DimensionInfo.Ok (dim : DimensionInfo) : Prop where
  start_pos : 1 ≤ dim.start.length
  start_le : dim.start.length ≤ maxSlices
  count_length : dim.count.length = 1 ∨ dim.count.length = dim.start.length
  start_long : ∀ v ∈ dim.start, IsLong v
  count_long : ∀ v ∈ dim.count, IsLong v

theorem unpacks_dimensionInfo : Unpacks DimensionInfo.Ok DimensionInfo.unpack := by
  refine Unpacks.catchType ?_ _
  refine unpacks_arrayHeader.bind fun n _ => (unpacks_refuseIf _ _).bind fun _ _ => ?_
  refine (unpacks_longArrayOrScalar (by decide)).bind fun start hstart => ?_
  refine (unpacks_longArrayOrScalar (by decide)).bind fun count hcount => ?_
  refine (unpacks_refuseIf _ _).bind fun _ hlen => (unpacks_refuseIf _ _).bind fun _ hpos => ?_
  refine Unpacks.pure ⟨?_, hstart.1, ?_, hstart.2, hcount.2⟩
  · show 1 ≤ start.length
    omega
  · show count.length = 1 ∨ count.length = start.length
    omega

/-- All dimensions: only the first one has a start for each slice. -/
structure DimensionArray.Ok (this : DimensionArray) : Prop where
  nrDims_eq : this.nrDims = this.dims.length
  nrDims_le : this.dims.length ≤ maxDimensions
  dims_ok : ∀ dim ∈ this.dims, dim.Ok
  inner : ∀ dim ∈ this.dims.drop 1, dim.start.length ≤ 1

theorem unpacks_dims (n : Nat) :
    Unpacks (fun dims => dims.length = n ∧ ∀ dim ∈ dims, dim.Ok) (unpackDims n) := by
  induction n with
  | zero => exact Unpacks.pure ⟨rfl, fun dim hdim => by cases hdim⟩
  | succ n ih =>
    refine unpacks_dimensionInfo.bind fun dim hdim => ih.bind fun dims hdims =>
      Unpacks.pure ⟨?_, ?_⟩
    · rw [List.length_cons, hdims.1]
    · intro d hd
      rcases List.mem_cons.mp hd with rfl | hd
      · exact hdim
      · exact hdims.2 d hd

theorem unpacks_dimensionArray : Unpacks DimensionArray.Ok DimensionArray.unpack := by
  refine (unpacks_arrayHeader.catchType _).bind fun n _ => ?_
  refine (unpacks_refuseIf _ _).bind fun _ hle => (unpacks_dims n).bind fun dims hdims => ?_
  refine (unpacks_refuseIf _ _).bind fun _ hinner => Unpacks.pure ⟨?_, ?_, hdims.2, ?_⟩
  · show (n : Int) = dims.length
    rw [hdims.1]
  · show dims.length ≤ maxDimensions
    rw [hdims.1]
    exact Nat.le_of_not_lt hle
  · intro dim hdim
    exact Nat.le_of_not_lt fun hlt => hinner ⟨dim, hdim, hlt⟩

/-- The value of a slice in one dimension. -/
def valueOf (values : List Int) (sliceNr : Nat) : Int :=
  if 1 < values.length then values.getD sliceNr 0 else values.getD 0 0

theorem oneOrEach_eq {values : List Int} {n sliceNr : Nat}
    (hlen : values.length = 1 ∨ values.length = n) (hlt : sliceNr < n) :
    oneOrEach values sliceNr = .ok (valueOf values sliceNr) := by
  unfold oneOrEach valueOf
  split
  · rw [load_natCast _ (by omega), List.getD_eq_getElem _ _ (by omega)]
  · have hpos : 0 < values.length := by omega
    exact (load_natCast (i := 0) _ hpos).trans (by rw [List.getD_eq_getElem _ _ hpos])

/-- The starts and counts of the slices, one slice after the other. -/
def DimensionArray.values (this : DimensionArray) (nrSlices : Nat) : List (Int × Int) :=
  (List.range nrSlices).flatMap fun sliceNr =>
    this.dims.map fun dim => (valueOf dim.start sliceNr, valueOf dim.count sliceNr)

/-- The slices of an array: one, if there are no dimensions. -/
def DimensionArray.nrSlices (this : DimensionArray) : Nat :=
  match this.dims with
  | [] => 1
  | dim :: _ => dim.start.length

/-- The values of one slice. -/
def DimensionArray.row (this : DimensionArray) (sliceNr : Nat) : List (Int × Int) :=
  this.dims.map fun dim => (valueOf dim.start sliceNr, valueOf dim.count sliceNr)

/-- The next number of a range. -/
theorem eq_of_prefix_range {before : List Nat} {x n : Nat} (h : before ++ [x] <+: List.range n) :
    x = before.length ∧ before.length < n := by
  have hlt := h.length_le
  rw [List.length_append, List.length_singleton, List.length_range] at hlt
  have hx := h.getElem (i := before.length) (by simp)
  rw [List.getElem_concat_length rfl, List.getElem_range] at hx
  exact ⟨hx, hlt⟩

/-- All dimensions have a value for every slice. -/
theorem DimensionArray.Ok.count_length {this : DimensionArray} (h : this.Ok) {dim : DimensionInfo}
    (hdim : dim ∈ this.dims) :
    (dim.start.length = 1 ∨ dim.start.length = this.nrSlices) ∧
      (dim.count.length = 1 ∨ dim.count.length = this.nrSlices) := by
  have hok := h.dims_ok dim hdim
  have hcount := hok.count_length
  unfold DimensionArray.nrSlices
  rcases hdims : this.dims with _ | ⟨first, rest⟩
  · rw [hdims] at hdim
    cases hdim
  · rw [hdims] at hdim
    rcases List.mem_cons.mp hdim with rfl | hrest
    · exact ⟨.inr rfl, hcount⟩
    · have hinner := h.inner dim (by rw [hdims]; exact hrest)
      have := hok.start_pos
      omega

/-- **One slice** is put behind the slices before. -/
theorem putSlice_at {this : DimensionArray} (h : this.Ok) {n sliceNr : Nat}
    {values : List (Int × Int)} {st : Filling} (hst : st.At this.dims.length n values)
    (hspace : values.length + this.dims.length ≤ n) (hn : n < 2147483648)
    (hslice : sliceNr < this.nrSlices) :
    Ends (fun _ => False) (Filling.At this.dims.length n (values ++ this.row sliceNr))
      (this.putSlice st sliceNr) := by
  have hrow : (this.row sliceNr).length = this.dims.length := List.length_map _
  have hall : (this.row sliceNr).take (List.range this.dims.length).length = this.row sliceNr := by
    rw [List.length_range, ← hrow, List.take_length]
  rw [DimensionArray.putSlice, h.nrDims_eq, Int.toNat_natCast, ← hall]
  refine Ends.foldlM (I := fun before st' => Filling.At this.dims.length n
    (values ++ (this.row sliceNr).take before.length) st') ?_ ?_
  · intro before dimNr st₁ hprefix h₁
    obtain ⟨rfl, hlt⟩ := eq_of_prefix_range hprefix
    have hcount := h.count_length (List.getElem_mem hlt)
    obtain ⟨st₂, hput, h₂⟩ := h₁.put (by rw [List.length_append, List.length_take]; omega) hn
      (valueOf this.dims[before.length].start sliceNr)
      (valueOf this.dims[before.length].count sliceNr)
    have hstep : this.putDim sliceNr st₁ before.length = .ok st₂ := by
      rw [DimensionArray.putDim, load_natCast _ hlt]
      show (do
        let start ← oneOrEach this.dims[before.length].start sliceNr
        let count ← oneOrEach this.dims[before.length].count sliceNr
        Filling.put st₁ start count) = _
      rw [oneOrEach_eq hcount.1 hslice, oneOrEach_eq hcount.2 hslice]
      exact hput
    rw [hstep, List.length_append, List.length_singleton,
      List.take_succ_eq_append_getElem (by omega), ← List.append_assoc]
    simp only [DimensionArray.row, List.getElem_map, ends_ok] at h₂ ⊢
    exact h₂
  · rw [List.length_nil, List.take_zero, List.append_nil]
    exact hst

theorem values_succ (this : DimensionArray) (k : Nat) :
    this.values (k + 1) = this.values k ++ this.row k := by
  rw [DimensionArray.values, List.range_succ, List.flatMap_append, List.flatMap_singleton]
  rfl

theorem values_length (this : DimensionArray) (k : Nat) :
    (this.values k).length = k * this.dims.length := by
  induction k with
  | zero => rw [Nat.zero_mul]; rfl
  | succ k ih =>
    rw [values_succ, List.length_append, ih, DimensionArray.row, List.length_map, Nat.succ_mul]

theorem nrSlices_bounds {this : DimensionArray} (h : this.Ok) :
    1 ≤ this.nrSlices ∧ this.nrSlices ≤ maxSlices := by
  unfold DimensionArray.nrSlices
  rcases hdims : this.dims with _ | ⟨first, rest⟩
  · exact ⟨Nat.le_refl 1, by decide⟩
  · have hok := h.dims_ok first (by rw [hdims]; exact List.mem_cons_self)
    exact ⟨hok.start_pos, hok.start_le⟩

theorem size_lt {this : DimensionArray} (h : this.Ok) :
    this.nrSlices * this.dims.length < 2147483648 :=
  Nat.lt_of_le_of_lt (Nat.mul_le_mul (nrSlices_bounds h).2 h.nrDims_le) (by decide)

/-- **`getSliceInfo` reads and writes its arrays within their bounds.** -/
theorem getSliceInfo_at {this : DimensionArray} (h : this.Ok) :
    ∃ st : Filling,
      st.At this.dims.length (this.nrSlices * this.dims.length) (this.values this.nrSlices) ∧
      this.getSliceInfo = .ok
        { nrSlices := this.nrSlices, rank := st.rank, starts := st.starts, counts :=
          st.counts } := by
  have hsize := size_lt h
  obtain ⟨st₀, hnew, hat⟩ := Filling.new_at this.dims.length
    (this.nrSlices * this.dims.length) (rfl : (0 : Int) = 0)
  have hslices : Ends (fun _ => False) (Filling.At this.dims.length
      (this.nrSlices * this.dims.length) (this.values (List.range this.nrSlices).length))
      ((List.range this.nrSlices).foldlM this.putSlice st₀) := by
    refine Ends.foldlM (I := fun before st => Filling.At this.dims.length
      (this.nrSlices * this.dims.length) (this.values before.length) st) ?_ hat
    intro before sliceNr st₁ hprefix h₁
    obtain ⟨rfl, hlt⟩ := eq_of_prefix_range hprefix
    rw [List.length_append, List.length_singleton, values_succ]
    refine putSlice_at h h₁ ?_ hsize hlt
    rw [values_length, ← Nat.succ_mul]
    exact Nat.mul_le_mul_right _ hlt
  obtain ⟨st, hloop, hst⟩ := ends_false_iff.mp hslices
  rw [List.length_range] at hst
  refine ⟨st, hst, ?_⟩
  have hnr : this.countSlices = .ok (this.nrSlices : Int) := by
    rw [DimensionArray.countSlices, h.nrDims_eq, DimensionArray.nrSlices]
    rcases this.dims with _ | ⟨first, rest⟩
    · rfl
    · rw [if_pos (by simp only [List.length_cons]; omega)]
      rfl
  unfold DimensionArray.getSliceInfo
  rw [hnr]
  show (do
    let st ← Filling.new this.nrDims (wrapInt ((this.nrSlices : Int) * this.nrDims)) 0
    let st ← (List.range (this.nrSlices : Int).toNat).foldlM this.putSlice st
    Except.ok (ε := Thrown) (SliceInfo.mk this.nrSlices this.nrDims st.starts st.counts)) = _
  rw [Int.toNat_natCast, hst.rank_eq, h.nrDims_eq, ← Int.natCast_mul,
    wrapInt_eq (by omega) (by omega), hnew]
  show (do
    let st ← (List.range this.nrSlices).foldlM this.putSlice st₀
    Except.ok (ε := Thrown) (SliceInfo.mk this.nrSlices this.dims.length st.starts st.counts)) = _
  rw [hloop]
  rfl

theorem values_long {this : DimensionArray} (h : this.Ok) {k : Nat} :
    ∀ v ∈ this.values k, IsLong v.1 ∧ IsLong v.2 := by
  intro v hv
  have hget : ∀ {values : List Int} (sliceNr : Nat), (∀ v ∈ values, IsLong v) →
      IsLong (valueOf values sliceNr) := by
    intro values sliceNr hvalues
    have hzero : IsLong 0 := ⟨by decide, by decide⟩
    have hgetD : ∀ i, IsLong (values.getD i 0) := by
      intro i
      rw [List.getD_eq_getElem?_getD]
      cases hi : values[i]? with
      | none => exact hzero
      | some v => exact hvalues v (List.mem_of_getElem? hi)
    unfold valueOf
    split
    · exact hgetD _
    · exact hgetD _
  obtain ⟨sliceNr, _, hrow⟩ := List.mem_flatMap.mp hv
  obtain ⟨dim, hdim, rfl⟩ := List.mem_map.mp hrow
  have hok := h.dims_ok dim hdim
  exact ⟨hget sliceNr hok.start_long, hget sliceNr hok.count_long⟩

theorem getSliceInfo_wellFormed {this : DimensionArray} (h : this.Ok) :
    Ends Thrown.Refuses SliceInfo.WellFormed this.getSliceInfo := by
  obtain ⟨st, hat, heq⟩ := getSliceInfo_at h
  rw [heq]
  exact hat.wellFormed (values_length this _) (values_long h) (nrSlices_bounds h).1
    (nrSlices_bounds h).2 h.nrDims_le

/-- **Slices that are unpacked are well-formed**, whatever the stream, and a stream that is not
unpacked is refused. -/
theorem fromUnpacker_wellFormed (malformed : Bytes → JString) :
    Unpacks SliceInfo.WellFormed (SliceInfo.fromUnpacker malformed) := by
  refine Unpacks.bind (P := fun _ => True) (fun _ => trivial) fun next _ => ?_
  refine (unpacks_refuseIf _ _).bind fun _ _ => unpacks_peek.bind fun t _ => ?_
  split
  · refine Unpacks.bind (P := fun _ => True) ?_ fun descriptor _ =>
      Unpacks.lift (parse_wellFormed descriptor)
    refine unpacks_rawString.bind fun bytes _ => ?_
    split
    · exact Unpacks.throw trivial
    · exact Unpacks.pure trivial
  · exact unpacks_dimensionArray.bind fun darray h => Unpacks.lift (getSliceInfo_wellFormed h)
  · exact Unpacks.throw trivial

end HdfStream.Webapp
