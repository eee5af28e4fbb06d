/-
# Reading several slices of a dataset

A request names `nr_slices` hyperslabs that differ in the first dimension only.  They are read
in the given order, as many rows at a time as fit into one buffer.  This file is the model of

* `multislice_init` and `multislice_select_next_buffer_data` of `multislice.c`, the iterator
  that cuts the slices into selections;
* `pack_dataset_multi_slice_with_max_size` of `pack_dataset.c`, as far as it decides what is
  read: the size of a row, the rows that fit into the buffer, the bounds checks, and the loop
  over the chunks.

`size_t` and `hsize_t` are `UInt64`, so all arithmetic wraps as it does in C.  A pointer to an
array is a function on the index; the entries a request does not define may be anything, and
so may the fields of an uninitialised struct.  Calls of the HDF5 library succeed; what
`H5Dread` delivers for a selection is `h5Dread`.
-/
import HdfStream.Lib.Loop

namespace HdfStream.Slices

/-- `HDFSTREAM_MAX_DIMS`. -/
def maxDims : Nat := 32
/-- `HDFSTREAM_MAX_SLICES`. -/
def maxSlices : Nat := 16777216
/-- `MAX_SELECTIONS_PER_BUFFER`. -/
def maxSelectionsPerBuffer : Nat := 10 * 1024

/-- `struct multislice`. -/
structure Multislice where
  rank : Nat
  nrSlices : Nat
  starts : Nat → UInt64
  counts : Nat → UInt64
  elementsPerBuffer : UInt64
  elementsLeftTotal : UInt64
  sliceNr : Nat
  offsetInSlice : UInt64
  totalCount : Nat → UInt64
  start : Nat → UInt64
  count : Nat → UInt64
deriving Inhabited

def minSize (a b : UInt64) : UInt64 := if a < b then a else b

/-! ## 1. `multislice_init` -/

/-- The slice is not within the dataspace on disk. -/
def outOfBounds (rank : Nat) (starts counts fileDims : Nat → UInt64) (sliceNr : Nat) : Bool :=
  (List.range rank).any fun dimNr =>
    starts (rank * sliceNr + dimNr) + counts (rank * sliceNr + dimNr) > fileDims dimNr

/-- The slice does not follow the previous one: it starts before it, overlaps it, or differs
from it in another dimension than the first. -/
def outOfOrder (rank : Nat) (starts counts : Nat → UInt64) (sliceNr : Nat) : Bool :=
  let start1 := fun dimNr => starts (rank * sliceNr + dimNr)
  let count1 := fun dimNr => counts (rank * sliceNr + dimNr)
  let start0 := fun dimNr => starts (rank * (sliceNr - 1) + dimNr)
  let count0 := fun dimNr => counts (rank * (sliceNr - 1) + dimNr)
  0 < sliceNr &&
    (start1 0 < start0 0 || start0 0 + count0 0 > start1 0 ||
      (List.range' 1 (rank - 1)).any fun dimNr =>
        start0 dimNr != start1 dimNr || count0 dimNr != count1 dimNr)

/-- The bounds checks: some slice is refused. -/
def slicesRefused (rank nrSlices : Nat) (starts counts fileDims : Nat → UInt64) : Bool :=
  (List.range nrSlices).any fun sliceNr =>
    outOfBounds rank starts counts fileDims sliceNr || outOfOrder rank starts counts sliceNr

/-- `total_count[0]`: the slices are concatenated in the first dimension. -/
def totalCount0 (rank nrSlices : Nat) (counts : Nat → UInt64) : UInt64 :=
  (List.range nrSlices).foldl (fun acc i => acc + counts (i * rank)) 0

/-- `total_count`, of which the first `rank` entries are set. -/
def totalCounts (ms : Multislice) (rank nrSlices : Nat) (counts : Nat → UInt64) : Nat → UInt64 :=
  fun i => if i < rank then (if i = 0 then totalCount0 rank nrSlices counts else counts i)
    else ms.totalCount i

/-- The fields `multislice_init` sets when it accepts the slices. -/
def multisliceFields (ms : Multislice) (rank nrSlices : Nat) (starts counts : Nat → UInt64)
    (elementsPerBuffer : UInt64) : Multislice :=
  let totalCount := totalCounts ms rank nrSlices counts
  let inner := fun i => decide (1 ≤ i) && decide (i < rank)
  { rank := rank
    nrSlices := nrSlices
    starts := starts
    counts := counts
    elementsPerBuffer := elementsPerBuffer
    elementsLeftTotal :=
      if (List.range rank).any (fun i => totalCount i == 0) then 0
      else if 0 < rank then totalCount 0 else 1
    sliceNr := 0
    offsetInSlice := 0
    totalCount := totalCount
    start := fun i => if inner i then starts i else ms.start i
    count := fun i => if inner i then counts i else ms.count i }

/-- `multislice_init`.  `none` is the return value -1. -/
def multisliceInit (ms : Multislice) (rank nrSlices : Int) (starts counts : Nat → UInt64)
    (elementsPerBuffer : UInt64) (fileDims : Nat → UInt64) : Option Multislice :=
  if rank > maxDims then none
  else if rank < 0 then none
  else if nrSlices > maxSlices then none
  else if nrSlices < 1 then none
  else
    let rank := rank.toNat
    let nrSlices := if 0 < rank then nrSlices.toNat else 0
    if slicesRefused rank nrSlices starts counts fileDims then none
    else some (multisliceFields ms rank nrSlices starts counts elementsPerBuffer)

/-! ## 2. `multislice_select_next_buffer_data` -/

/-- Why a call does not return. -/
inductive Stop where
  /-- An assertion failed. -/
  | assertion
  /-- A loop has not ended in the given number of passes. -/
  | passes
deriving DecidableEq

/-- The locals of the selection loop: `select_start` and `select_count` as one list. -/
structure Selecting where
  ms : Multislice
  selections : List (UInt64 × UInt64)
  elementsLeftInBuffer : UInt64
  nrElementsToRead : UInt64

/-- One pass of the selection loop. -/
def selectPass (st : Selecting) : Except Stop (Selecting ⊕ Selecting) :=
  let ms := st.ms
  if 0 < st.elementsLeftInBuffer ∧ st.selections.length < maxSelectionsPerBuffer then
    if ¬ ms.sliceNr < ms.nrSlices then .error .assertion
    else
      let sliceStart := ms.starts (ms.sliceNr * ms.rank)
      let sliceCount := ms.counts (ms.sliceNr * ms.rank)
      let elementsLeftInSlice := sliceCount - ms.offsetInSlice
      let elementsToRead := minSize elementsLeftInSlice st.elementsLeftInBuffer
      let offset := ms.offsetInSlice + elementsToRead
      let sliceNr := if sliceCount ≤ offset then ms.sliceNr + 1 else ms.sliceNr
      if ¬ sliceNr ≤ ms.nrSlices then .error .assertion
      else if ¬ elementsToRead ≤ st.elementsLeftInBuffer then .error .assertion
      else if ¬ elementsToRead ≤ ms.elementsLeftTotal then .error .assertion
      else
        .ok (.inl
          { ms := { ms with
              offsetInSlice := if sliceCount ≤ offset then 0 else offset
              sliceNr := sliceNr
              elementsLeftTotal := ms.elementsLeftTotal - elementsToRead }
            selections :=
              if 0 < elementsToRead then
                st.selections ++ [(sliceStart + ms.offsetInSlice, elementsToRead)]
              else st.selections
            elementsLeftInBuffer := st.elementsLeftInBuffer - elementsToRead
            nrElementsToRead := st.nrElementsToRead + elementsToRead })
  else .ok (.inr st)

/-- The selection a call leaves in the file dataspace: everything, or the union of hyperslabs
with these starts and counts in the first dimension. -/
inductive Selection where
  | all
  | hyperslabs (l : List (UInt64 × UInt64))

/-- What a call returns: 1, or 0 with a selection and `nr_elements_to_read`. -/
inductive Selected where
  | atEnd
  | data (ms : Multislice) (selection : Selection) (nrElementsToRead : UInt64)

/-- `multislice_select_next_buffer_data`. -/
def multisliceSelectNextBufferData (passes : Nat) (ms : Multislice) : Except Stop Selected :=
  if ms.elementsLeftTotal = 0 then .ok .atEnd
  else if ms.rank = 0 then
    if ms.nrSlices = 0 then .ok (.data { ms with elementsLeftTotal := 0 } .all 1)
    else .error .assertion
  else
    match Loop.iter selectPass passes
        { ms := ms, selections := []
          elementsLeftInBuffer := minSize ms.elementsPerBuffer ms.elementsLeftTotal
          nrElementsToRead := 0 } with
    | none => .error .passes
    | some (.error e) => .error e
    | some (.ok st) => .ok (.data st.ms (.hyperslabs st.selections) st.nrElementsToRead)

/-! ## 3. `pack_dataset_multi_slice_with_max_size` -/

/-- `nr_elements`: values in one row. -/
def nrElements (rank : Int) (counts : Nat → UInt64) : UInt64 :=
  (List.range' 1 (rank.toNat - 1)).foldl (fun acc i => acc * counts i) 1

/-- What becomes of `elements_per_buffer`. -/
inductive PerBuffer where
  /-- The request is given up: a row does not fit into the buffer. -/
  | failed
  /-- The division traps. -/
  | divisionByZero
  | value (elementsPerBuffer : UInt64)
deriving DecidableEq

/-- `elements_per_buffer`. -/
def elementsPerBuffer (rank : Int) (counts : Nat → UInt64) (elementSize bufferSize : UInt64) :
    PerBuffer :=
  if 0 < nrElements rank counts then
    if nrElements rank counts * elementSize = 0 then .divisionByZero
    else if bufferSize / (nrElements rank counts * elementSize) < 1 then .failed
    else .value (bufferSize / (nrElements rank counts * elementSize))
  else .value 0

/-- One chunk: what is selected, and how many bytes are packed. -/
structure Chunk where
  selection : Selection
  nrElementsToRead : UInt64
  nrBytes : UInt64

/-- The state of the read loop. -/
structure Reading where
  ms : Multislice
  chunks : List Chunk

/-- One pass of the read loop. -/
def readPass (passes : Nat) (nrElements elementSize : UInt64) (st : Reading) :
    Except Stop (Reading ⊕ List Chunk) :=
  match multisliceSelectNextBufferData passes st.ms with
  | .error e => .error e
  | .ok .atEnd => .ok (.inr st.chunks)
  | .ok (.data ms selection nrElementsToRead) =>
    .ok (.inl
      { ms := ms
        chunks := st.chunks ++
          [{ selection := selection
             nrElementsToRead := nrElementsToRead
             nrBytes := nrElementsToRead * nrElements * elementSize }] })

/-- The read loop. -/
def readLoop (passes : Nat) (nrElements elementSize : UInt64) (ms : Multislice) :
    Option (Except Stop (List Chunk)) :=
  Loop.iter (readPass passes nrElements elementSize) passes { ms := ms, chunks := [] }

/-- What becomes of a request. -/
inductive Outcome where
  | failed
  | divisionByZero
  | stopped (e : Stop)
  | packed (chunks : List Chunk)

/-- `pack_dataset_multi_slice_with_max_size`, from the checks of the request to the last chunk.
`ms` is the uninitialised struct on the stack. -/
def packDatasetMultiSlice (passes : Nat) (ms : Multislice) (rank nrSlices : Int)
    (starts counts fileDims : Nat → UInt64) (elementSize bufferSize : UInt64) : Outcome :=
  if nrSlices < 1 then .failed
  else
    match elementsPerBuffer rank counts elementSize bufferSize with
    | .failed => .failed
    | .divisionByZero => .divisionByZero
    | .value epb =>
      match multisliceInit ms rank nrSlices starts counts epb fileDims with
      | none => .failed
      | some ms =>
        match readLoop passes (nrElements rank counts) elementSize ms with
        | none => .stopped .passes
        | some (.error e) => .stopped e
        | some (.ok chunks) => .packed chunks

/-! ## 4. The HDF5 library -/

/-- The rows `H5Dread` delivers, in the order of the file: those of the union of hyperslabs. -/
def h5Dread (fileDims : Nat → UInt64) : Selection → List Nat
  | .all => [0]
  | .hyperslabs l =>
    (List.range (fileDims 0).toNat).filter fun i =>
      l.any fun s => decide (s.1.toNat ≤ i) && decide (i < s.1.toNat + s.2.toNat)

end HdfStream.Slices
