/-
# Selecting slices of a dataspace

`select.c` selects many slices at once.  `select_slices_direct` adds one hyperslab after the other
to the selection, which takes quadratic time, so `select_slices` selects halves of the slices in
copies of the dataspace and combines them.

Of the HDF5 library the model has the dataspaces that are open, each with its rank and the set of
selected points.  A call with the identifier of an open dataspace may still fail: `fails` says which
calls of a run do.  What a program has done is in the log of the `World`.
-/
import Mathlib.Data.Finset.Prod
import Mathlib.Data.Finset.Union
import Mathlib.Data.Finset.Card

namespace HdfStream.Select

/-! ## 1. Dataspaces -/

/-- The points of a hyperslab with a stride of one, for a dataspace with `rank` dimensions. -/
def hyperslab : Nat → (Nat → UInt64) → (Nat → UInt64) → Finset (List Nat)
  | 0, _, _ => {[]}
  | rank + 1, start, count =>
    (Finset.range (count 0).toNat ×ˢ
      hyperslab rank (fun i => start (i + 1)) (fun i => count (i + 1))).map
      ⟨fun p => ((start 0).toNat + p.1) :: p.2, fun p q h => by
        obtain ⟨hhead, htail⟩ := List.cons.inj h
        exact Prod.ext (Nat.add_left_cancel hhead) htail⟩

/-- A dataspace: the number of dimensions, and the selected points. -/
structure Dataspace where
  rank : Nat
  selection : Finset (List Nat)
deriving DecidableEq

/-- The functions of the library that are called. -/
inductive Call where
  | copy
  | selectNone
  | selectHyperslab
  | combineSelect
  | selectCopy
  | close
  | getSelectNpoints
  | getSimpleExtentNdims
deriving DecidableEq

/-- The call makes a dataspace, or changes a selection. -/
def Call.selects : Call → Bool
  | .copy | .selectNone | .selectHyperslab | .combineSelect | .selectCopy => true
  | .close | .getSelectNpoints | .getSimpleExtentNdims => false

/-- What a program does. -/
inductive Event where
  /-- An entry of `select_start` and `select_count` is read. -/
  | read (i : Nat)
  | created (id : Int)
  /-- `H5Sclose` is called. -/
  | closed (id : Int)
  /-- A call of the library has returned a negative value. -/
  | failed (call : Call)
deriving DecidableEq

/-- The library, the arrays `start` and `count`, and what has happened. -/
structure World where
  calls : Nat
  nextId : Int
  spaces : Int → Option Dataspace
  start : Nat → UInt64
  count : Nat → UInt64
  log : List Event

namespace World

/-- One more call of the library. -/
def tick (w : World) : World := { w with calls := w.calls + 1 }

def record (w : World) (e : Event) : World := { w with log := w.log ++ [e] }

def set (w : World) (id : Int) (s : Option Dataspace) : World :=
  { w with spaces := Function.update w.spaces id s }

/-- A dataspace with an identifier that was not used before. -/
def create (w : World) (s : Dataspace) : Int × World :=
  (w.nextId, { (w.set w.nextId s).record (.created w.nextId) with nextId := w.nextId + 1 })

end World

section

variable (fails : Nat → Bool)

/-- A call of the library, with what it does if it does not fail. -/
def h5 (call : Call) (effect : World → Option (Int × World)) : StateM World Int := fun w =>
  match effect w.tick with
  | none => (-1, w.tick.record (.failed call))
  | some out => if fails w.calls then (-1, w.tick.record (.failed call)) else out

/-- `H5Scopy`. -/
def h5Scopy (id : Int) : StateM World Int :=
  h5 fails .copy fun w => (w.spaces id).map fun s => w.create s

/-- `H5Sselect_none`. -/
def h5SselectNone (id : Int) : StateM World Int :=
  h5 fails .selectNone fun w => (w.spaces id).map fun s =>
    (0, w.set id (some { s with selection := ∅ }))

/-- `H5Sselect_hyperslab` with `H5S_SELECT_OR`; a scalar dataspace has no hyperslabs. -/
def h5SselectHyperslab (id : Int) : StateM World Int :=
  h5 fails .selectHyperslab fun w => (w.spaces id).bind fun s =>
    if s.rank = 0 then none
    else
      let slab := hyperslab s.rank w.start w.count
      some (0, w.set id (some { s with selection := s.selection ∪ slab }))

/-- `H5Scombine_select` with `H5S_SELECT_OR`. -/
def h5ScombineSelect (id₁ id₂ : Int) : StateM World Int :=
  h5 fails .combineSelect fun w => (w.spaces id₁).bind fun s₁ => (w.spaces id₂).bind fun s₂ =>
    if s₁.rank = s₂.rank then some (w.create { s₁ with selection := s₁.selection ∪ s₂.selection })
    else none

/-- `H5Sselect_copy`. -/
def h5SselectCopy (dst src : Int) : StateM World Int :=
  h5 fails .selectCopy fun w => (w.spaces dst).bind fun d => (w.spaces src).bind fun s =>
    if d.rank = s.rank then some (0, w.set dst (some { d with selection := s.selection })) else none

/-- `H5Sclose`. -/
def h5Sclose (id : Int) : StateM World Int := fun w =>
  h5 fails .close (fun w => (w.spaces id).map fun _ => (0, w.set id none)) (w.record (.closed id))

/-- `H5Sget_select_npoints`. -/
def h5SgetSelectNpoints (id : Int) : StateM World Int :=
  h5 fails .getSelectNpoints fun w =>
    (w.spaces id).map fun s => ((UInt64.ofNat s.selection.card).toInt64.toInt, w)

/-- `H5Sget_simple_extent_ndims`. -/
def h5SgetSimpleExtentNdims (id : Int) : StateM World Int :=
  h5 fails .getSimpleExtentNdims fun w => (w.spaces id).map fun s => ((s.rank : Int), w)

/-! ## 2. `select.c` -/

variable (selectStart selectCount : Nat → UInt64)

/-- Sets `start[0]` and `count[0]`. -/
def setFirst (i : Nat) : StateM World Unit := fun w =>
  ((), { w with
    start := Function.update w.start 0 (selectStart i)
    count := Function.update w.count 0 (selectCount i)
    log := w.log ++ [.read i] })

/-- The loops that add one hyperslab after the other: `nrLeft` entries, from entry `i` on. -/
def selectEntries (id : Int) : (nrLeft i : Nat) → StateM World Int
  | 0, _ => pure 0
  | nrLeft + 1, i => do
    setFirst selectStart selectCount i
    let err ← h5SselectHyperslab fails id
    if err < 0 then return err else selectEntries id nrLeft (i + 1)

/-- `select_slices_direct`. -/
def selectSlicesDirect (fileSpaceId : Int) (nrSelections : Nat) : StateM World Int := do
  let err ← h5SselectNone fails fileSpaceId
  if err < 0 then return -1
  else selectEntries fails selectStart selectCount fileSpaceId nrSelections 0

/-- `H5Sclose`, if there is a dataspace to close. -/
def closeIfOpen (id : Int) : StateM World Unit :=
  if 0 ≤ id then discard (h5Sclose fails id) else pure ()

/-- The label `cleanup` of `select_slices_recursive`. -/
def cleanup (result spaceIdLeft spaceIdRight : Int) : StateM World Int := do
  closeIfOpen fails result
  closeIfOpen fails spaceIdLeft
  closeIfOpen fails spaceIdRight
  return -1

/-- `select_slices_recursive`. -/
def selectSlicesRecursive (fileSpaceId : Int) (firstSelection nrSelections : Nat) :
    StateM World Int :=
  if nrSelections ≤ 8 then do
    let result ← h5Scopy fails fileSpaceId
    if result < 0 then cleanup fails result (-1) (-1)
    else do
      let err ← h5SselectNone fails result
      if err < 0 then cleanup fails result (-1) (-1)
      else do
        let err ← selectEntries fails selectStart selectCount result nrSelections firstSelection
        if err < 0 then cleanup fails result (-1) (-1)
        else return result
  else do
    -- the two halves
    let nrLeft := nrSelections / 2
    let nrRight := nrSelections - nrLeft
    let spaceIdLeft ← selectSlicesRecursive fileSpaceId firstSelection nrLeft
    if spaceIdLeft < 0 then cleanup fails (-1) spaceIdLeft (-1)
    else do
      let spaceIdRight ← selectSlicesRecursive fileSpaceId (firstSelection + nrLeft) nrRight
      if spaceIdRight < 0 then cleanup fails (-1) spaceIdLeft spaceIdRight
      else do
        let result ← h5ScombineSelect fails spaceIdLeft spaceIdRight
        if result < 0 then cleanup fails result spaceIdLeft spaceIdRight
        else do
          discard (h5Sclose fails spaceIdLeft)
          discard (h5Sclose fails spaceIdRight)
          return result
termination_by nrSelections
decreasing_by all_goals omega

/-- `nr_expected` of the check: the entries in the first dimension, times the numbers in the other
dimensions. -/
def nrExpected (count : Nat → UInt64) (nrSelections : Nat) (rank : Int) : UInt64 :=
  let first := (List.range nrSelections).foldl (fun n i => n + selectCount i) 0
  (List.range' 1 (rank.toNat - 1)).foldl (fun n i => n * count i) first

/-- The check that `select_slices` makes unless `NDEBUG` is defined; `err` is what it returns. -/
def checkCount (fileSpaceId : Int) (nrSelections : Nat) (err : Int) : StateM World Int := do
  let npoints ← h5SgetSelectNpoints fails fileSpaceId
  let rank ← h5SgetSimpleExtentNdims fails fileSpaceId
  let w ← get
  if (nrExpected selectCount w.count nrSelections rank).toInt64.toInt ≠ npoints then return -1
  else return err

/-- `select_slices`; `debug` is true unless `NDEBUG` is defined. -/
def selectSlices (debug : Bool) (fileSpaceId : Int) (nrSelections : Nat) : StateM World Int := do
  let dspaceId ← selectSlicesRecursive fails selectStart selectCount fileSpaceId 0 nrSelections
  if dspaceId < 0 then return -1
  else do
    let err ← h5SselectCopy fails fileSpaceId dspaceId
    discard (h5Sclose fails dspaceId)
    if debug then checkCount fails selectCount fileSpaceId nrSelections err else return err

end

end HdfStream.Select
