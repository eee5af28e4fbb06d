/-
# From the request to the C library

`HDFStream.openDatasetSlices` checks the slices once more before it calls the native method
`c_open_slices`, whose JNI function copies the arrays of `long` to arrays of `hsize_t` and hands
them to `hdfstream_dataset_multi_slice_open`.

The arrays that get there are well-formed, whatever the request says (`webSlices_wellFormed`): the
parsers see to their lengths, the checks here to the signs of the values.
-/
import HdfStream.Slices.Request
import HdfStream.Webapp.SliceInfo

namespace HdfStream.Webapp

open Java Msgpack Outcome

/-! ## 1. The Java class -/

/-- The fields of `HDFStream` that `openDatasetSlices` reads.  `maxDims` and `maxSlices` are set by
the constructor, to `HDFSTREAM_MAX_DIMS` and `HDFSTREAM_MAX_SLICES`. -/
structure HDFStream where
  ptr : Int
  refCount : Int
  stopping : Bool

/-- The arguments of `c_open_slices`. -/
structure OpenCall where
  fileName : JString
  datasetName : JString
  nrSlices : Int
  rank : Int
  start : List Int
  count : List Int
  bufferSize : Int

/-- The checks of the arrays in `tryOpenDatasetSlices`, each with the message of its exception. -/
def arrayChecks (nrSlices rank : Int) (start count : List Int) : List (Bool × String) :=
  [(start.length ≠ count.length, "Inconsistent start and length passed to openDatasetSlice"),
   (nrSlices < 1, "Non-positive number of slices in openDatasetSlice"),
   (nrSlices > Slices.maxSlices, "Too many slices in openDatasetSlice"),
   (rank < 0, "Negative rank in openDatasetSlice"),
   (rank > Slices.maxDims, "Rank too large in openDatasetSlice"),
   (start.length ≠ wrapInt (nrSlices * rank),
     "Length of start parameter not equal to nr_slices*rank in openDatasetSlice"),
   (count.length ≠ wrapInt (nrSlices * rank),
     "Length of count parameter not equal to nr_slices*rank in openDatasetSlice")]

/-- The message of the first check that fails. -/
def firstFailure (checks : List (Bool × String)) : Option String :=
  (checks.find? Prod.fst).map Prod.snd

/-- What is thrown here. -/
inductive OpenError where
  | runtime (message : String)
  | io (message : String)
  | arrayIndex
deriving DecidableEq

/-- The loop over the values. -/
def checkValues (nrSlices rank : Int) (start count : List Int) : Except OpenError Unit :=
  (List.range (wrapInt (nrSlices * rank)).toNat).foldlM (fun _ (i : Nat) => do
    let s ← load .arrayIndex start i
    if s < 0 then throw (.io "Negative start parameter in openDatasetSlice")
    else
      let c ← load .arrayIndex count i
      if c < 0 then throw (.io "Negative count parameter in openDatasetSlice") else return ()) ()

/-- `tryOpenDatasetSlices`, up to the call of `c_open_slices`. -/
def HDFStream.tryOpenDatasetSlices (hs : HDFStream) (fileName datasetName : Option JString)
    (nrSlices rank : Int) (start count : Option (List Int)) (bufferSize : Int) :
    Except OpenError OpenCall :=
  if hs.ptr = 0 then .error (.runtime "Process pool is not allocated")
  else
    match fileName, datasetName, start, count with
    | none, _, _, _ => .error (.io "Null file name passed to openDatasetSlice")
    | _, none, _, _ => .error (.io "Null dataset name passed to openDatasetSlice")
    | _, _, none, _ => .error (.io "Null start parameter passed to openDatasetSlice")
    | _, _, _, none => .error (.io "Null count parameter passed to openDatasetSlice")
    | some fileName, some datasetName, some start, some count =>
      match firstFailure (arrayChecks nrSlices rank start count) with
      | some message => .error (.io message)
      | none =>
        (checkValues nrSlices rank start count).map fun _ =>
          { fileName := fileName, datasetName := datasetName, nrSlices := nrSlices, rank := rank
            start := start, count := count, bufferSize := bufferSize }

/-- `openDatasetSlices`: the reference that is acquired first is refused on shutdown. -/
def HDFStream.openDatasetSlices (hs : HDFStream) (fileName datasetName : Option JString)
    (nrSlices rank : Int) (start count : Option (List Int)) (bufferSize : Int) :
    Except OpenError OpenCall :=
  if hs.refCount ≤ 0 ∨ hs.stopping then .error (.io "Server is shutting down")
  else hs.tryOpenDatasetSlices fileName datasetName nrSlices rank start count bufferSize

/-- A call of `c_open_slices` that has passed the checks. -/
structure OpenCall.WellFormed (call : OpenCall) : Prop where
  nrSlices_pos : 1 ≤ call.nrSlices
  nrSlices_le : call.nrSlices ≤ Slices.maxSlices
  rank_nonneg : 0 ≤ call.rank
  rank_le : call.rank ≤ Slices.maxDims
  start_length : call.start.length = call.nrSlices * call.rank
  count_length : call.count.length = call.nrSlices * call.rank
  start_nonneg : ∀ n ∈ call.start, 0 ≤ n
  count_nonneg : ∀ n ∈ call.count, 0 ≤ n

/-- The loop over the values ends without an access out of range, and passes only values that are
not negative. -/
theorem checkValues_ends {nrSlices rank : Int} {start count : List Int}
    (hsize : (start.length : Int) = wrapInt (nrSlices * rank))
    (hsize' : (count.length : Int) = wrapInt (nrSlices * rank)) :
    Ends (· ≠ OpenError.arrayIndex) (fun _ => (∀ n ∈ start, 0 ≤ n) ∧ ∀ n ∈ count, 0 ≤ n)
      (checkValues nrSlices rank start count) := by
  have hlen : (wrapInt (nrSlices * rank)).toNat = start.length := by omega
  have hlen' : count.length = start.length := by omega
  have hnonneg : ∀ {l : List Int}, (∀ i : Nat, i < l.length → 0 ≤ l.getD i 0) →
      ∀ n ∈ l, 0 ≤ n := by
    intro l h n hn
    obtain ⟨i, hi, rfl⟩ := List.mem_iff_getElem.mp hn
    have := h i hi
    rwa [List.getD_eq_getElem _ _ hi] at this
  unfold checkValues
  rw [hlen]
  refine Ends.mono (Ends.foldlM (I := fun before _ => ∀ i : Nat, i < before.length →
      0 ≤ start.getD i 0 ∧ 0 ≤ count.getD i 0) ?_ fun i hi => absurd hi (Nat.not_lt_zero i)) ?_
  · intro before x _ hprefix h
    obtain ⟨rfl, hlt⟩ := eq_of_prefix_range hprefix
    have hnext : 0 ≤ start.getD before.length 0 → 0 ≤ count.getD before.length 0 →
        ∀ i : Nat, i < (before ++ [before.length]).length →
          0 ≤ start.getD i 0 ∧ 0 ≤ count.getD i 0 := by
      intro hs hc i hi
      rw [List.length_append, List.length_singleton] at hi
      rcases Nat.lt_succ_iff_lt_or_eq.mp hi with hi | rfl
      · exact h i hi
      · exact ⟨hs, hc⟩
    rw [load_natCast _ hlt]
    rw [List.getD_eq_getElem _ _ hlt] at hnext
    have hlt' : before.length < count.length := by omega
    rw [List.getD_eq_getElem _ _ hlt'] at hnext
    show Ends _ _ (if start[before.length] < 0 then _ else _)
    split
    · exact fun h => by cases h
    rename_i hs
    rw [load_natCast _ hlt']
    show Ends _ _ (if count[before.length] < 0 then _ else _)
    split
    · exact fun h => by cases h
    rename_i hc
    exact hnext (by omega) (by omega)
  · intro _ h
    rw [List.length_range] at h
    exact ⟨hnonneg fun i hi => (h i hi).1, hnonneg fun i hi => (h i (by omega)).2⟩

theorem firstFailure_none {checks : List (Bool × String)} (h : firstFailure checks = none)
    {c : Bool} {message : String} (hmem : (c, message) ∈ checks) : c = false := by
  rw [firstFailure, Option.map_eq_none_iff, List.find?_eq_none] at h
  exact Bool.eq_false_iff.mpr (h _ hmem)

/-- **A call that is made has arrays of the right length and no negative values.** -/
theorem openDatasetSlices_wellFormed (hs : HDFStream) (fileName datasetName : Option JString)
    (nrSlices rank : Int) (start count : Option (List Int)) (bufferSize : Int) :
    Ends (· ≠ OpenError.arrayIndex)
      (fun call => call.WellFormed ∧ call.nrSlices = nrSlices ∧ call.rank = rank ∧
        start = some call.start ∧ count = some call.count)
      (hs.openDatasetSlices fileName datasetName nrSlices rank start count bufferSize) := by
  unfold HDFStream.openDatasetSlices
  split
  · exact fun h => by cases h
  unfold HDFStream.tryOpenDatasetSlices
  split
  · exact fun h => by cases h
  split
  · exact fun h => by cases h
  · exact fun h => by cases h
  · exact fun h => by cases h
  · exact fun h => by cases h
  rename_i fileName datasetName start count
  split
  · exact fun h => by cases h
  rename_i hchecks
  have hnr := firstFailure_none hchecks (.tail _ (.head _))
  have hnr' := firstFailure_none hchecks (.tail _ (.tail _ (.head _)))
  have hrank := firstFailure_none hchecks (.tail _ (.tail _ (.tail _ (.head _))))
  have hrank' := firstFailure_none hchecks (.tail _ (.tail _ (.tail _ (.tail _ (.head _)))))
  have hstart := firstFailure_none hchecks
    (.tail _ (.tail _ (.tail _ (.tail _ (.tail _ (.head _))))))
  have hcount := firstFailure_none hchecks
    (.tail _ (.tail _ (.tail _ (.tail _ (.tail _ (.tail _ (.head _)))))))
  simp only [decide_eq_false_iff_not, not_not, not_lt] at hnr hnr' hrank hrank' hstart hcount
  have hsize : wrapInt (nrSlices * rank) = nrSlices * rank := by
    have h0 : 0 ≤ nrSlices * rank := Int.mul_nonneg (by omega) hrank
    have h1 : nrSlices * rank ≤ Slices.maxSlices * Slices.maxDims :=
      Int.mul_le_mul hnr' hrank' hrank (by decide)
    have h2 : (Slices.maxSlices : Int) * Slices.maxDims < 2147483648 := by decide
    exact wrapInt_eq (by omega) (by omega)
  have hvalues := checkValues_ends hstart hcount
  cases hcheck : checkValues nrSlices rank start count with
  | error e =>
    rw [hcheck] at hvalues
    exact hvalues
  | ok u =>
    rw [hcheck] at hvalues
    refine ⟨⟨hnr, hnr', hrank, hrank', ?_, ?_, hvalues.1, hvalues.2⟩, rfl, rfl, rfl, rfl⟩
    · rw [← hsize]
      exact hstart
    · rw [← hsize]
      exact hcount

/-! ## 2. The JNI function -/

/-- The arguments of `hdfstream_dataset_multi_slice_open`. -/
structure CSlices where
  nrSlices : Int
  rank : Int
  start : List UInt64
  count : List UInt64

/-- `c_data[i] = data[i]` for `arrLen` elements. -/
def copyLongs (data : List Int) (arrLen : Int) : Except OpenError (List UInt64) :=
  (List.range arrLen.toNat).foldlM (fun copied (i : Nat) => do
    let value ← load .arrayIndex data i
    return copied ++ [UInt64.ofInt value]) []

/-- The JNI function of `c_open_slices`, up to the call of the C library; `none` is
`goto cleanup`. -/
def OpenCall.cOpenSlices (call : OpenCall) : Except OpenError (Option CSlices) :=
  if call.nrSlices > Slices.maxSlices ∨ call.nrSlices < 1 then .ok none
  else if call.rank > Slices.maxDims ∨ call.rank < 0 then .ok none
  else
    let arrLen := wrapInt (call.nrSlices * call.rank)
    if (call.start.length : Int) ≠ arrLen then .ok none
    else do
      let start ← copyLongs call.start arrLen
      if (call.count.length : Int) ≠ arrLen then .ok none
      else do
        let count ← copyLongs call.count arrLen
        .ok (some { nrSlices := call.nrSlices, rank := call.rank, start := start, count := count })

/-- The copy of an array of the right length. -/
theorem copyLongs_eq {data : List Int} {arrLen : Int} (hlen : (data.length : Int) = arrLen) :
    copyLongs data arrLen = .ok (data.map UInt64.ofInt) := by
  have hlen : arrLen.toNat = data.length := by omega
  have hcopy : Ends (fun _ => False)
    (· = (data.map UInt64.ofInt).take (List.range data.length).length)
      (copyLongs data arrLen) := by
    unfold copyLongs
    rw [hlen]
    refine Ends.foldlM (I := fun before copied =>
      copied = (data.map UInt64.ofInt).take before.length) ?_ rfl
    intro before i copied hprefix h
    obtain ⟨rfl, hlt⟩ := eq_of_prefix_range hprefix
    rw [load_natCast _ hlt]
    show copied ++ [UInt64.ofInt data[before.length]] = _
    rw [List.length_append, List.length_singleton,
      List.take_succ_eq_append_getElem (by rw [List.length_map]; exact hlt), List.getElem_map, h]
  obtain ⟨copied, heq, hcopied⟩ := ends_false_iff.mp hcopy
  rw [heq, hcopied, List.length_range, ← List.length_map (f := UInt64.ofInt), List.take_length]

/-- **A well-formed call reaches the C library with the same numbers.** -/
theorem cOpenSlices_eq {call : OpenCall} (h : call.WellFormed) :
    call.cOpenSlices = .ok (some
      { nrSlices := call.nrSlices, rank := call.rank
        start := call.start.map UInt64.ofInt, count := call.count.map UInt64.ofInt }) := by
  have hsize : wrapInt (call.nrSlices * call.rank) = call.nrSlices * call.rank := by
    have h0 : 0 ≤ call.nrSlices * call.rank := Int.mul_nonneg (by have := h.nrSlices_pos; omega)
      h.rank_nonneg
    have h1 : call.nrSlices * call.rank ≤ Slices.maxSlices * Slices.maxDims :=
      Int.mul_le_mul h.nrSlices_le h.rank_le h.rank_nonneg (by decide)
    have h2 : (Slices.maxSlices : Int) * Slices.maxDims < 2147483648 := by decide
    exact wrapInt_eq (by omega) (by omega)
  have hnr := h.nrSlices_pos
  have hnr' := h.nrSlices_le
  have hrank := h.rank_nonneg
  have hrank' := h.rank_le
  unfold OpenCall.cOpenSlices
  rw [if_neg (by omega), if_neg (by omega), hsize]
  dsimp only
  rw [if_neg (not_not.mpr h.start_length), copyLongs_eq h.start_length,
    copyLongs_eq h.count_length]
  exact if_neg (not_not.mpr h.count_length)

/-! ## 3. Both -/

/-- The slice parameter of a request. -/
inductive SliceParameter where
  | string (s : JString)
  | msgpack (stream : List (Token Bytes))

/-- How the servlet reads it. -/
def SliceParameter.read (malformed : Bytes → JString) : SliceParameter → Except Thrown SliceInfo
  | .string s => SliceInfo.parse s
  | .msgpack stream => (SliceInfo.fromUnpacker malformed stream).map Prod.fst

/-- The values of the request, as the C library has them. -/
structure CSlices.Holds (c : CSlices) (call : OpenCall) : Prop where
  nrSlices_eq : c.nrSlices = call.nrSlices
  rank_eq : c.rank = call.rank
  start_eq : c.start.map (fun n => (n.toNat : Int)) = call.start
  count_eq : c.count.map (fun n => (n.toNat : Int)) = call.count
  noWrap : Slices.NoWrap c.rank.toNat c.nrSlices.toNat (fun i => c.start.getD i 0)
    (fun i => c.count.getD i 0)

theorem toNat_ofInt {n : Int} (h0 : 0 ≤ n) (h : n < 9223372036854775808) :
    ((UInt64.ofInt n).toNat : Int) = n := by
  rw [UInt64.ofInt, UInt64.toNat_ofNat']
  omega

/-- **Whatever the request says, the slices that reach the C library are well-formed.**  Reading
the parameter and checking it makes no access out of range; and if `c_open_slices` is called, its
arrays have `nr_slices * rank` values, which fit into a `long` and are not negative, and the JNI
function hands the same values to the C library, where no start + count wraps. -/
theorem webSlices_wellFormed (malformed : Bytes → JString) (parameter : SliceParameter)
    (hs : HDFStream) (fileName datasetName : Option JString) (bufferSize : Int) :
    Ends Thrown.Refuses
      (fun slice => Ends (· ≠ OpenError.arrayIndex)
        (fun call => call.WellFormed ∧ call.rank ≤ (maxDimensions : Int) ∧
          (∀ n ∈ call.start ++ call.count, IsLong n) ∧
          ∃ c, call.cOpenSlices = .ok (some c) ∧ c.Holds call)
        (hs.openDatasetSlices fileName datasetName slice.nrSlices slice.rank (some slice.starts)
          (some slice.counts) bufferSize))
      (parameter.read malformed) := by
  have hread : Ends Thrown.Refuses SliceInfo.WellFormed (parameter.read malformed) := by
    cases parameter with
    | string s => exact parse_wellFormed s
    | msgpack stream => exact Ends.map (fromUnpacker_wellFormed malformed stream)
  refine hread.mono fun slice hslice => ?_
  refine (openDatasetSlices_wellFormed hs fileName datasetName _ _ _ _ bufferSize).mono ?_
  rintro call ⟨hcall, _, hrank, hstart, hcount⟩
  have hstart : slice.starts = call.start := Option.some.inj hstart
  have hcount : slice.counts = call.count := Option.some.inj hcount
  have hlong : ∀ n ∈ call.start, IsLong n := hstart ▸ hslice.starts_long
  have hlong' : ∀ n ∈ call.count, IsLong n := hcount ▸ hslice.counts_long
  have hback : ∀ {l : List Int}, (∀ n ∈ l, IsLong n) → (∀ n ∈ l, 0 ≤ n) →
      (l.map UInt64.ofInt).map (fun n => (n.toNat : Int)) = l := by
    intro l hl hl'
    rw [List.map_map]
    exact (List.map_congr_left fun n hn => toNat_ofInt (hl' n hn) (hl n hn).2).trans
      (List.map_id l)
  refine ⟨hcall, by rw [hrank]; exact hslice.rank_le, ?_, _, cOpenSlices_eq hcall, rfl, rfl,
    hback hlong hcall.start_nonneg, hback hlong' hcall.count_nonneg, ?_⟩
  · intro n hn
    rcases List.mem_append.mp hn with hn | hn
    · exact hlong n hn
    · exact hlong' n hn
  · intro i _
    have hsmall : ∀ {l : List Int}, (∀ n ∈ l, IsLong n) → (∀ n ∈ l, 0 ≤ n) →
        ((l.map UInt64.ofInt).getD i 0).toNat < 9223372036854775808 := by
      intro l hl hl'
      rw [List.getD_eq_getElem?_getD, List.getElem?_map]
      cases hi : l[i]? with
      | none => decide
      | some n =>
        have hn := List.mem_of_getElem? hi
        have := toNat_ofInt (hl' n hn) (hl n hn).2
        have := (hl n hn).2
        show (UInt64.ofInt n).toNat < _
        omega
    have h1 := hsmall hlong hcall.start_nonneg
    have h2 := hsmall hlong' hcall.count_nonneg
    show ((call.start.map UInt64.ofInt).getD i 0).toNat +
      ((call.count.map UInt64.ofInt).getD i 0).toNat < 18446744073709551616
    omega

end HdfStream.Webapp
