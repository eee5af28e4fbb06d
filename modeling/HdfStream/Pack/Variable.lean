/-
# Data of variable length

Strings and sequences of variable length are packed as an array with one entry for each element: a
string, or again an array.  `arrayValue` is the encoding that is meant, and `packArray_eq` says that
a header and the calls of `pack_contents_body` for all elements pack this and nothing else, or fail
with -1; the bytes of a buffer get into the output only if no part of the type has variable length.

A null pointer is the one thing in the way: an element that is a string may be one, and is read.
-/
import HdfStream.Pack.RoundTrip
import Mathlib.Algebra.Order.BigOperators.Group.List
import Mathlib.Algebra.Order.Group.Nat

namespace HdfStream.Pack

open Msgpack Pieces

/-! ## 1. Types -/

namespace Datatype

mutual

/-- Some part of the type is a string or sequence of variable length. -/
def hasVariable : Datatype → Bool
  | .string _ variableStr => variableStr
  | .vlen _ => true
  | .array _ super => super.hasVariable
  | .compound members => anyVariable members
  | _ => false

def anyVariable : List (Bytes × Datatype) → Bool
  | [] => false
  | (_, t) :: members => t.hasVariable || anyVariable members

end

mutual

/-- All parts are of a class the functions know. -/
def known : Datatype → Bool
  | .array _ super => super.known
  | .compound members => allKnown members
  | .vlen super => super.known
  | .other _ => false
  | _ => true

def allKnown : List (Bytes × Datatype) → Bool
  | [] => true
  | (_, t) :: members => t.known && allKnown members

end

end Datatype

/-- **`detect_vlen_types` finds the parts of variable length**, unless it fails. -/
theorem detectVlenTypes_eq {t : Datatype} (h : 0 ≤ detectVlenTypes t) :
    detectVlenTypes t = if t.hasVariable then 1 else 0 := by
  induction t using Datatype.induction with
  | hinteger size order sign => rfl
  | henum size order sign => rfl
  | hfloat size order => rfl
  | hstring size variableStr => rfl
  | harray dims super ih => exact ih h
  | hcompound members ih =>
    rw [detectVlenTypes, Datatype.hasVariable]
    rw [detectVlenTypes] at h
    induction members with
    | nil => rfl
    | cons m members ihm =>
      obtain ⟨name, t⟩ := m
      rw [detectVlenMembers] at h
      rw [detectVlenMembers, Datatype.anyVariable]
      by_cases hzero : detectVlenTypes t = 0
      · have hfirst := ih (name, t) List.mem_cons_self (Int.le_of_eq hzero.symm)
        have hfixed : t.hasVariable = false := by
          rw [hzero] at hfirst
          by_contra hvar
          rw [if_pos (Bool.not_eq_false _ ▸ hvar)] at hfirst
          exact absurd hfirst (by decide)
        rw [if_neg (not_not.mpr hzero)] at h ⊢
        rw [hfixed, Bool.false_or]
        exact ihm (fun m hm => ih m (List.mem_cons_of_mem _ hm)) h
      · -- the first member of variable length ends the loop
        rw [if_pos hzero] at h ⊢
        have hfirst := ih (name, t) List.mem_cons_self h
        rw [hfirst] at hzero ⊢
        have hvar : t.hasVariable = true := by
          by_contra hfixed
          exact hzero (if_neg hfixed)
        rw [hvar, Bool.true_or]
  | hvlen super ih => rfl
  | hother size => exact absurd h (by decide : ¬ (0 : Int) ≤ -1)

/-- It does not fail on types of known classes. -/
theorem detectVlenTypes_nonneg {t : Datatype} (h : t.known = true) : 0 ≤ detectVlenTypes t := by
  induction t using Datatype.induction with
  | hinteger size order sign => exact Int.le_refl 0
  | henum size order sign => exact Int.le_refl 0
  | hfloat size order => exact Int.le_refl 0
  | hstring size variableStr =>
    rw [detectVlenTypes]
    split <;> decide
  | harray dims super ih => exact ih h
  | hcompound members ih =>
    rw [detectVlenTypes]
    rw [Datatype.known] at h
    induction members with
    | nil => exact Int.le_refl 0
    | cons m members ihm =>
      obtain ⟨name, t⟩ := m
      rw [Datatype.allKnown, Bool.and_eq_true] at h
      rw [detectVlenMembers]
      split
      · exact ih (name, t) List.mem_cons_self h.1
      · exact ihm (fun m hm => ih m (List.mem_cons_of_mem _ hm)) h.2
  | hvlen super ih => exact (by decide : (0 : Int) ≤ 1)
  | hother size => cases h

theorem detectVlenTypes_variable {t : Datatype} (h : 0 ≤ detectVlenTypes t)
    (hvar : t.hasVariable = true) : detectVlenTypes t = 1 := by
  rw [detectVlenTypes_eq h, if_pos hvar]

theorem detectVlenTypes_fixed {t : Datatype} (h : 0 ≤ detectVlenTypes t)
    (hfixed : t.hasVariable = false) : detectVlenTypes t = 0 := by
  rw [detectVlenTypes_eq h, if_neg (by rw [hfixed]; exact Bool.false_ne_true)]

/-! ## 2. The encoding -/

/-- A call of `pack_contents_body`: the number of elements, and the buffer with them. -/
structure BodyCall where
  count : Nat
  buffer : Buffer

/-- The number of elements of all calls. -/
def countOf (calls : List BodyCall) : Nat := (calls.map BodyCall.count).sum

/-- The bytes of all calls, for elements of `size` bytes. -/
def bytesOf (size : Nat) (calls : List BodyCall) : Bytes :=
  calls.flatMap fun call => call.buffer.read (call.count * size)

/-- **The encoding of an array** whose elements are encoded by `elements` if they have variable
length. -/
def arrayValue (maxSize : Nat) (t : Datatype)
    (elements : Buffer → Nat → Option (List (Value Bytes))) (dims : List UInt64)
    (calls : List BodyCall) : Option (Value Bytes) :=
  if t.hasVariable then
    if maxSize < countOf calls then none
    else (calls.mapM fun call => elements call.buffer call.count).map fun vss =>
      vlenValue dims vss.flatten
  else
    (typeValue t none).map fun type =>
      ndarrayValue type (kindValue t) dims (countOf calls * t.size.toNat)
        (pieces maxSize (bytesOf t.size.toNat calls))

/-- **The encoding of the elements** of a buffer: a string, or an array. -/
def elements (maxSize : Nat) : Datatype → Buffer → Nat → Option (List (Value Bytes))
  | .string _ variableStr, buffer, count =>
    if variableStr then some ((List.range' 0 count).map fun i => .str ((buffer.str i).getD []))
    else none
  | .vlen super, buffer, count =>
    (List.range' 0 count).mapM fun i =>
      arrayValue maxSize super (elements maxSize super) [buffer.len i]
        [{ count := (buffer.len i).toNat, buffer := buffer.p i }]
  | _, _, _ => none

/-! ## 3. Buffers -/

/-- **What HDF5 reads for `count` elements.**  Data and sequences without bytes can be anywhere; a
sequence is in memory as a whole, and the number of its binaries can be computed. -/
def Buffer.Holds (maxSize : Nat) : Datatype → Buffer → Nat → Prop
  | .string size variableStr, buffer, count =>
    if variableStr then count = 0 ∨ ∃ str, buffer = .strings str
    else buffer.HoldsBytes (count * size.toNat)
  | .vlen super, buffer, count =>
    (count = 0 ∨ ∃ len p, buffer = .sequences len p) ∧
      ∀ i < count,
        (super.hasVariable = false →
          (buffer.len i).toNat * super.size.toNat + maxSize < 2 ^ 64) ∧
        Holds maxSize super (buffer.p i) (buffer.len i).toNat
  | t, buffer, count => if t.hasVariable then True else buffer.HoldsBytes (count * t.size.toNat)

/-- No string is a null pointer. -/
def Buffer.NonNull : Datatype → Buffer → Nat → Prop
  | .string _ variableStr, buffer, count =>
    variableStr = true → ∀ i < count, (buffer.str i).isSome
  | .vlen super, buffer, count =>
    ∀ i < count, NonNull super (buffer.p i) (buffer.len i).toNat
  | _, _, _ => True

theorem Buffer.Holds.bytes {maxSize : Nat} {t : Datatype} {buffer : Buffer} {count : Nat}
    (h : buffer.Holds maxSize t count) (ht : t.hasVariable = false) :
    buffer.HoldsBytes (count * t.size.toNat) := by
  cases t with
  | string size variableStr =>
    rw [Datatype.hasVariable] at ht
    rw [Buffer.Holds, if_neg (by rw [ht]; exact Bool.false_ne_true)] at h
    rw [Datatype.size, if_neg (by rw [ht]; exact Bool.false_ne_true)]
    exact h
  | vlen super => cases ht
  | _ => simpa only [Buffer.Holds, ht, Bool.false_eq_true, if_false] using h

/-! ## 4. Packing -/

/-- A result, or -1. -/
def orError {α : Type} : Option α → Except Failure α
  | some a => .ok a
  | none => .error .error

/-- The calls of `pack_contents_body`, one after the other. -/
def packBodies (pk : Packer) (t : Datatype) (calls : List BodyCall) (pci : PackContentsInfo) :
    Except Failure (PackContentsInfo × Bytes) :=
  packBodyCalls pk t
    (calls.map fun call => (call.count, call.buffer, call.count * t.size.toNat % 2 ^ 64)) pci

theorem packBodies_cons (pk : Packer) (t : Datatype) (call : BodyCall) (calls : List BodyCall)
    (pci : PackContentsInfo) :
    packBodies pk t (call :: calls) pci =
      match packContentsBody pk pci t call.count call.buffer
        (call.count * t.size.toNat % 2 ^ 64) with
      | .error e => .error e
      | .ok (pci, out) => (packBodies pk t calls pci).map fun x => (x.1, out ++ x.2) := by
  rw [packBodies, List.map_cons, packBodyCalls]
  rfl

/-- `pack_contents_header` and the calls of `pack_contents_body`. -/
def packArray (pk : Packer) (pci : PackContentsInfo) (maxSize : Nat) (t : Datatype)
    (dims : List UInt64) (nrBytes : Nat) (calls : List BodyCall) : Except Failure Bytes :=
  match packContentsHeader pci maxSize t dims nrBytes with
  | .error e => .error e
  | .ok (pci, header) => (packBodies pk t calls pci).map fun x => pk.write header ++ x.2

variable {pk : Packer} {maxSize : Nat} {t : Datatype}

/-- The body of elements of variable length. -/
def BodySpec (pk : Packer) (maxSize : Nat) (t : Datatype) : Prop :=
  ∀ (pci : PackContentsInfo) (buffer : Buffer) (count bufferLen : Nat),
    pci.hasVlen = 1 → pci.maxSize = maxSize → buffer.Holds maxSize t count →
      buffer.NonNull t count →
        packContentsBody pk pci t count buffer bufferLen =
          (orError (elements maxSize t buffer count)).map fun vs =>
            (pci, pk.write (vs.flatMap Value.tokens))

theorem mapM_option_cons {α β : Type} (f : α → Option β) (a : α) (l : List α) :
    (a :: l).mapM f = (f a).bind fun b => (l.mapM f).map (b :: ·) := by
  rw [List.mapM_cons]
  rcases f a with _ | b
  · rfl
  · rcases l.mapM f with _ | bs
    · rfl
    · rfl

theorem packBodies_variable (hbody : BodySpec pk maxSize t) {calls : List BodyCall}
    {pci : PackContentsInfo} (hvlen : pci.hasVlen = 1) (hsize : pci.maxSize = maxSize)
    (hholds : ∀ call ∈ calls, call.buffer.Holds maxSize t call.count)
    (hnull : ∀ call ∈ calls, call.buffer.NonNull t call.count) :
    packBodies pk t calls pci =
      (orError (calls.mapM fun call => elements maxSize t call.buffer call.count)).map fun vss =>
        (pci, pk.write (vss.flatten.flatMap Value.tokens)) := by
  induction calls with
  | nil => rfl
  | cons call calls ih =>
    rw [packBodies_cons, hbody pci call.buffer call.count _ hvlen hsize
      (hholds call List.mem_cons_self) (hnull call List.mem_cons_self), mapM_option_cons]
    rcases elements maxSize t call.buffer call.count with _ | vs
    · rfl
    · have hrest := ih (fun c hc => hholds c (List.mem_cons_of_mem _ hc))
        fun c hc => hnull c (List.mem_cons_of_mem _ hc)
      show (packBodies pk t calls pci).map _ = _
      rw [hrest, Option.bind_some]
      generalize List.mapM (fun call => elements maxSize t call.buffer call.count) calls = vss
      rcases vss with _ | vss
      · rfl
      · rw [Option.map_some, orError, orError, Except.map, Except.map, Except.map,
          List.flatten_cons, List.flatMap_append, Packer.write_append]

theorem countOf_cons (call : BodyCall) (calls : List BodyCall) :
    countOf (call :: calls) = call.count + countOf calls := by
  rw [countOf, List.map_cons, List.sum_cons, countOf]

theorem length_bytesOf (size : Nat) (calls : List BodyCall) :
    (bytesOf size calls).length = countOf calls * size := by
  induction calls with
  | nil => rw [countOf, List.map_nil, List.sum_nil, Nat.zero_mul]; rfl
  | cons call calls ih =>
    rw [bytesOf] at ih
    rw [bytesOf, List.flatMap_cons, List.length_append, ih, length_read, countOf_cons, Nat.add_mul]

/-- The calls, if the number of bytes does not wrap in any. -/
theorem packBodies_exact (pk : Packer) {calls : List BodyCall}
    (h : ∀ call ∈ calls, call.count * t.size.toNat < 2 ^ 64) (pci : PackContentsInfo) :
    packBodies pk t calls pci = packBodyCalls pk t
      (calls.map fun call => (call.count, call.buffer, call.count * t.size.toNat)) pci :=
  congrArg (packBodyCalls pk t · pci)
    (List.map_congr_left fun call hcall => by rw [Nat.mod_eq_of_lt (h call hcall)])

theorem bytesRead_exact (size : Nat) (calls : List BodyCall) :
    bytesRead (calls.map fun call => (call.count, call.buffer, call.count * size)) =
      bytesOf size calls := by
  rw [bytesRead, bytesOf, List.flatMap_map]

theorem packBodies_fixed (pk : Packer) {calls : List BodyCall} {pci : PackContentsInfo}
    (hvlen : pci.hasVlen = 0) (hmax : 0 < pci.maxSize) (hbins : 0 < countOf calls * t.size.toNat →
      0 < pci.nrBins)
    (hle : countOf calls * t.size.toNat ≤ pci.bytesLeft)
    (hlt : countOf calls * t.size.toNat < 2 ^ 64)
    (hholds : ∀ call ∈ calls, call.buffer.HoldsBytes (call.count * t.size.toNat)) :
    ∃ pci' out, packBodies pk t calls pci = .ok (pci', out) ∧
      BinsPacked pk pci pci' (bytesOf t.size.toNat calls) out := by
  -- no call has more bytes than all together
  have hcalls : ∀ call ∈ calls, call.count * t.size.toNat < 2 ^ 64 := by
    intro call hcall
    have hone : call.count ≤ countOf calls :=
      List.le_sum_of_mem (List.mem_map_of_mem hcall)
    exact Nat.lt_of_le_of_lt (Nat.mul_le_mul_right _ hone) hlt
  rw [← length_bytesOf, ← bytesRead_exact] at hbins hle
  rw [packBodies_exact pk hcalls, ← bytesRead_exact]
  refine packBodyCalls_packed pk t hvlen hmax hbins hle fun body hbody => ?_
  obtain ⟨call, hcall, rfl⟩ := List.mem_map.mp hbody
  exact hholds call hcall

theorem length_mapM {α β : Type} {f : α → Option β} {l : List α} {bs : List β}
    (h : l.mapM f = some bs) : bs.length = l.length := by
  induction l generalizing bs with
  | nil =>
    cases h
    rfl
  | cons a l ih =>
    rw [mapM_option_cons] at h
    obtain ⟨b, _, h⟩ := Option.bind_eq_some_iff.mp h
    obtain ⟨rest, hrest, rfl⟩ := Option.map_eq_some_iff.mp h
    exact congrArg Nat.succ (ih hrest)

/-- One entry for every element. -/
theorem length_elements {buffer : Buffer} {count : Nat} {vs : List (Value Bytes)}
    (h : elements maxSize t buffer count = some vs) : vs.length = count := by
  cases t with
  | string size variableStr =>
    rw [elements] at h
    split at h
    · rw [← Option.some.inj h, List.length_map, List.length_range']
    · cases h
  | vlen super =>
    rw [elements] at h
    rw [length_mapM h, List.length_range']
  | _ => cases h

theorem length_flatten_elements {calls : List BodyCall} {vss : List (List (Value Bytes))}
    (h : calls.mapM (fun call => elements maxSize t call.buffer call.count) = some vss) :
    vss.flatten.length = countOf calls := by
  induction calls generalizing vss with
  | nil =>
    cases h
    rfl
  | cons call calls ih =>
    rw [mapM_option_cons] at h
    obtain ⟨vs, hvs, h⟩ := Option.bind_eq_some_iff.mp h
    obtain ⟨rest, hrest, rfl⟩ := Option.map_eq_some_iff.mp h
    rw [List.flatten_cons, List.length_append, length_elements hvs, ih hrest, countOf_cons]

theorem packContentsHeader_of_few (hdetect : detectVlenTypes t = 1) (pci : PackContentsInfo)
    (nrBytes : Nat) {dims : List UInt64} (hle : (nrElements dims).toNat ≤ maxSize) :
    ∃ info header, packContentsHeader pci maxSize t dims nrBytes = .ok (info, header) := by
  rw [nrElements] at hle
  rw [packContentsHeader]
  dsimp only
  rw [hdetect, if_pos (by decide), if_neg (Nat.not_lt.mpr hle)]
  exact ⟨_, _, rfl⟩

/-- More elements of variable length than the limit. -/
theorem packArray_tooMany (hdetect : detectVlenTypes t = 1) (pci : PackContentsInfo)
    {dims : List UInt64} (nrBytes : Nat) (calls : List BodyCall)
    (hlt : maxSize < (nrElements dims).toNat) :
    packArray pk pci maxSize t dims nrBytes calls = .error .error := by
  have hheader : packContentsHeader pci maxSize t dims nrBytes = .error .error := by
    rw [nrElements] at hlt
    rw [packContentsHeader]
    dsimp only
    rw [hdetect, if_pos (by decide), if_pos hlt]
  rw [packArray, hheader]

/-- An array of data of variable length. -/
theorem packArray_variable (hbody : BodySpec pk maxSize t) (hdetect : detectVlenTypes t = 1)
    (hvar : t.hasVariable = true) (pci : PackContentsInfo) {dims : List UInt64} (nrBytes : Nat)
    {calls : List BodyCall} (hdims : (nrElements dims).toNat = countOf calls)
    (hholds : ∀ call ∈ calls, call.buffer.Holds maxSize t call.count)
    (hnull : ∀ call ∈ calls, call.buffer.NonNull t call.count) :
    packArray pk pci maxSize t dims nrBytes calls =
      (orError (arrayValue maxSize t (elements maxSize t) dims calls)).map fun v =>
        pk.write v.tokens := by
  rw [arrayValue, if_pos hvar]
  by_cases hlt : maxSize < countOf calls
  · rw [if_pos hlt, packArray_tooMany hdetect pci nrBytes calls (by rw [hdims]; exact hlt)]
    rfl
  · obtain ⟨info, header, hheader⟩ := packContentsHeader_of_few hdetect pci nrBytes
      (show (nrElements dims).toNat ≤ maxSize by rw [hdims]; exact Nat.not_lt.mp hlt)
    obtain ⟨hsize, hvlen, hvalue⟩ := packContentsHeader_vlen hheader (by rw [hdetect]; decide)
    rw [if_neg hlt, packArray, hheader]
    dsimp only
    rw [packBodies_variable hbody (hvlen.trans hdetect) hsize hholds hnull]
    generalize hvss : List.mapM (fun call => elements maxSize t call.buffer call.count) calls = vss
    rcases vss with _ | vss
    · rfl
    · rw [orError, Option.map_some, orError, Except.map, Except.map, Except.map]
      dsimp only
      rw [← Packer.write_append, hvalue _ ((length_flatten_elements hvss).trans hdims.symm)]

/-- An array of data of a fixed size. -/
theorem packArray_fixed (hdetect : detectVlenTypes t = 0) (hfixed : t.hasVariable = false)
    (hmax : 0 < maxSize) (hlt : maxSize < 2 ^ 64) (pci : PackContentsInfo) (dims : List UInt64)
    {calls : List BodyCall} (hsum : countOf calls * t.size.toNat + maxSize ≤ 2 ^ 64)
    (hholds : ∀ call ∈ calls, call.buffer.Holds maxSize t call.count) :
    packArray pk pci maxSize t dims (countOf calls * t.size.toNat) calls =
      (orError (arrayValue maxSize t (elements maxSize t) dims calls)).map fun v =>
        pk.write v.tokens := by
  have hne : ¬ t.hasVariable = true := by rw [hfixed]; exact Bool.false_ne_true
  rw [arrayValue, if_neg hne]
  have htype := packNumpyType_value t none
  rcases hvalue : typeValue t none with _ | type
  · have hheader : packContentsHeader pci maxSize t dims (countOf calls * t.size.toNat) =
        .error .error := by
      rw [hvalue] at htype
      simp only [packContentsHeader, hdetect, Int.lt_irrefl, if_false, if_true,
        nrBinsNeeded_of_le hmax hsum, htype, Option.map_none]
    rw [packArray, hheader]
    rfl
  · rw [hvalue] at htype
    obtain ⟨info, header, hheader, _⟩ := packContentsHeader_of_le pci maxSize
      (countOf calls * t.size.toNat) dims hdetect (by rw [htype]; rfl) hmax hsum
    obtain ⟨type', htype', hsize, hvlen, hleft, hroom, _, hpos, hneeded, htokens⟩ :=
      packContentsHeader_fixed hheader hdetect
    cases hvalue.symm.trans htype'
    obtain ⟨info', out, hbodies, hpacked⟩ := packBodies_fixed pk hvlen
      (by rw [hsize]; exact hmax) hpos (by omega) (by omega)
      fun call hcall => (hholds call hcall).bytes hfixed
    have hbytes := length_bytesOf t.size.toNat calls
    have hdone : info'.bytesLeft = 0 := by
      have := hpacked.bytesLeft_eq
      omega
    have hout := hpacked.stream [] hdone.symm
    rw [hsize, hroom, List.append_nil, binStream_nil, binStream_none, List.append_nil] at hout
    have hcount : info.nrBins = (pieces maxSize (bytesOf t.size.toNat calls)).length := by
      rw [(pieces_cut hmax _).count, hbytes, nrBinsNeeded_eq hneeded (by omega) (by omega)]
    rw [packArray, hheader]
    dsimp only
    rw [hbodies, Option.map_some, orError, Except.map, Except.map]
    dsimp only
    rw [← hout, ← write_bins, ← Packer.write_append, htokens _ hcount.symm]

/-- The loop over the sequences of a buffer. -/
theorem packSequences_eq (pk : Packer) (value : Nat → Option (Value Bytes))
    {packElement : Nat → Except Failure Bytes} (start : Nat) {count : Nat}
    (h : ∀ i, start ≤ i → i < start + count →
      packElement i = (orError (value i)).map fun v => pk.write v.tokens) :
    packSequences packElement start count =
      (orError ((List.range' start count).mapM value)).map fun vs =>
        pk.write (vs.flatMap Value.tokens) := by
  induction count generalizing start with
  | zero => rfl
  | succ count ih =>
    have hrest := ih (start + 1) fun i hi hi' => h i (by omega) (by omega)
    rw [packSequences, h start (Nat.le_refl _) (by omega), List.range'_succ, mapM_option_cons]
    rcases value start with _ | v
    · rfl
    · show (packSequences packElement (start + 1) count).map _ = _
      rw [hrest, Option.bind_some]
      generalize List.mapM value (List.range' (start + 1) count) = vs
      rcases vs with _ | vs
      · rfl
      · rw [Option.map_some, orError, orError, Except.map, Except.map, Except.map,
          List.flatMap_cons, Packer.write_append]

theorem packStrings_eq (pk : Packer) {str : Nat → Option Bytes} (start count : Nat)
    (h : ∀ i, start ≤ i → i < start + count → (str i).isSome) :
    packStrings pk str start count = .ok (pk.write
      (((List.range' start count).map fun i => Value.str ((str i).getD [])).flatMap
        Value.tokens)) := by
  induction count generalizing start with
  | zero => rfl
  | succ count ih =>
    obtain ⟨s, hs⟩ := Option.isSome_iff_exists.mp (h start (Nat.le_refl _) (by omega))
    have hrest := ih (start + 1) fun i hi hi' => h i (by omega) (by omega)
    rw [packStrings, hs]
    dsimp only
    rw [hrest, List.range'_succ, List.map_cons, hs, Option.getD_some, List.flatMap_cons,
      Packer.write_append, Value.tokens_str, Packer.write_cons, Packer.write_nil, List.append_nil]
    rfl

/-- An array whose elements come with one call. -/
theorem packArray_one (pk : Packer) (maxSize : Nat) (pci : PackContentsInfo) (t : Datatype)
    (dims : List UInt64) (call : BodyCall) :
    packArray pk pci maxSize t dims (call.count * t.size.toNat % 2 ^ 64) [call] =
      match packContentsHeader pci maxSize t dims (call.count * t.size.toNat % 2 ^ 64) with
      | .error e => .error e
      | .ok (elementPci, header) =>
        (packContentsBody pk elementPci t call.count call.buffer
          (call.count * t.size.toNat % 2 ^ 64)).map fun body => pk.write header ++ body.2 := by
  rw [packArray]
  split
  · rfl
  · rename_i elementPci header hheader
    rw [packBodies_cons]
    rcases packContentsBody pk elementPci t call.count call.buffer
      (call.count * t.size.toNat % 2 ^ 64) with e | ⟨pci', out⟩
    · rfl
    · show Except.ok (pk.write header ++ (out ++ [])) = Except.ok (pk.write header ++ out)
      rw [List.append_nil]

/-- A type on which `detect_vlen_types` fails has no descriptor. -/
theorem typeValue_of_neg {t : Datatype} (h : detectVlenTypes t < 0) (fieldName : Option Bytes) :
    typeValue t fieldName = none := by
  induction t using Datatype.induction generalizing fieldName with
  | hstring size variableStr =>
    rw [detectVlenTypes] at h
    split at h <;> exact absurd h (by decide)
  | harray dims super ih =>
    rw [typeValue, ih h fieldName]
    rfl
  | hcompound members ih =>
    rw [typeValue]
    rw [detectVlenTypes] at h
    have hmembers : memberValues members = none := by
      induction members with
      | nil => exact absurd h (by decide)
      | cons m members ihm =>
        obtain ⟨name, t⟩ := m
        rw [detectVlenMembers] at h
        rw [memberValues]
        split at h
        · rw [ih (name, t) List.mem_cons_self h (some name)]
          rfl
        · rw [ihm (fun m hm => ih m (List.mem_cons_of_mem _ hm)) h]
          cases typeValue t (some name) <;> rfl
    rw [hmembers]
    rfl
  | hother size => rfl
  | hvlen super ih => exact absurd h (by decide : ¬ (1 : Int) < 0)
  | _ => exact absurd h (by decide : ¬ (0 : Int) < 0)

theorem detectVlenTypes_of_typeValue {t : Datatype} {fieldName : Option Bytes}
    (h : (typeValue t fieldName).isSome) : 0 ≤ detectVlenTypes t := by
  by_contra hneg
  rw [typeValue_of_neg (Int.not_le.mp hneg)] at h
  cases h

theorem elements_of_neg {t : Datatype} (h : detectVlenTypes t < 0) (maxSize : Nat)
    (buffer : Buffer) (count : Nat) : elements maxSize t buffer count = none := by
  cases t with
  | string size variableStr =>
    rw [detectVlenTypes] at h
    split at h <;> exact absurd h (by decide)
  | vlen super => exact absurd h (by decide : ¬ (1 : Int) < 0)
  | _ => rfl

theorem arrayValue_of_neg {t : Datatype} (h : detectVlenTypes t < 0) (dims : List UInt64)
    (call : BodyCall) : arrayValue maxSize t (elements maxSize t) dims [call] = none := by
  rw [arrayValue, mapM_option_cons, elements_of_neg h, typeValue_of_neg h]
  split
  · split <;> rfl
  · rfl

theorem countOf_one (call : BodyCall) : countOf [call] = call.count := by
  rw [countOf_cons, countOf, List.map_nil, List.sum_nil, Nat.add_zero]

/-- **An array whose elements come with one call**, of any type. -/
theorem packArray_call (hbody : detectVlenTypes t = 1 → BodySpec pk maxSize t) (hmax : 0 < maxSize)
    (pci : PackContentsInfo) {dims : List UInt64} (call : BodyCall)
    (hdims : (nrElements dims).toNat = call.count)
    (hsum : t.hasVariable = false →
      maxSize < 2 ^ 64 ∧ call.count * t.size.toNat + maxSize ≤ 2 ^ 64)
    (hholds : call.buffer.Holds maxSize t call.count)
    (hnull : call.buffer.NonNull t call.count) :
    packArray pk pci maxSize t dims (call.count * t.size.toNat % 2 ^ 64) [call] =
      (orError (arrayValue maxSize t (elements maxSize t) dims [call])).map fun v =>
        pk.write v.tokens := by
  have hcount := countOf_one call
  have hholds' : ∀ c ∈ [call], c.buffer.Holds maxSize t c.count := fun c hc => by
    rw [List.mem_singleton.mp hc]
    exact hholds
  rcases lt_or_ge (detectVlenTypes t) 0 with hneg | hnonneg
  · rw [arrayValue_of_neg hneg, packArray, packContentsHeader]
    dsimp only
    rw [if_neg (by omega), if_neg (by omega)]
    rfl
  · by_cases hvar : t.hasVariable = true
    · have hone := detectVlenTypes_variable hnonneg hvar
      refine packArray_variable (hbody hone) hone hvar pci _ (hdims.trans hcount.symm) hholds' ?_
      intro c hc
      rw [List.mem_singleton.mp hc]
      exact hnull
    · have hfixed : t.hasVariable = false := Bool.eq_false_iff.mpr hvar
      obtain ⟨hlt, hle⟩ := hsum hfixed
      rw [Nat.mod_eq_of_lt (by omega : call.count * t.size.toNat < 2 ^ 64), ← hcount]
      exact packArray_fixed (detectVlenTypes_fixed hnonneg hfixed) hfixed hmax hlt pci dims
        (by rw [hcount]; exact hle) hholds'

/-- A sequence is packed as an array of its own. -/
theorem packArray_sequence (hbody : detectVlenTypes t = 1 → BodySpec pk maxSize t)
    (hmax : 0 < maxSize) (len : UInt64) (buffer : Buffer)
    (hsum : t.hasVariable = false → len.toNat * t.size.toNat + maxSize < 2 ^ 64)
    (hholds : buffer.Holds maxSize t len.toNat) (hnull : buffer.NonNull t len.toNat) :
    packArray pk default maxSize t [len] (len * t.size).toNat [⟨len.toNat, buffer⟩] =
      (orError (arrayValue maxSize t (elements maxSize t) [len] [⟨len.toNat, buffer⟩])).map fun v =>
        pk.write v.tokens := by
  rw [UInt64.toNat_mul]
  refine packArray_call hbody hmax default ⟨len.toNat, buffer⟩
    (congrArg UInt64.toNat (nrElements_singleton len)) (fun hfixed => ?_) hholds hnull
  have hlt := hsum hfixed
  exact ⟨by omega, Nat.le_of_lt hlt⟩

/-- **The body of elements of variable length**, by induction on the type. -/
theorem bodySpec (hmax : 0 < maxSize) (hdetect : detectVlenTypes t = 1) :
    BodySpec pk maxSize t := by
  induction t using Datatype.induction with
  | hinteger size order sign => exact absurd hdetect (by decide : ¬ (0 : Int) = 1)
  | henum size order sign => exact absurd hdetect (by decide : ¬ (0 : Int) = 1)
  | hfloat size order => exact absurd hdetect (by decide : ¬ (0 : Int) = 1)
  | hstring size variableStr =>
    intro pci buffer count bufferLen hvlen hsize hholds hnull
    have hvar : variableStr = true := by
      by_contra hfixed
      rw [detectVlenTypes, if_neg hfixed] at hdetect
      exact absurd hdetect (by decide)
    rw [Buffer.Holds, if_pos hvar] at hholds
    have hnull : ∀ i < count, (buffer.str i).isSome := hnull hvar
    rw [packContentsBody.eq_def, if_pos (by omega), elements, if_pos hvar]
    dsimp only
    rw [if_neg (not_not.mpr hvar)]
    rcases hholds with rfl | ⟨str, rfl⟩
    · rcases buffer with _ | mem | str | ⟨len, p⟩
      · rfl
      · rfl
      · rfl
      · rfl
    · have hnull : ∀ i < count, (str i).isSome := hnull
      have hstrings := packStrings_eq pk 0 count fun i _ hi => hnull i (by omega)
      dsimp only
      rw [hstrings]
      rfl
  | harray dims super ih =>
    intro pci buffer count bufferLen hvlen _ _ _
    rw [packContentsBody.eq_def, if_pos (by omega)]
    rfl
  | hcompound members ih =>
    intro pci buffer count bufferLen hvlen _ _ _
    rw [packContentsBody.eq_def, if_pos (by omega)]
    rfl
  | hvlen super ih =>
    intro pci buffer count bufferLen hvlen hsize hholds hnull
    rw [Buffer.Holds] at hholds
    obtain ⟨hbuffer, hholds⟩ := hholds
    rw [Buffer.NonNull] at hnull
    rw [packContentsBody.eq_def, if_pos (by omega), elements]
    rcases hbuffer with rfl | ⟨len, p, rfl⟩
    · rcases buffer with _ | mem | str | ⟨len, p⟩
      · rfl
      · rfl
      · rfl
      · rfl
    · refine (congrArg (Except.map fun out => (pci, out)) (packSequences_eq pk
        (fun i => arrayValue maxSize super (elements maxSize super) [len i]
          [{ count := (len i).toNat, buffer := p i }]) 0 fun i _ hi => ?_)).trans ?_
      · -- each sequence is an array with one call
        obtain ⟨hsum, hbuffer⟩ := hholds i (by omega)
        have hone := packArray_one pk maxSize default super [len i]
          { count := (len i).toNat, buffer := p i }
        have hcall := packArray_sequence ih hmax (len i) (p i) hsum hbuffer (hnull i (by omega))
        rw [hsize]
        exact hone.symm.trans hcall
      · dsimp only [Buffer.len, Buffer.p]
        generalize List.mapM (fun i => arrayValue maxSize super (elements maxSize super) [len i]
          [{ count := (len i).toNat, buffer := p i }]) (List.range' 0 count) = vs
        rcases vs with _ | vs
        · rfl
        · rfl
  | hother size => exact absurd hdetect (by decide : ¬ (-1 : Int) = 1)

/-! ## 5. Arrays -/

/-- The number of elements of an array. -/
def numberOf (dims : List UInt64) : Nat := dims.foldl (fun n d => n * d.toNat) 1

theorem nrElements_toNat (dims : List UInt64) :
    (nrElements dims).toNat = numberOf dims % 2 ^ 64 := by
  have hfold : ∀ (a : UInt64) (n : Nat), a.toNat = n % 2 ^ 64 →
      (dims.foldl (fun acc d => acc * d) a).toNat =
        dims.foldl (fun n d => n * d.toNat) n % 2 ^ 64 := by
    induction dims with
    | nil => exact fun a n h => h
    | cons d dims ih =>
      intro a n h
      refine ih (a * d) (n * d.toNat) ?_
      rw [UInt64.toNat_mul, h, Nat.mod_mul_mod]
  exact hfold 1 1 rfl

/-- **What an array is packed as**: nothing, after a failure, or its encoding. -/
structure Encoded (pk : Packer) (pci : PackContentsInfo) (maxSize : Nat) (t : Datatype)
    (dims : List UInt64) (calls : List BodyCall) : Prop where
  result :
    packArray pk pci maxSize t dims (countOf calls * t.size.toNat % 2 ^ 64) calls =
        .error .error ∨
      ∃ v, arrayValue maxSize t (elements maxSize t) dims calls = some v ∧
        packArray pk pci maxSize t dims (countOf calls * t.size.toNat % 2 ^ 64) calls =
          .ok (pk.write v.tokens)
  /-- One entry for every element. -/
  entries : ∀ v, arrayValue maxSize t (elements maxSize t) dims calls = some v →
    t.hasVariable = true → ∃ vs : List (Value Bytes), vs.length = countOf calls ∧
      v = vlenValue dims vs
  /-- The bytes are those of no other value, nor the beginning of one. -/
  unique : ∀ v, arrayValue maxSize t (elements maxSize t) dims calls = some v → v.Fits →
    ∀ (w : Value Bytes) (r s : Bytes), w.Fits →
      pk.write v.tokens ++ r = pk.write w.tokens ++ s → v = w ∧ r = s
  /-- Bytes are copied from a buffer only if no part of the type has variable length. -/
  copied : ∀ (nrBytes count n : Nat) (info : PackContentsInfo) (header : List (Token Bytes))
    (mem mem' : Nat → UInt8), packContentsHeader pci maxSize t dims nrBytes = .ok (info, header) →
      packContentsBody pk info t count (.bytes mem) n ≠
        packContentsBody pk info t count (.bytes mem') n → t.hasVariable = false

/-- The bytes of a buffer do not matter when some part of the type has variable length. -/
theorem packContentsBody_variable_bytes (pk : Packer) {info : PackContentsInfo}
    (hvlen : 0 < info.hasVlen) (t : Datatype) (count n : Nat) (mem mem' : Nat → UInt8) :
    packContentsBody pk info t count (.bytes mem) n =
      packContentsBody pk info t count (.bytes mem') n := by
  rw [packContentsBody.eq_def, packContentsBody.eq_def pk info t count (.bytes mem'), if_pos hvlen,
    if_pos hvlen]

/-- **An array is packed as its encoding**, unless there is none. -/
theorem packArray_eq (pk : Packer) (pci : PackContentsInfo) {maxSize : Nat} {t : Datatype}
    {dims : List UInt64} {calls : List BodyCall} (hdetect : 0 ≤ detectVlenTypes t)
    (hmax : 0 < maxSize) (hdims : numberOf dims = countOf calls) (hcount : countOf calls < 2 ^ 64)
    (hsum : t.hasVariable = false →
      maxSize < 2 ^ 64 ∧ countOf calls * t.size.toNat + maxSize ≤ 2 ^ 64)
    (hholds : ∀ call ∈ calls, call.buffer.Holds maxSize t call.count)
    (hnull : ∀ call ∈ calls, call.buffer.NonNull t call.count) :
    packArray pk pci maxSize t dims (countOf calls * t.size.toNat % 2 ^ 64) calls =
      (orError (arrayValue maxSize t (elements maxSize t) dims calls)).map fun v =>
        pk.write v.tokens := by
  by_cases hvar : t.hasVariable = true
  · have hone := detectVlenTypes_variable hdetect hvar
    refine packArray_variable (bodySpec hmax hone) hone hvar pci _ ?_ hholds hnull
    rw [nrElements_toNat, hdims, Nat.mod_eq_of_lt hcount]
  · have hfixed : t.hasVariable = false := Bool.eq_false_iff.mpr hvar
    obtain ⟨hlt, hle⟩ := hsum hfixed
    rw [Nat.mod_eq_of_lt (by omega : countOf calls * t.size.toNat < 2 ^ 64)]
    exact packArray_fixed (detectVlenTypes_fixed hdetect hfixed) hfixed hmax hlt pci dims hle hholds

/-- **Arrays are packed structurally**, whatever the type, and raw pointers are not packed. -/
theorem packArray_encoded (pk : Packer) (pci : PackContentsInfo) {maxSize : Nat} {t : Datatype}
    {dims : List UInt64} {calls : List BodyCall} (hknown : t.known = true) (hmax : 0 < maxSize)
    (hdims : numberOf dims = countOf calls) (hcount : countOf calls < 2 ^ 64)
    (hsum : t.hasVariable = false → countOf calls * t.size.toNat + maxSize < 2 ^ 64)
    (hholds : ∀ call ∈ calls, call.buffer.Holds maxSize t call.count)
    (hnull : ∀ call ∈ calls, call.buffer.NonNull t call.count) :
    Encoded pk pci maxSize t dims calls := by
  have hpack := packArray_eq pk pci (detectVlenTypes_nonneg hknown) hmax hdims hcount
    (fun hfixed => by
      have hlt := hsum hfixed
      exact ⟨by omega, Nat.le_of_lt hlt⟩) hholds hnull
  constructor
  · rcases hvalue : arrayValue maxSize t (elements maxSize t) dims calls with _ | v
    · rw [hvalue] at hpack
      exact .inl hpack
    · rw [hvalue] at hpack
      exact .inr ⟨v, rfl, hpack⟩
  · intro v hv hvar
    rw [arrayValue, if_pos hvar] at hv
    split at hv
    · cases hv
    · obtain ⟨vss, hvss, rfl⟩ := Option.map_eq_some_iff.mp hv
      exact ⟨vss.flatten, length_flatten_elements hvss, rfl⟩
  · intro v _ hfits w r s hw h
    exact Packer.write_tokens_append_inj hfits hw h
  · intro nrBytes count n info header mem mem' hheader hne
    by_contra hvar
    rw [Bool.not_eq_false] at hvar
    have hdetect := detectVlenTypes_variable (detectVlenTypes_nonneg hknown) hvar
    obtain ⟨_, hvlen, _⟩ := packContentsHeader_vlen hheader (by rw [hdetect]; decide)
    exact hne (packContentsBody_variable_bytes pk (by rw [hvlen, hdetect]; decide) t count n
      mem mem')

/-- Two strings in two calls. -/
def twoStrings : List BodyCall :=
  [{ count := 1, buffer := .strings fun _ => some (ascii "a") },
   { count := 1, buffer := .strings fun _ => some (ascii "bc") }]

theorem packArray_encoded_twoStrings :
    Encoded msgpackC default 100 (.string 8 true) [2] twoStrings := by
  refine packArray_encoded msgpackC default (by decide) (by decide) (by decide) (by decide)
    (fun h => by cases h) ?_ ?_
  · intro call hcall
    rcases List.mem_cons.mp hcall with rfl | hcall
    · exact .inr ⟨_, rfl⟩
    · rw [List.mem_singleton.mp hcall]
      exact .inr ⟨_, rfl⟩
  · intro call hcall
    rcases List.mem_cons.mp hcall with rfl | hcall
    · exact fun _ _ _ => rfl
    · rw [List.mem_singleton.mp hcall]
      exact fun _ _ _ => rfl

/-- A limit of 0 stops the process; and an array of 2^64 strings is announced as empty, so that
what is packed is a value and more. -/
theorem unlimited_fails :
    packArray msgpackC default 0 (.integer 1 .le .none) [1] 1
        [{ count := 1, buffer := .bytes fun _ => 0 }] = .error .assertion ∧
      ∃ rest, rest ≠ [] ∧
        packArray msgpackC default (2 ^ 32 - 1) (.string 8 true) [2 ^ 32, 2 ^ 32] 0
          [{ count := 2 ^ 64, buffer := .strings fun _ => some [] }] =
            .ok (msgpackC.write (vlenValue [2 ^ 32, 2 ^ 32] []).tokens ++ rest) := by
  refine ⟨by decide +kernel, ?_⟩
  have hheader : ∃ info header, packContentsHeader default (2 ^ 32 - 1) (.string 8 true)
      [2 ^ 32, 2 ^ 32] 0 = .ok (info, header) := ⟨_, _, rfl⟩
  obtain ⟨info, header, hheader⟩ := hheader
  obtain ⟨hsize, hvlen, hvalue⟩ := packContentsHeader_vlen hheader (by decide)
  obtain ⟨n, hn⟩ : ∃ n, n = 2 ^ 64 := ⟨_, rfl⟩
  rw [← hn]
  have hbody : BodySpec msgpackC (2 ^ 32 - 1) (.string 8 true) := bodySpec (by omega) rfl
  have hstrings : packContentsBody msgpackC info (.string 8 true) n (.strings fun _ => some [])
      (n * (Datatype.string 8 true).size.toNat % 2 ^ 64) = .ok (info, msgpackC.write
        (((List.range' 0 n).map fun _ => Value.str []).flatMap Value.tokens)) :=
    hbody info _ n _ (hvlen.trans rfl) hsize (.inr ⟨_, rfl⟩) fun _ _ _ => rfl
  refine ⟨msgpackC.write (((List.range' 0 n).map fun _ => Value.str []).flatMap Value.tokens) ++ [],
    ?_, ?_⟩
  · obtain ⟨m, rfl⟩ : ∃ m, n = m + 1 := ⟨2 ^ 64 - 1, by omega⟩
    rw [List.range'_succ, List.map_cons, List.flatMap_cons, Packer.write_append]
    exact List.append_ne_nil_of_left_ne_nil
      (List.append_ne_nil_of_left_ne_nil (by decide) _) _
  · rw [packArray, hheader]
    dsimp only
    rw [packBodies_cons, hstrings, ← hvalue [] rfl, List.flatMap_nil, List.append_nil]
    rfl

/-! ## 6. Null pointers -/

/-- The type is a string of variable length, or a sequence of such strings, of sequences, or of
data of a fixed size that has a descriptor. -/
def Datatype.stringsAndSequences : Datatype → Bool
  | .string _ variableStr => variableStr
  | .vlen super =>
    super.stringsAndSequences ||
      (!super.hasVariable && super.known && (typeValue super none).isSome)
  | _ => false

/-- Sequences of data of variable length are no longer than `maxSize`, at any depth. -/
def Buffer.Short (maxSize : Nat) : Datatype → Buffer → Nat → Prop
  | .vlen super, buffer, count =>
    ∀ i < count, (super.hasVariable = true → (buffer.len i).toNat ≤ maxSize) ∧
      Short maxSize super (buffer.p i) (buffer.len i).toNat
  | _, _, _ => True

theorem Datatype.hasVariable_of_strings {t : Datatype} (h : t.stringsAndSequences = true) :
    t.hasVariable = true := by
  cases t with
  | string size variableStr => exact h
  | vlen super => rfl
  | _ => cases h

theorem Datatype.known_of_strings {t : Datatype} (h : t.stringsAndSequences = true) :
    t.known = true := by
  induction t using Datatype.induction with
  | hstring size variableStr => rfl
  | hvlen super ih =>
    rw [Datatype.stringsAndSequences, Bool.or_eq_true] at h
    rcases h with h | h
    · exact ih h
    · rw [Bool.and_eq_true, Bool.and_eq_true] at h
      exact h.1.2
  | _ => cases h

theorem mapM_isSome_iff {α β : Type} {f : α → Option β} {l : List α} :
    (l.mapM f).isSome ↔ ∀ a ∈ l, (f a).isSome := by
  induction l with
  | nil => exact ⟨fun _ a ha => (by cases ha), fun _ => rfl⟩
  | cons a l ih =>
    rw [mapM_option_cons, List.forall_mem_cons, ← ih]
    generalize List.mapM f l = bs
    rcases f a with _ | b
    · exact ⟨fun h => (by cases h), fun h => (by cases h.1)⟩
    · rw [Option.bind_some, Option.isSome_map]
      exact ⟨fun h => ⟨rfl, h⟩, And.right⟩

/-- The elements of these types have an encoding, unless a sequence is too long. -/
theorem elements_isSome_iff {maxSize : Nat} {t : Datatype} (ht : t.stringsAndSequences = true)
    {buffer : Buffer} {count : Nat} :
    (elements maxSize t buffer count).isSome ↔ buffer.Short maxSize t count := by
  induction t using Datatype.induction generalizing buffer count with
  | hstring size variableStr =>
    have hvar : variableStr = true := ht
    rw [elements, if_pos hvar]
    exact ⟨fun _ => trivial, fun _ => rfl⟩
  | hvlen super ih =>
    have helement : ∀ i, (arrayValue maxSize super (elements maxSize super) [buffer.len i]
        [{ count := (buffer.len i).toNat, buffer := buffer.p i }]).isSome ↔
          (super.hasVariable = true → (buffer.len i).toNat ≤ maxSize) ∧
            (buffer.p i).Short maxSize super (buffer.len i).toNat := by
      intro i
      have hcount : countOf [BodyCall.mk (buffer.len i).toNat (buffer.p i)] =
        (buffer.len i).toNat := rfl
      rw [Datatype.stringsAndSequences, Bool.or_eq_true] at ht
      rcases ht with ht | ht
      · have hvar := Datatype.hasVariable_of_strings ht
        have hsome := @ih ht (buffer.p i) (buffer.len i).toNat
        rw [arrayValue, if_pos hvar, hcount, mapM_option_cons]
        dsimp only
        rw [← hsome]
        split
        · rename_i hlt
          exact ⟨fun h => (by cases h), fun h => absurd (h.1 hvar) (by omega)⟩
        · rename_i hle
          rcases elements maxSize super (buffer.p i) (buffer.len i).toNat with _ | vs
          · exact ⟨fun h => (by cases h), fun h => (by cases h.2)⟩
          · exact ⟨fun _ => ⟨fun _ => by omega, rfl⟩, fun _ => rfl⟩
      · rw [Bool.and_eq_true, Bool.and_eq_true, Bool.not_eq_true'] at ht
        have hne : ¬ super.hasVariable = true := by
          rw [ht.1.1]
          exact Bool.false_ne_true
        obtain ⟨type, htype⟩ := Option.isSome_iff_exists.mp ht.2
        rw [arrayValue, if_neg hne, htype]
        refine ⟨fun _ => ⟨fun h => absurd h hne, ?_⟩, fun _ => rfl⟩
        cases super with
        | vlen super => exact absurd rfl hne
        | _ => trivial
    rw [elements, mapM_isSome_iff]
    constructor
    · intro h i hi
      exact (helement i).mp (h i (List.mem_range'_1.mpr (by omega)))
    · intro h i hi
      exact (helement i).mpr (h i (by have := List.mem_range'_1.mp hi; omega))
  | _ => cases ht

theorem packStrings_isSome {str : Nat → Option Bytes} {start count : Nat} {out : Bytes}
    (h : packStrings pk str start count = .ok out) :
    ∀ i, start ≤ i → i < start + count → (str i).isSome := by
  induction count generalizing start out with
  | zero =>
    intro i _ _
    omega
  | succ count ih =>
    intro i hi hi'
    rw [packStrings] at h
    rcases hs : str start with _ | s
    · rw [hs] at h
      cases h
    · rw [hs] at h
      obtain ⟨rest, hrest, _⟩ := map_eq_ok h
      rcases Nat.eq_or_lt_of_le hi with rfl | hlt
      · rw [hs]
        rfl
      · exact ih hrest i hlt (by omega)

theorem packSequences_all {packElement : Nat → Except Failure Bytes} {start count : Nat}
    {out : Bytes} (h : packSequences packElement start count = .ok out) :
    ∀ i, start ≤ i → i < start + count → ∃ element, packElement i = .ok element := by
  induction count generalizing start out with
  | zero =>
    intro i _ _
    omega
  | succ count ih =>
    intro i hi hi'
    rw [packSequences] at h
    rcases helement : packElement start with e | element
    · rw [helement] at h
      cases h
    · rw [helement] at h
      obtain ⟨rest, hrest, _⟩ := map_eq_ok h
      rcases Nat.eq_or_lt_of_le hi with rfl | hlt
      · exact ⟨element, helement⟩
      · exact ih hrest i hlt (by omega)

theorem nonNull_of_fixed {t : Datatype} (h : ¬ 0 < detectVlenTypes t) (buffer : Buffer)
    (count : Nat) : buffer.NonNull t count := by
  cases t with
  | string size variableStr =>
    intro hvar
    rw [detectVlenTypes, if_pos hvar] at h
    exact absurd (by decide) h
  | vlen super => exact absurd (by decide : (0 : Int) < 1) h
  | _ => trivial

/-- **A body that returns has read no null pointer.** -/
theorem packContentsBody_nonNull {pci pci' : PackContentsInfo} {t : Datatype} {buffer : Buffer}
    {count bufferLen : Nat} {out : Bytes} (hvlen : 0 < pci.hasVlen)
    (h : packContentsBody pk pci t count buffer bufferLen = .ok (pci', out)) :
    buffer.NonNull t count := by
  induction t using Datatype.induction generalizing pci pci' buffer count bufferLen out with
  | hstring size variableStr =>
    intro hvar i hi
    rw [packContentsBody.eq_def, if_pos hvlen] at h
    dsimp only at h
    rw [if_neg (not_not.mpr hvar)] at h
    rcases buffer with _ | mem | str | ⟨len, p⟩
    · exact absurd h (by dsimp only; rw [if_neg (by omega)]; exact fun h => by cases h)
    · exact absurd h (by dsimp only; rw [if_neg (by omega)]; exact fun h => by cases h)
    · obtain ⟨strings, hstrings, _⟩ := map_eq_ok h
      exact packStrings_isSome hstrings i (Nat.zero_le i) (by omega)
    · exact absurd h (by dsimp only; rw [if_neg (by omega)]; exact fun h => by cases h)
  | hvlen super ih =>
    intro i hi
    rw [packContentsBody.eq_def, if_pos hvlen] at h
    dsimp only at h
    rcases buffer with _ | mem | str | ⟨len, p⟩
    · exact absurd h (by dsimp only; rw [if_neg (by omega)]; exact fun h => by cases h)
    · exact absurd h (by dsimp only; rw [if_neg (by omega)]; exact fun h => by cases h)
    · exact absurd h (by dsimp only; rw [if_neg (by omega)]; exact fun h => by cases h)
    · obtain ⟨sequences, hsequences, _⟩ := map_eq_ok h
      obtain ⟨element, helement⟩ := packSequences_all hsequences i (Nat.zero_le i) (by omega)
      split at helement
      · cases helement
      rename_i elementPci header hheader
      obtain ⟨⟨elementPci', elementOut⟩, hbody, _⟩ := map_eq_ok helement
      by_cases hsuper : 0 < detectVlenTypes super
      · obtain ⟨_, hhas, _⟩ := packContentsHeader_vlen hheader hsuper
        exact ih (by rw [hhas]; exact hsuper) hbody
      · exact nonNull_of_fixed hsuper _ _
  | _ => trivial

/-- One entry for every element, an empty string for a null pointer. -/
def NullsEncoded (pk : Packer) (pci : PackContentsInfo) (t : Datatype) (count : Nat)
    (buffer : Buffer) (bufferLen : Nat) : Prop :=
  ∃ vs : List (Value Bytes), elements pci.maxSize t buffer count = some vs ∧ vs.length = count ∧
    packContentsBody pk pci t count buffer bufferLen = .ok (pci, pk.write (vs.flatMap Value.tokens))

/-- **Strings and sequences are packed if and only if no string is null** and no sequence of them
is too long for the limit. -/
theorem nullsEncoded_iff (pk : Packer) {pci : PackContentsInfo} {t : Datatype} {count : Nat}
    {buffer : Buffer} (bufferLen : Nat) (ht : t.stringsAndSequences = true)
    (hvlen : pci.hasVlen = detectVlenTypes t) (hmax : 0 < pci.maxSize)
    (hholds : buffer.Holds pci.maxSize t count) :
    NullsEncoded pk pci t count buffer bufferLen ↔
      buffer.NonNull t count ∧ buffer.Short pci.maxSize t count := by
  have hvar := Datatype.hasVariable_of_strings ht
  have hknown := Datatype.known_of_strings ht
  have hdetect := detectVlenTypes_variable (detectVlenTypes_nonneg hknown) hvar
  have hone : pci.hasVlen = 1 := hvlen.trans hdetect
  constructor
  · rintro ⟨vs, hvs, _, hbody⟩
    exact ⟨packContentsBody_nonNull (by rw [hone]; decide) hbody,
      (elements_isSome_iff ht).mp (by rw [hvs]; rfl)⟩
  · rintro ⟨hnull, hshort⟩
    obtain ⟨vs, hvs⟩ := Option.isSome_iff_exists.mp ((elements_isSome_iff ht).mpr hshort)
    refine ⟨vs, hvs, length_elements hvs, ?_⟩
    rw [bodySpec hmax hdetect pci buffer count bufferLen hone rfl hholds hnull, hvs]
    rfl

/-- The state after the header for strings of variable length. -/
def stringsInfo : PackContentsInfo :=
  { maxSize := 2 ^ 32 - 1, hasVlen := 1, nrBins := 0, totalBytesLeft := 0, bytesLeftInBin := 0 }

theorem nullsEncoded_iff_strings :
    NullsEncoded msgpackC stringsInfo (.string 8 true) 2
        (.strings fun _ => some (ascii "a")) 16 ↔
      Buffer.NonNull (.string 8 true) (.strings fun _ => some (ascii "a")) 2 ∧
        Buffer.Short stringsInfo.maxSize (.string 8 true) (.strings fun _ => some (ascii "a")) 2 :=
  nullsEncoded_iff msgpackC 16 rfl rfl (by decide) (.inr ⟨_, rfl⟩)

/-- A string that was never written. -/
theorem nullString_read :
    Buffer.Holds stringsInfo.maxSize (.string 8 true) (.strings fun _ => none) 1 ∧
      packContentsBody msgpackC stringsInfo (.string 8 true) 1 (.strings fun _ => none) 8 =
        .error .nullPointer ∧
      ¬ NullsEncoded msgpackC stringsInfo (.string 8 true) 1 (.strings fun _ => none) 8 := by
  refine ⟨.inr ⟨_, rfl⟩, rfl, ?_⟩
  rintro ⟨vs, _, _, hbody⟩
  cases hbody

end HdfStream.Pack
