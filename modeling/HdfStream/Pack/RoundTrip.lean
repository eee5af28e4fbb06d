/-
# Array bodies round-trip

A header and the calls of `pack_contents_body` for all the pieces of the data are the bytes of one
value, in which the binaries are the data cut every `max_size` bytes.  Where the pieces were cut
does not show.

MessagePack has 32 bits for the length of a binary and for the length of an array, and
`msgpack_pack_bin` cuts off what does not fit.  So the limit on the size of a binary has to be
below `2 ^ 32` (or the data is shorter), and there have to be less than `2 ^ 32` binaries.
-/
import HdfStream.Pack.Contents
import Mathlib.Data.UInt

namespace HdfStream.Pack

open Msgpack Pieces

/-- The calls of `pack_contents_body`, each with the number of elements and the bytes. -/
def packCalls (pk : Packer) (dtype : Datatype) (calls : List (Nat × Bytes))
    (pci : PackContentsInfo) : Except Failure (PackContentsInfo × Bytes) :=
  packBodyCalls pk dtype
    (calls.map fun call => (call.1, .bytes fun i => call.2.getD i 0, call.2.length)) pci

/-- The loop of `decode_ndarray` over the binaries, with what has been copied so far. -/
def copyBins (nbytes : Nat) : List (Value Bytes) → Bytes → Option Bytes
  | [], copied => if copied.length = nbytes then some copied else none
  | .bin bytes :: bins, copied =>
    if copied.length + bytes.length ≤ nbytes then copyBins nbytes bins (copied ++ bytes) else none
  | _ :: _, _ => none

/-- `decode_ndarray`: the fields "nbytes" and "data". -/
def decodeNdarrayData : Value Bytes → Option Bytes
  | .map [_, _, _, _, (_, .int nbytes), (_, .array bins)] =>
    if 0 ≤ nbytes then copyBins nbytes.toNat bins [] else none
  | _ => none

/-! ## 1. Headers that fit -/

mutual

/-- The lengths in a datatype have 32 bits. -/
def Datatype.Fits : Datatype → Prop
  | .array dims super => dims.length < 2 ^ 32 ∧ super.Fits
  | .compound members => members.length < 2 ^ 32 ∧ Datatype.MembersFit members
  | .vlen super => super.Fits
  | _ => True

/-- The lengths in the members of a compound type have 32 bits. -/
def Datatype.MembersFit : List (Bytes × Datatype) → Prop
  | [] => True
  | (name, t) :: members => name.length < 2 ^ 32 ∧ t.Fits ∧ Datatype.MembersFit members

end

/-- All headers of the calls have a form in the format. -/
def TokensFit (ts : List (Token Bytes)) : Prop := ∀ t ∈ ts, t.head.Fits

theorem TokensFit.append {ts us : List (Token Bytes)} (hts : TokensFit ts) (hus : TokensFit us) :
    TokensFit (ts ++ us) := fun t ht =>
  (List.mem_append.mp ht).elim (hts t) (hus t)

theorem TokensFit.cons {t : Token Bytes} {ts : List (Token Bytes)} (ht : t.head.Fits)
    (hts : TokensFit ts) : TokensFit (t :: ts) := fun u hu => by
  rcases List.mem_cons.mp hu with rfl | hu
  · exact ht
  · exact hts u hu

theorem TokensFit.nil : TokensFit [] := fun t ht => by cases ht

theorem bmod_fits (n : Int) : (Head.int (Int.bmod n (2 ^ 64))).Fits := by
  have hle := Int.le_bmod (x := n) (m := 2 ^ 64) (by omega)
  have hlt := Int.bmod_lt (x := n) (m := 2 ^ 64) (by omega)
  exact ⟨by omega, by omega⟩

theorem toLongs_fit (dims : List UInt64) :
    TokensFit (dims.map fun d => .int (toLong d)) := by
  intro t ht
  obtain ⟨d, _, rfl⟩ := List.mem_map.mp ht
  exact bmod_fits d.toNat

theorem packShape_fits {dims : List UInt64} (h : dims.length < 2 ^ 32) :
    TokensFit (packShape dims) := by
  refine .cons (by decide) (.cons h fun t ht => ?_)
  obtain ⟨d, _, rfl⟩ := List.mem_map.mp ht
  have hd := d.toNat_lt
  exact ⟨by omega, by omega⟩

theorem numberInfo_length {size : UInt64} {order : Order} {kind descr : Bytes}
    (h : numberInfo size order kind = some descr) : descr.length ≤ 9 := by
  obtain ⟨endian, _, rfl⟩ := Option.map_eq_some_iff.mp h
  exact List.length_take_le _ _

theorem numpyTypeInfo_length {t : Datatype} {descr : Bytes} (h : numpyTypeInfo t = some descr) :
    descr.length ≤ 9 := by
  cases t with
  | integer size order sign =>
    obtain ⟨kind, _, hdescr⟩ := Option.bind_eq_some_iff.mp h
    exact numberInfo_length hdescr
  | enum size order sign =>
    obtain ⟨kind, _, hdescr⟩ := Option.bind_eq_some_iff.mp h
    exact numberInfo_length hdescr
  | float size order => exact numberInfo_length h
  | string size variableStr =>
    rw [numpyTypeInfo] at h
    split at h
    · cases h
    · cases h
      exact List.length_take_le _ _
  | array dims super => cases h
  | compound members => cases h
  | vlen super => cases h
  | other size => cases h

/-- The name of a field has a form in the format. -/
def NameFits (fieldName : Option Bytes) : Prop := ∀ name, fieldName = some name →
    name.length < 2 ^ 32

theorem packScalar_fits {fieldName : Option Bytes} {t : Datatype} {ts : List (Token Bytes)}
    (hname : NameFits fieldName) (h : (numpyTypeInfo t).map (packScalar fieldName) = some ts) :
    TokensFit ts := by
  obtain ⟨descr, hdescr, rfl⟩ := Option.map_eq_some_iff.mp h
  have hlen := numpyTypeInfo_length hdescr
  have hfits : (Token.str descr).head.Fits := by
    show descr.length < 2 ^ 32
    omega
  cases fieldName with
  | none => exact .cons hfits .nil
  | some name => exact .cons (by decide) (.cons (hname name rfl) (.cons hfits .nil))

theorem packArrayHead_fits {fieldName : Option Bytes} (hname : NameFits fieldName) :
    TokensFit (packArrayHead fieldName) := by
  cases fieldName with
  | none => exact .cons (by decide) .nil
  | some name => exact .cons (by decide) (.cons (hname name rfl) .nil)

/-- The headers in the descriptor of a type fit. -/
theorem packNumpyType_fits {t : Datatype} {fieldName : Option Bytes} {ts : List (Token Bytes)}
    (h : packNumpyType t fieldName = some ts) (ht : t.Fits) (hname : NameFits fieldName) :
    TokensFit ts := by
  induction t using Datatype.induction generalizing fieldName ts with
  | hinteger size order sign => exact packScalar_fits hname h
  | henum size order sign => exact packScalar_fits hname h
  | hfloat size order => exact packScalar_fits hname h
  | hstring size variableStr =>
    rw [packNumpyType] at h
    split at h
    · cases h
      exact .cons (by decide) .nil
    · exact packScalar_fits hname h
  | harray dims super ih =>
    rw [packNumpyType] at h
    obtain ⟨element, helement, rfl⟩ := Option.map_eq_some_iff.mp h
    refine .append (.append (packArrayHead_fits hname) (ih helement ht.2 hname)) ?_
    exact .cons ht.1 (toLongs_fit dims)
  | hcompound members ih =>
    rw [packNumpyType] at h
    obtain ⟨fields, hfields, rfl⟩ := Option.map_eq_some_iff.mp h
    obtain ⟨hlen, hmembers⟩ := ht
    refine .cons hlen ?_
    clear h hlen
    induction members generalizing fields with
    | nil =>
      cases hfields
      exact .nil
    | cons m members ihm =>
      obtain ⟨name, t⟩ := m
      obtain ⟨hmember, ht, hmembers⟩ := hmembers
      rw [packMembers] at hfields
      split at hfields
      · cases hfields
      · rename_i field hfield
        obtain ⟨rest, hrest, rfl⟩ := Option.map_eq_some_iff.mp hfields
        refine .append (ih (name, t) List.mem_cons_self hfield ht fun n hn => ?_)
          (ihm (fun m hm => ih m (List.mem_cons_of_mem _ hm)) rest hrest hmembers)
        cases hn
        exact hmember
  | hvlen super ih => exact ih h ht fun name hnone => by cases hnone
  | hother size => cases h

theorem packNumpyKind_fits {t : Datatype} {ts : List (Token Bytes)}
    (h : packNumpyKind t = some ts) : TokensFit ts := by
  cases t <;> cases h <;> exact .cons (by decide) .nil

/-! ## 2. The header returns 0 -/

theorem nrBinsNeeded_of_le {maxSize nrBytes : Nat} (hmax : 0 < maxSize)
    (hsum : nrBytes + maxSize ≤ 2 ^ 64) :
    nrBinsNeeded maxSize nrBytes = .ok ((nrBytes + maxSize - 1) / maxSize) := by
  have hmod : (nrBytes + maxSize - 1) % 2 ^ 64 = nrBytes + maxSize - 1 :=
    Nat.mod_eq_of_lt (by omega)
  have hle : (nrBytes + maxSize - 1) / maxSize * maxSize ≤ nrBytes + maxSize - 1 :=
    Nat.div_mul_le_self _ _
  have hge : nrBytes + maxSize - 1 < (nrBytes + maxSize - 1) / maxSize * maxSize + maxSize :=
    Nat.lt_div_mul_add hmax
  have hprod : (nrBytes + maxSize - 1) / maxSize * maxSize % 2 ^ 64 =
      (nrBytes + maxSize - 1) / maxSize * maxSize := Nat.mod_eq_of_lt (by omega)
  rw [nrBinsNeeded, if_neg (not_not.mpr hmax)]
  dsimp only
  rw [hmod, hprod, if_neg (by omega)]

theorem packNumpyKind_of_type {t : Datatype} {fieldName : Option Bytes} {type : List (Token Bytes)}
    (h : packNumpyType t fieldName = some type) : ∃ kind, packNumpyKind t = some kind := by
  cases t with
  | other size => cases h
  | _ => exact ⟨_, rfl⟩

/-- The header of data of a fixed size returns 0 when the type has a descriptor, and all its
headers fit when the lengths do. -/
theorem packContentsHeader_of_le (pci : PackContentsInfo) (maxSize nrBytes : Nat) {t : Datatype}
    (dims : List UInt64) (ht : detectVlenTypes t = 0) (htype : (packNumpyType t none).isSome)
    (hmax : 0 < maxSize) (hsum : nrBytes + maxSize ≤ 2 ^ 64) :
    ∃ info header, packContentsHeader pci maxSize t dims nrBytes = .ok (info, header) ∧
      (t.Fits → dims.length < 2 ^ 32 → (nrBytes + maxSize - 1) / maxSize < 2 ^ 32 →
        TokensFit header) := by
  obtain ⟨type, htype⟩ := Option.isSome_iff_exists.mp htype
  obtain ⟨kind, hkind⟩ := packNumpyKind_of_type htype
  simp only [packContentsHeader, ht, Int.lt_irrefl, if_false, if_true,
    nrBinsNeeded_of_le hmax hsum, htype, hkind]
  refine ⟨_, _, rfl, fun hfits hdims hbins => ?_⟩
  have hstart : TokensFit [.mapHeader 6, .str (ascii "nd"), .bool true, .str (ascii "type")] :=
    .cons (by decide) (.cons (by decide) (.cons trivial (.cons (by decide) .nil)))
  have hend : TokensFit [.str (ascii "nbytes"), .int (Int.bmod nrBytes (2 ^ 64)),
      .str (ascii "data"), .arrayHeader ((nrBytes + maxSize - 1) / maxSize)] :=
    .cons (by decide) (.cons (bmod_fits _) (.cons (by decide) (.cons hbins .nil)))
  have htypeFits := packNumpyType_fits htype hfits fun name hnone => by cases hnone
  exact ((((hstart.append htypeFits).append (.cons (by decide) .nil)).append
    (packNumpyKind_fits hkind)).append (packShape_fits hdims)).append hend

/-! ## 3. All calls together -/

/-- The bytes of all calls. -/
def payloadOf (calls : List (Nat × Bytes)) : Bytes := (calls.map Prod.snd).flatten

theorem map_getD_range' (piece : Bytes) :
    (List.range' 0 piece.length).map (fun i => piece.getD i 0) = piece := by
  refine List.ext_getElem (by rw [List.length_map, List.length_range']) fun i hi hi' => ?_
  rw [List.getElem_map, List.getElem_range', Nat.zero_add, Nat.one_mul,
    List.getD_eq_getElem?_getD, List.getElem?_eq_getElem hi', Option.getD_some]

/-- The calls pack all the bytes. -/
theorem packCalls_packed (pk : Packer) (t : Datatype) (calls : List (Nat × Bytes))
    {pci : PackContentsInfo} (hvlen : pci.hasVlen = 0) (hmax : 0 < pci.maxSize)
    (hbins : 0 < (payloadOf calls).length → 0 < pci.nrBins)
    (hle : (payloadOf calls).length ≤ pci.bytesLeft) :
    ∃ pci' out, packCalls pk t calls pci = .ok (pci', out) ∧
      BinsPacked pk pci pci' (payloadOf calls) out := by
  have hread : bytesRead
      (calls.map fun call => (call.1, .bytes fun i => call.2.getD i 0, call.2.length)) =
        payloadOf calls := by
    rw [bytesRead, payloadOf, List.flatMap_map, ← List.flatMap_def]
    exact congrArg (calls.flatMap ·) (funext fun call => map_getD_range' call.2)
  rw [← hread] at hbins hle ⊢
  refine packBodyCalls_packed pk t hvlen hmax hbins hle fun call hcall => ?_
  obtain ⟨_, _, rfl⟩ := List.mem_map.mp hcall
  exact .inr ⟨_, rfl⟩

theorem copyBins_bins {nbytes : Nat} {bins : List Bytes} {copied : Bytes}
    (h : copied.length + bins.flatten.length = nbytes) :
    copyBins nbytes (bins.map .bin) copied = some (copied ++ bins.flatten) := by
  induction bins generalizing copied with
  | nil =>
    rw [List.flatten_nil, List.length_nil, Nat.add_zero] at h
    rw [List.map_nil, copyBins, if_pos h, List.flatten_nil, List.append_nil]
  | cons bin bins ih =>
    rw [List.flatten_cons, List.length_append] at h
    rw [List.map_cons, copyBins, if_pos (by omega), ih, List.append_assoc, List.flatten_cons]
    rw [List.length_append]
    omega

/-- `decode_ndarray` gives back the data. -/
theorem decodeNdarrayData_pieces {type kind : Value Bytes} {dims : List UInt64} {maxSize : Nat}
    {payload : Bytes} (hmax : 0 < maxSize) (hlen : payload.length < 2 ^ 63) :
    decodeNdarrayData (ndarrayValue type kind dims payload.length (pieces maxSize payload)) =
      some payload := by
  have hflatten := (pieces_cut hmax payload).flatten
  have hbmod : Int.bmod payload.length (2 ^ 64) = payload.length :=
    Int.bmod_eq_of_le_mul_two (by omega) (by omega)
  rw [ndarrayValue, decodeNdarrayData, hbmod, if_pos (by omega), Int.toNat_natCast,
    copyBins_bins (by rw [hflatten]; exact Nat.zero_add _), hflatten, List.nil_append]

/-- **Array bodies round-trip** for every limit on the size of a binary and every way to cut the
data into calls.  The header returns 0; whatever the calls with all the data are, they return 0,
and what is packed is the value with the data cut every `maxSize` bytes, from which
`decode_ndarray` takes the data. -/
theorem packCalls_roundTrip (pk : Packer) (pci : PackContentsInfo) {maxSize nrBytes : Nat}
    {t : Datatype} {dims : List UInt64} (ht : detectVlenTypes t = 0)
    (htype : (packNumpyType t none).isSome) (hmax : 1 ≤ maxSize)
    (hsum : nrBytes + maxSize < 2 ^ 64) (hfits : t.Fits) (hdims : dims.length < 2 ^ 32)
    (hbin : min maxSize nrBytes < 2 ^ 32) (hbins : (nrBytes + maxSize - 1) / maxSize < 2 ^ 32) :
    ∃ (info : PackContentsInfo) (header : List (Token Bytes)) (type kind : Value Bytes),
      packContentsHeader pci maxSize t dims nrBytes = .ok (info, header) ∧
      ∀ calls : List (Nat × Bytes), (payloadOf calls).length = nrBytes →
        ∃ (info' : PackContentsInfo) (out : Bytes),
          packCalls pk t calls info = .ok (info', out) ∧
          (let bins := pieces maxSize (payloadOf calls)
           let value := ndarrayValue type kind dims nrBytes bins
           pk.write header ++ out = pk.write value.tokens ∧ value.Fits ∧
            info.nrBins = bins.length ∧ Cut maxSize (payloadOf calls) bins ∧
            (nrBytes < 2 ^ 63 → decodeNdarrayData value = some (payloadOf calls))) := by
  obtain ⟨info, header, hheader, hheaderFits⟩ :=
    packContentsHeader_of_le pci maxSize nrBytes dims ht htype hmax (Nat.le_of_lt hsum)
  obtain ⟨type, _, hsize, hvlen, hleft, hroom, _, hpos, hneeded, hvalue⟩ :=
    packContentsHeader_fixed hheader ht
  refine ⟨info, header, type, kindValue t, hheader, fun calls hlen => ?_⟩
  obtain ⟨info', out, hcalls, hpacked⟩ := packCalls_packed pk t calls
    hvlen (by omega) (by rw [hlen]; exact hpos) (by omega)
  have hcut := pieces_cut (n := maxSize) hmax (payloadOf calls)
  have hcount : info.nrBins = (pieces maxSize (payloadOf calls)).length := by
    rw [hcut.count, hlen, nrBinsNeeded_eq hneeded (by omega) (by omega)]
  have hdone : info'.bytesLeft = 0 := by
    have := hpacked.bytesLeft_eq
    omega
  have hout := hpacked.stream [] hdone.symm
  rw [hsize, hroom, List.append_nil, binStream_nil, binStream_none, List.append_nil] at hout
  refine ⟨info', out, hcalls, ?_, ?_, hcount, hcut, fun hlt => ?_⟩
  · rw [← hout, ← write_bins, ← Packer.write_append, hvalue _ hcount.symm]
  · rw [Value.Fits, ← hvalue _ hcount.symm]
    refine (hheaderFits hfits hdims hbins).append fun u hu => ?_
    obtain ⟨b, hb, rfl⟩ := List.mem_map.mp hu
    have hle := hcut.le b hb
    have hle' := (List.sublist_flatten_of_mem hb).length_le
    rw [hcut.flatten, hlen] at hle'
    show b.length < 2 ^ 32
    omega
  · subst hlen
    exact decodeNdarrayData_pieces hmax hlt

/-- Five bytes in binaries of two, packed in two calls. -/
theorem packCalls_roundTrip_bytes :
    let t : Datatype := .integer 1 .le .none
    (packNumpyType t none).isSome ∧
      ∃ (info : PackContentsInfo) (header : List (Token Bytes)) (type kind : Value Bytes),
        packContentsHeader default 2 t [5] 5 = .ok (info, header) ∧
        ∀ calls : List (Nat × Bytes), (payloadOf calls).length = 5 →
          ∃ (info' : PackContentsInfo) (out : Bytes),
            packCalls msgpackC t calls info = .ok (info', out) ∧
            (let bins := pieces 2 (payloadOf calls)
             let value := ndarrayValue type kind [5] 5 bins
             msgpackC.write header ++ out = msgpackC.write value.tokens ∧ value.Fits ∧
              info.nrBins = bins.length ∧ Cut 2 (payloadOf calls) bins ∧
              (5 < 2 ^ 63 → decodeNdarrayData value = some (payloadOf calls))) :=
  ⟨by decide, packCalls_roundTrip msgpackC default (t := .integer 1 .le .none) (by decide)
    (by decide) (by decide) (by decide) trivial (by decide) (by decide) (by decide)⟩

/-! ## 4. A binary of `2 ^ 32` bytes -/

/-- A limit of `2 ^ 32` for as many bytes: one binary is packed, and its header says that it is
empty. -/
theorem readHead_longBin {payload : Bytes} (hlen : payload.length = 2 ^ 32) :
    ∃ (info : PackContentsInfo) (header : List (Token Bytes)) (info' : PackContentsInfo)
      (out : Bytes),
      packContentsHeader default (2 ^ 32) (.integer 1 .le .none) [2 ^ 32] (2 ^ 32) =
        .ok (info, header) ∧
      packCalls msgpackC (.integer 1 .le .none) [(2 ^ 32, payload)] info = .ok (info', out) ∧
      readHead out = some (.bin 0, payload) := by
  obtain ⟨info, header, hheader, _⟩ := packContentsHeader_of_le default (2 ^ 32) (2 ^ 32)
    (t := .integer 1 .le .none) [2 ^ 32] (by decide) (by decide) (by omega) (by omega)
  obtain ⟨_, _, hsize, hvlen, hleft, hroom, _, hpos, _, _⟩ :=
    packContentsHeader_fixed hheader (by decide)
  have hpayload : payloadOf [(2 ^ 32, payload)] = payload := List.append_nil payload
  obtain ⟨info', out, hcalls, hpacked⟩ := packCalls_packed msgpackC
    (.integer 1 .le .none) [(2 ^ 32, payload)] hvlen (by omega)
    (fun _ => hpos (by omega)) (Nat.le_of_eq (by rw [hpayload, hlen, hleft]))
  rw [hpayload] at hpacked
  have hdone : info'.bytesLeft = 0 := by
    have := hpacked.bytesLeft_eq
    omega
  have hout := hpacked.stream [] hdone.symm
  rw [hsize, hroom, List.append_nil, binStream_none, List.append_nil,
    binStream_zero (by omega) (List.ne_nil_of_length_pos (by omega)), hlen, Nat.min_self,
    binStream, List.take_of_length_le (by omega), List.drop_of_length_le (by omega),
    pieces_nil] at hout
  refine ⟨info, header, info', out, hheader, hcalls, ?_⟩
  -- the length is cut off to 32 bits
  have hhead : msgpackC.head (.bin (2 ^ 32)) = 0xc6 :: be 4 (2 ^ 32) := rfl
  have hfield : readHead (0xc6 :: be 4 (2 ^ 32) ++ payload) =
      (readField 4 (be 4 (2 ^ 32) ++ payload)).map fun x => (.bin x.1, x.2) := rfl
  rw [← hout, hhead, binBytes, List.flatMap_nil, List.append_nil, hfield, readField_be]
  rfl

/-- With `2 ^ 32` bytes. -/
theorem longBin_empty :
    ∃ (info : PackContentsInfo) (header : List (Token Bytes)) (info' : PackContentsInfo)
      (out : Bytes),
      packContentsHeader default (2 ^ 32) (.integer 1 .le .none) [2 ^ 32] (2 ^ 32) =
        .ok (info, header) ∧
      packCalls msgpackC (.integer 1 .le .none) [(2 ^ 32, List.replicate (2 ^ 32) 0)] info =
        .ok (info', out) ∧
      readHead out = some (.bin 0, List.replicate (2 ^ 32) 0) :=
  readHead_longBin List.length_replicate

end HdfStream.Pack
