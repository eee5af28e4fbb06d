/-
# The attributes of an object

The model of `pack_attributes.c`.  For each attribute a buffer is allocated, `H5Aread` stores one
element for each point of the dataspace, and the elements are packed.  How many there are is
computed again, from the rank and the dimensions: that is the number of points unless the
dataspace is null, which has no points but counts as one element.

The contents of the buffer before `H5Aread` are a parameter, so that two runs can differ in it.
`native_type.c` pads strings "to avoid serializing uninitialized memory"; with a null dataspace
just that is packed.
-/
import HdfStream.Pack.Variable
import HdfStream.Slices.Model

namespace HdfStream.Pack

open Msgpack Pieces

/-! ## 1. The model -/

/-- A dataspace. -/
inductive Dataspace where
  | null
  | scalar
  | simple (dims : List UInt64)

namespace Dataspace

/-- `H5Sget_simple_extent_dims`: the rank is 0 for a null and a scalar dataspace. -/
def dims : Dataspace → List UInt64
  | simple dims => dims
  | _ => []

/-- The number of points. -/
def points : Dataspace → Nat
  | null => 0
  | scalar => 1
  | simple dims => numberOf dims

end Dataspace

/-- An attribute, with what `H5Aread` stores. -/
structure Attribute where
  name : Bytes
  space : Dataspace
  fileType : Datatype
  stored : Buffer

/-- **The buffer after `H5Aread`**: the stored elements, and what was there before. -/
def readBuffer (memType : Datatype) (stored initial : Buffer) (points : Nat) : Buffer :=
  match memType with
  | .string size variableStr =>
    if variableStr then .strings fun i => if i < points then stored.str i else initial.str i
    else .bytes fun i => if i < points * size.toNat then stored.mem i else initial.mem i
  | .vlen _ =>
    .sequences (fun i => if i < points then stored.len i else initial.len i)
      fun i => if i < points then stored.p i else initial.p i
  | memType =>
    .bytes fun i => if i < points * memType.size.toNat then stored.mem i else initial.mem i

/-- The limit for the size of a binary, and for the number of elements of variable length. -/
def maxBinSize : Nat := 2 ^ 32 - 1

/-- `pack_attributes` reads the attribute into memory, with this type. -/
def Attribute.Reads (native : Datatype → Option Datatype) (attr : Attribute)
    (memType : Datatype) : Prop :=
  attr.space.dims.length ≤ Slices.maxDims ∧
    makePackedNativeType native attr.fileType = some memType ∧ 0 ≤ detectVlenTypes memType

/-- The number of elements. -/
def Attribute.count (attr : Attribute) : UInt64 := nrElements attr.space.dims

/-- The size of the buffer. -/
def Attribute.nrBytes (attr : Attribute) (memType : Datatype) : UInt64 :=
  attr.count * memType.size

section

variable (pk : Packer) (native : Datatype → Option Datatype)

/-- One pass of the loop of `pack_attributes`; the buffer is allocated with `initial` in it. -/
def packAttribute (initial : Buffer) (attr : Attribute) : Except Failure Bytes :=
  if Slices.maxDims < attr.space.dims.length then .error .error
  else
    match makePackedNativeType native attr.fileType with
    | none => .error .error
    | some memType =>
      if detectVlenTypes memType < 0 then .error .error
      else
        let buffer := readBuffer memType attr.stored initial attr.space.points
        (packArray pk default maxBinSize memType attr.space.dims (attr.nrBytes memType).toNat
          [{ count := attr.count.toNat, buffer := buffer }]).map fun out =>
            pk.token (.str attr.name) ++ out

/-- The loop of `pack_attributes`. -/
def packAttributesLoop (initial : Nat → Buffer) (attrNr : Nat) :
    List Attribute → Except Failure Bytes
  | [] => .ok []
  | attr :: attrs =>
    match packAttribute pk native (initial attrNr) attr with
    | .error e => .error e
    | .ok out => (packAttributesLoop initial (attrNr + 1) attrs).map (out ++ ·)

/-- The number of attributes, as an `int`. -/
def nrAttrs (attrs : List Attribute) : Int := Int.bmod attrs.length (2 ^ 32)

/-- The attributes the loop comes to. -/
def taken (attrs : List Attribute) : List Attribute := attrs.take (nrAttrs attrs).toNat

/-- `pack_attributes`. -/
def packAttributes (initial : Nat → Buffer) (attrs : List Attribute) : Except Failure Bytes :=
  (packAttributesLoop pk native initial 0 (taken attrs)).map fun out =>
    pk.token (.mapHeader (nrAttrs attrs % 2 ^ 64).toNat) ++ out

/-- **No memory is packed that was not read.**  Every attribute that is read is packed with as many
elements and bytes as were stored; and whatever the buffers held before, the bytes are the same,
also the bytes for the attributes before a failure. -/
structure Serialized (attrs : List Attribute) : Prop where
  count : ∀ attr ∈ taken attrs, ∀ memType, attr.Reads native memType →
    attr.count.toNat = attr.space.points ∧
      (attr.nrBytes memType).toNat = attr.space.points * memType.size.toNat
  bytes : ∀ initial initial',
    packAttributes pk native initial attrs = packAttributes pk native initial' attrs
  bytesBefore : ∀ n initial initial',
    packAttributesLoop pk native initial 0 ((taken attrs).take n) =
      packAttributesLoop pk native initial' 0 ((taken attrs).take n)

end

/-! ## 2. What a body depends on -/

variable {pk : Packer} {native : Datatype → Option Datatype}

theorem packBins_congr {mem mem' : Nat → UInt8} {pci : PackContentsInfo} {offset lenLeft : Nat}
    {out : Bytes} (h : ∀ i, i < offset + lenLeft → mem i = mem' i) :
    packBins pk mem pci offset lenLeft out = packBins pk mem' pci offset lenLeft out := by
  induction hlen : lenLeft using Nat.strongRecOn generalizing pci offset lenLeft out with
  | _ n ih =>
    subst hlen
    rw [packBins, packBins]
    by_cases hzero : lenLeft = 0
    · rw [dif_pos hzero, dif_pos hzero]
    · rw [dif_neg hzero, dif_neg hzero]
      dsimp only
      split
      · rfl
      · generalize hn : (if lenLeft < (nextBin pci).bytesLeftInBin then lenLeft
          else (nextBin pci).bytesLeftInBin) = n
        have hle : n ≤ lenLeft := by
          rw [← hn]
          split <;> omega
        by_cases hwrite : n = 0
        · rw [dif_pos hwrite, dif_pos hwrite]
        · have hread : (List.range' offset n).map mem = (List.range' offset n).map mem' := by
            refine List.map_congr_left fun i hi => h i ?_
            have := List.mem_range'_1.mp hi
            omega
          rw [dif_neg hwrite, dif_neg hwrite, hread]
          exact ih (lenLeft - n) (by omega) (fun i hi => h i (by omega)) rfl

theorem packStrings_congr {str str' : Nat → Option Bytes} {start count : Nat}
    (h : ∀ i, i < start + count → str i = str' i) :
    packStrings pk str start count = packStrings pk str' start count := by
  induction count generalizing start with
  | zero => rfl
  | succ count ih =>
    rw [packStrings, packStrings, h start (by omega), ih fun i hi => h i (by omega)]

theorem packSequences_congr {packElement packElement' : Nat → Except Failure Bytes}
    {start count : Nat} (h : ∀ i, i < start + count → packElement i = packElement' i) :
    packSequences packElement start count = packSequences packElement' start count := by
  induction count generalizing start with
  | zero => rfl
  | succ count ih =>
    rw [packSequences, packSequences, h start (by omega), ih fun i hi => h i (by omega)]

/-- A body of bytes in memory. -/
theorem packContentsBody_congr {pci : PackContentsInfo} {t : Datatype} {count n : Nat}
    {mem mem' : Nat → UInt8} (h : ∀ i < n, mem i = mem' i) :
    packContentsBody pk pci t count (.bytes mem) n =
      packContentsBody pk pci t count (.bytes mem') n := by
  rw [packContentsBody.eq_def, packContentsBody.eq_def]
  split
  · cases t with
    | string size variableStr => rfl
    | vlen super => rfl
    | _ => rfl
  · split
    · exact packBins_congr fun i hi => h i (by omega)
    · rfl

/-- **A body depends on the elements that were read** and on nothing else. -/
theorem packContentsBody_initial {pci : PackContentsInfo} {memType : Datatype}
    {stored : Buffer} {points count n : Nat} (hcount : count ≤ points)
    (hbytes : n ≤ points * memType.size.toNat) (initial initial' : Buffer) :
    packContentsBody pk pci memType count (readBuffer memType stored initial points) n =
      packContentsBody pk pci memType count (readBuffer memType stored initial' points) n := by
  cases memType with
  | string size variableStr =>
    rw [readBuffer, readBuffer]
    by_cases hvar : variableStr = true
    · rw [if_pos hvar, if_pos hvar, packContentsBody.eq_def, packContentsBody.eq_def]
      have hread : ∀ i, i < 0 + count → (if i < points then stored.str i else initial.str i) =
          if i < points then stored.str i else initial'.str i := by
        intro i hi
        rw [if_pos (by omega), if_pos (by omega)]
      split
      · dsimp only
        rw [packStrings_congr hread]
      · rfl
    · rw [if_neg hvar, if_neg hvar]
      rw [Datatype.size, if_neg hvar] at hbytes
      exact packContentsBody_congr fun i hi => by rw [if_pos (by omega), if_pos (by omega)]
  | vlen super =>
    rw [readBuffer, readBuffer, packContentsBody.eq_def, packContentsBody.eq_def]
    split
    · dsimp only
      refine congrArg _ (packSequences_congr fun i hi => ?_)
      rw [if_pos (by omega), if_pos (by omega), if_pos (by omega), if_pos (by omega)]
    · rfl
  | _ => exact packContentsBody_congr fun i hi => by rw [if_pos (by omega), if_pos (by omega)]

theorem packAttribute_initial {attr : Attribute}
    (h : ∀ memType, attr.Reads native memType → attr.count.toNat = attr.space.points ∧
      (attr.nrBytes memType).toNat = attr.space.points * memType.size.toNat)
    (initial initial' : Buffer) :
    packAttribute pk native initial attr = packAttribute pk native initial' attr := by
  rw [packAttribute, packAttribute]
  by_cases hrank : Slices.maxDims < attr.space.dims.length
  · rw [if_pos hrank, if_pos hrank]
  rw [if_neg hrank, if_neg hrank]
  rcases hmem : makePackedNativeType native attr.fileType with _ | memType
  · rfl
  dsimp only
  by_cases hdetect : detectVlenTypes memType < 0
  · rw [if_pos hdetect, if_pos hdetect]
  obtain ⟨hcount, hbytes⟩ := h memType ⟨by omega, hmem, by omega⟩
  have hlen : attr.count.toNat * memType.size.toNat % 2 ^ 64 =
      attr.space.points * memType.size.toNat := by
    rw [← hbytes, Attribute.nrBytes, UInt64.toNat_mul]
  rw [if_neg hdetect, if_neg hdetect, packArray, packArray]
  rcases packContentsHeader default maxBinSize memType attr.space.dims
    (attr.nrBytes memType).toNat with e | ⟨pci, header⟩
  · rfl
  · dsimp only
    rw [packBodies_cons, packBodies_cons, hlen,
      packContentsBody_initial (Nat.le_of_eq hcount) (Nat.le_refl _) initial initial']

theorem packAttributesLoop_initial {attrs : List Attribute}
    (h : ∀ attr ∈ attrs, ∀ memType, attr.Reads native memType →
      attr.count.toNat = attr.space.points ∧
        (attr.nrBytes memType).toNat = attr.space.points * memType.size.toNat)
    (initial initial' : Nat → Buffer) (attrNr : Nat) :
    packAttributesLoop pk native initial attrNr attrs =
      packAttributesLoop pk native initial' attrNr attrs := by
  induction attrs generalizing attrNr with
  | nil => rfl
  | cons attr attrs ih =>
    rw [packAttributesLoop, packAttributesLoop,
      packAttribute_initial (h attr List.mem_cons_self) (initial attrNr) (initial' attrNr),
      ih (fun a ha => h a (List.mem_cons_of_mem _ ha)) (attrNr + 1)]

/-! ## 3. The number of elements -/

theorem Attribute.count_toNat (attr : Attribute) :
    attr.count.toNat = numberOf attr.space.dims % 2 ^ 64 :=
  nrElements_toNat attr.space.dims

/-- A dataspace that is not null has as many points as the product of its dimensions. -/
theorem Dataspace.points_eq {space : Dataspace} (h : space ≠ .null) :
    space.points = numberOf space.dims := by
  cases space with
  | null => exact absurd rfl h
  | scalar => rfl
  | simple dims => rfl

/-- The elements and bytes are those that were stored, unless the dataspace is null or the product
wraps. -/
theorem count_eq_points_iff (attr : Attribute) (memType : Datatype) :
    (attr.count.toNat = attr.space.points ∧
        (attr.nrBytes memType).toNat = attr.space.points * memType.size.toNat) ↔
      attr.space ≠ .null ∧ attr.space.points < 2 ^ 64 ∧
        attr.space.points * memType.size.toNat < 2 ^ 64 := by
  constructor
  · rintro ⟨hcount, hbytes⟩
    refine ⟨fun hnull => ?_, ?_, ?_⟩
    · rw [Attribute.count, hnull] at hcount
      exact absurd hcount (by decide)
    · rw [← hcount]
      exact attr.count.toNat_lt
    · rw [← hbytes]
      exact (attr.nrBytes memType).toNat_lt
  · rintro ⟨hnull, hpoints, hbytes⟩
    have hcount : attr.count.toNat = attr.space.points := by
      rw [Attribute.count_toNat, ← Dataspace.points_eq hnull, Nat.mod_eq_of_lt hpoints]
    refine ⟨hcount, ?_⟩
    rw [Attribute.nrBytes, UInt64.toNat_mul, hcount, Nat.mod_eq_of_lt hbytes]

/-- An attribute of one byte, in a null dataspace. -/
def nullByte : Attribute :=
  { name := ascii "a", space := .null, fileType := .integer 1 .le .none,
    stored := .bytes fun _ => 0 }

end HdfStream.Pack
