/-
# The value of the attributes

`pack_attributes` writes headers before it knows whether the rest can be packed.  A call that
returns 0 has nevertheless packed one value, a map with the elements that are stored.  Otherwise it
returns -1, or it does not return: it reads a null pointer.

`Attribute.Sound` says of an attribute, in terms of what is stored, that the call returns, and
`AttributesSound` of a list, along the order of the loop: nothing is asked of what comes after a
failure.  The condition is exact unless pointers are read that nobody wrote (`Attribute.Regular`).
-/
import HdfStream.Pack.Stored
import HdfStream.Pack.Traps

namespace HdfStream.Pack

open Msgpack Outcome Pieces

variable {D : Prop} {native : Datatype → Option Datatype}

/-! ## 1. Attributes -/

theorem maxBinSize_lt : maxBinSize < 2 ^ 64 := by decide

theorem maxBinSize_pos : 0 < maxBinSize := by decide

/-- **The entry of an attribute**: its name, and the encoding of the stored elements.  A null
dataspace has none of them but counts as one element, whatever the memory held. -/
def IsAttribute (native : Datatype → Option Datatype) (attr : Attribute)
    (entry : Value Bytes × Value Bytes) : Prop :=
  entry.1 = .str attr.name ∧ attr.space.dims.length ≤ Slices.maxDims ∧
    ∃ memType buffer, makePackedNativeType native attr.fileType = some memType ∧
      (attr.space ≠ .null → buffer = attr.stored) ∧
      arrayValue maxBinSize memType (elements maxBinSize memType) attr.space.dims
        [{ count := numberOf attr.space.dims, buffer := buffer }] = some entry.2

/-- The map of the attributes. -/
def IsAttributes (native : Datatype → Option Datatype) (attrs : List Attribute)
    (v : Value Bytes) : Prop :=
  ∃ entries, List.Forall₂ (IsAttribute native) attrs entries ∧ v = .map entries

/-- What HDF5 promises: the elements of an attribute are in memory, all of them. -/
structure Attribute.InMemory (native : Datatype → Option Datatype) (attr : Attribute) : Prop where
  count : numberOf attr.space.dims < 2 ^ 64
  bytes : ∀ memType, attr.Reads native memType →
    numberOf attr.space.dims * memType.size.toNat + maxBinSize ≤ 2 ^ 64
  stored : ∀ memType, attr.Reads native memType → memType.pointers = true →
    attr.space ≠ .null → attr.stored.Holds maxBinSize memType (numberOf attr.space.dims)

/-- **Packing the attribute returns**: the pointers that are read have been stored, and none of
them is null. -/
def Attribute.Sound (native : Datatype → Option Datatype) (attr : Attribute) : Prop :=
  ∀ memType, attr.Reads native memType → memType.pointers = true →
    numberOf attr.space.dims ≤ maxBinSize →
      attr.space ≠ .null ∧ attr.stored.NonNull memType (numberOf attr.space.dims)

/-- No pointer is read that nobody wrote, and sequences have lengths of 32 bits. -/
def Attribute.Regular (native : Datatype → Option Datatype) (attr : Attribute) : Prop :=
  ∀ memType, attr.Reads native memType → memType.pointers = true →
    attr.space ≠ .null ∧ attr.stored.Short maxBinSize memType (numberOf attr.space.dims)

/-- The calls for the entries of a map. -/
def entriesTokens (entries : List (Value Bytes × Value Bytes)) : List (Token Bytes) :=
  entries.flatMap fun e => e.1.tokens ++ e.2.tokens

/-- The entry with a string as key. -/
theorem entry_write (pk : Packer) (name : Bytes) (v : Value Bytes) :
    pk.token (.str name) ++ pk.write v.tokens = pk.write (entriesTokens [(.str name, v)]) := by
  rw [entriesTokens, List.flatMap_cons, List.flatMap_nil, List.append_nil, Value.tokens_str,
    List.singleton_append, Packer.write_cons]

theorem write_entries (pk : Packer) (entries : List (Value Bytes × Value Bytes)) :
    (entries.flatMap fun entry => pk.write (entriesTokens [entry])) =
      pk.write (entriesTokens entries) := by
  induction entries with
  | nil => rfl
  | cons entry entries ih =>
    rw [List.flatMap_cons, ih, ← Packer.write_append, entriesTokens, entriesTokens, entriesTokens,
      List.flatMap_cons, List.flatMap_cons, List.flatMap_nil, List.append_nil]

section

variable {attr : Attribute} {memType : Datatype} {initial : Buffer}

/-- The buffer with an attribute, after `H5Aread`. -/
def attributeBuffer (attr : Attribute) (memType : Datatype) (initial : Buffer) : Buffer :=
  readBuffer memType attr.stored initial attr.space.points

theorem attributeBuffer_same (h : attr.space ≠ .null) {i : Nat}
    (hi : i < numberOf attr.space.dims) :
    SameElement memType (attributeBuffer attr memType initial) i attr.stored i :=
  same_readBuffer _ initial (by rw [Dataspace.points_eq h]; exact hi)

theorem attributeBuffer_holds (hreads : attr.Reads native memType) (hmemory : attr.InMemory native)
    (hspace : memType.pointers = true → attr.space ≠ .null) :
    (attributeBuffer attr memType initial).Holds maxBinSize memType
      (numberOf attr.space.dims) := by
  refine readBuffer_holds fun i hi => ?_
  by_cases hpointers : memType.pointers = true
  · have hnull := hspace hpointers
    exact (attributeBuffer_same hnull hi).holdsAt.mpr
      ((hmemory.stored memType hreads hpointers hnull).at i hi)
  · exact holdsAt_of_pointers (Bool.eq_false_iff.mpr hpointers) _ i

theorem attributeBuffer_nonNull (h : attr.space ≠ .null) :
    (attributeBuffer attr memType initial).NonNull memType (numberOf attr.space.dims) ↔
      attr.stored.NonNull memType (numberOf attr.space.dims) := by
  rw [nonNull_iff, nonNull_iff]
  exact forall₂_congr fun i hi => (attributeBuffer_same h hi).nonNullAt

theorem attributeBuffer_short (h : attr.space ≠ .null) :
    (attributeBuffer attr memType initial).Short maxBinSize memType (numberOf attr.space.dims) ↔
      attr.stored.Short maxBinSize memType (numberOf attr.space.dims) := by
  rw [short_iff, short_iff]
  exact forall₂_congr fun i hi => (attributeBuffer_same h hi).shortAt

/-- The call for the elements. -/
def attributeCall (attr : Attribute) (memType : Datatype) (initial : Buffer) : BodyCall :=
  { count := numberOf attr.space.dims, buffer := attributeBuffer attr memType initial }

/-- The encoding of what is in the buffer is that of an entry. -/
theorem isAttribute_iff (hreads : attr.Reads native memType)
    (hspace : memType.pointers = true → attr.space ≠ .null) (initial : Buffer) :
    (∀ v, arrayValue maxBinSize memType (elements maxBinSize memType) attr.space.dims
        [attributeCall attr memType initial] = some v →
          IsAttribute native attr (.str attr.name, v)) ∧
      (arrayValue maxBinSize memType (elements maxBinSize memType) attr.space.dims
        [attributeCall attr memType initial] = none →
          ∀ entry, ¬ IsAttribute native attr entry) := by
  have hstored : attr.space ≠ .null →
      arrayValue maxBinSize memType (elements maxBinSize memType) attr.space.dims
          [attributeCall attr memType initial] =
        arrayValue maxBinSize memType (elements maxBinSize memType) attr.space.dims
          [{ count := numberOf attr.space.dims, buffer := attr.stored }] := fun hnull =>
    arrayValue_readBuffer _ _ initial (Nat.le_of_eq (Dataspace.points_eq hnull).symm)
  constructor
  · intro v hv
    by_cases hnull : attr.space = .null
    · exact ⟨rfl, hreads.1, memType, _, hreads.2.1, fun h => absurd hnull h, hv⟩
    · rw [hstored hnull] at hv
      exact ⟨rfl, hreads.1, memType, _, hreads.2.1, fun _ => rfl, hv⟩
  · rintro hnone entry ⟨_, _, memType', buffer, hmem, hbuffer, hvalue⟩
    cases hreads.2.1.symm.trans hmem
    have hother : arrayValue maxBinSize memType (elements maxBinSize memType) attr.space.dims
        [{ count := numberOf attr.space.dims, buffer := buffer }] = none := by
      by_cases hnull : attr.space = .null
      · have hpointers : memType.pointers = false :=
          Bool.eq_false_iff.mpr fun hpointers => hspace hpointers hnull
        exact arrayValue_none_congr hpointers hnone
      · rw [hbuffer hnull, ← hstored hnull, hnone]
    rw [hother] at hvalue
    cases hvalue

theorem Attribute.Reads.eq {memType' : Datatype} (h : attr.Reads native memType)
    (h' : attr.Reads native memType') : memType' = memType :=
  Option.some.inj (h'.2.1.symm.trans h.2.1)

/-- The elements of an attribute. -/
theorem attributeArray_decides (pk : Packer) (hreads : attr.Reads native memType)
    (hmemory : attr.InMemory native) (hregular : D → attr.Regular native) (initial : Buffer) :
    Decides D .error (fun entry => pk.write (Prod.snd entry).tokens) (IsAttribute native attr)
      (attr.Sound native)
      (packArray pk default maxBinSize memType attr.space.dims
        (numberOf attr.space.dims * memType.size.toNat % 2 ^ 64)
        [attributeCall attr memType initial]) := by
  have hdims : (nrElements attr.space.dims).toNat = numberOf attr.space.dims := by
    rw [nrElements_toNat, Nat.mod_eq_of_lt hmemory.count]
  constructor
  · intro hsound
    by_cases hmany : memType.pointers = true ∧ maxBinSize < numberOf attr.space.dims
    · -- the header is refused
      obtain ⟨hpointers, hlt⟩ := hmany
      have hvar := Datatype.hasVariable_of_pointers hpointers
      rw [packArray_tooMany (detectVlenTypes_variable hreads.2.2 hvar) _ _ _
        (by rw [hdims]; exact hlt)]
      refine ⟨rfl, ?_⟩
      rintro entry ⟨_, _, memType', buffer, hmem, _, hvalue⟩
      cases hreads.2.1.symm.trans hmem
      rw [arrayValue_tooMany hvar _ (by rw [countOf_one]; exact hlt)] at hvalue
      cases hvalue
    · have hstored : memType.pointers = true →
          attr.space ≠ .null ∧ attr.stored.NonNull memType (numberOf attr.space.dims) :=
        fun hpointers => hsound memType hreads hpointers
          (Nat.not_lt.mp fun hlt => hmany ⟨hpointers, hlt⟩)
      have hnonNull : (attributeBuffer attr memType initial).NonNull memType
          (numberOf attr.space.dims) := by
        by_cases hpointers : memType.pointers = true
        · exact (attributeBuffer_nonNull (hstored hpointers).1).mpr (hstored hpointers).2
        · exact (nonNull_iff _ _).mpr fun i _ =>
            nonNullAt_of_pointers (Bool.eq_false_iff.mpr hpointers) _ i
      have hspace := fun hpointers => (hstored hpointers).1
      have hcall := @packArray_call pk maxBinSize memType (bodySpec maxBinSize_pos) maxBinSize_pos
        default attr.space.dims (attributeCall attr memType initial) hdims
        (fun _ => ⟨maxBinSize_lt, hmemory.bytes memType hreads⟩)
        (attributeBuffer_holds hreads hmemory hspace) hnonNull
      obtain ⟨hsome, hnone⟩ := isAttribute_iff hreads hspace initial
      rw [attributeCall] at hcall ⊢
      rw [hcall]
      rcases hvalue : arrayValue maxBinSize memType (elements maxBinSize memType) attr.space.dims
        [attributeCall attr memType initial] with _ | v
      · rw [attributeCall] at hvalue
        rw [hvalue]
        exact ⟨rfl, hnone hvalue⟩
      · rw [attributeCall] at hvalue
        rw [hvalue]
        exact ⟨_, hsome v hvalue, rfl⟩
  · intro hD hunsound
    obtain ⟨memType', hunsound⟩ := Classical.not_forall.mp hunsound
    obtain ⟨hreads', hunsound⟩ := Classical.not_imp.mp hunsound
    obtain ⟨hpointers, hunsound⟩ := Classical.not_imp.mp hunsound
    obtain ⟨hfew, hunsound⟩ := Classical.not_imp.mp hunsound
    cases hreads.eq hreads'
    obtain ⟨hnull, hshort⟩ := hregular hD memType hreads hpointers
    have hstored : ¬ attr.stored.NonNull memType (numberOf attr.space.dims) :=
      fun h => hunsound ⟨hnull, h⟩
    have ht := strings_of_null hstored
    refine ⟨.nullPointer, by decide, packArray_null (nullSpec maxBinSize_pos ht) ht maxBinSize_pos
      default _ _ (by rw [hdims]; exact hfew) (fun call hcall => ?_) (fun call hcall => ?_)
      fun h => hstored ?_⟩
    · rw [List.mem_singleton.mp hcall]
      exact attributeBuffer_holds hreads hmemory fun _ => hnull
    · rw [List.mem_singleton.mp hcall]
      exact (attributeBuffer_short hnull).mpr hshort
    · exact (attributeBuffer_nonNull hnull).mp (h _ List.mem_cons_self)

/-- **An attribute is packed as its entry**, as long as it is sound. -/
theorem packAttribute_decides (pk : Packer) (hmemory : attr.InMemory native)
    (hregular : D → attr.Regular native) (initial : Buffer) :
    Decides D .error (fun entry => pk.write (entriesTokens [entry])) (IsAttribute native attr)
      (attr.Sound native) (packAttribute pk native initial attr) := by
  -- nothing is read, and -1 is returned
  have hfailed : (∀ memType, ¬ attr.Reads native memType) →
      (∀ entry, ¬ IsAttribute native attr entry) →
        Decides D .error (fun entry => pk.write (entriesTokens [entry])) (IsAttribute native attr)
          (attr.Sound native) (.error .error : Except Failure Bytes) := fun hreads hvalue =>
    (Decides.failed hvalue).congr
      (iff_of_true trivial fun memType h => absurd h (hreads memType))
  rw [packAttribute]
  split
  · rename_i hrank
    exact hfailed (fun _ h => Nat.not_lt.mpr h.1 hrank) fun _ h => Nat.not_lt.mpr h.2.1 hrank
  rename_i hrank
  rcases hmem : makePackedNativeType native attr.fileType with _ | memType
  · refine hfailed (fun _ h => ?_) ?_
    · cases hmem.symm.trans h.2.1
    · rintro entry ⟨_, _, memType, _, hmem', _⟩
      cases hmem.symm.trans hmem'
  dsimp only
  split
  · rename_i hneg
    refine hfailed (fun memType' h => ?_) ?_
    · cases hmem.symm.trans h.2.1
      exact Int.not_lt.mpr h.2.2 hneg
    · rintro entry ⟨_, _, memType', _, hmem', _, hvalue⟩
      cases hmem.symm.trans hmem'
      rw [arrayValue_of_neg hneg] at hvalue
      cases hvalue
  rename_i hdetect
  have hreads : attr.Reads native memType := ⟨Nat.not_lt.mp hrank, hmem, Int.not_lt.mp hdetect⟩
  have hcount : attr.count.toNat = numberOf attr.space.dims := by
    rw [Attribute.count_toNat, Nat.mod_eq_of_lt hmemory.count]
  have hbytes : (attr.nrBytes memType).toNat =
      numberOf attr.space.dims * memType.size.toNat % 2 ^ 64 := by
    rw [Attribute.nrBytes, UInt64.toNat_mul, hcount]
  rw [hcount, hbytes]
  refine Decides.map (attributeArray_decides pk hreads hmemory hregular initial)
    (fun entry hentry => ⟨entry, hentry, ?_⟩) fun entry hentry => ⟨entry, hentry⟩
  obtain ⟨name, v⟩ := entry
  cases hentry.1
  exact entry_write pk attr.name v

end

theorem packAttributesLoop_eq (pk : Packer) (native : Datatype → Option Datatype)
    (initial : Nat → Buffer) (attrNr : Nat) (attrs : List Attribute) :
    packAttributesLoop pk native initial attrNr attrs =
      forEach (fun i => packAttribute pk native (initial i)) attrNr attrs := by
  induction attrs generalizing attrNr with
  | nil => rfl
  | cons attr attrs ih =>
    rw [packAttributesLoop, forEach, ih]
    rcases packAttribute pk native (initial attrNr) attr with e | out
    · rfl
    · rfl

theorem nrAttrs_eq {attrs : List Attribute} (h : attrs.length < 2 ^ 31) :
    nrAttrs attrs = attrs.length :=
  Int.bmod_eq_of_le (by omega) (by omega)

/-- All attributes the call comes to are sound. -/
def AttributesSound (native : Datatype → Option Datatype) (attrs : List Attribute) : Prop :=
  AllReached (IsAttribute native) (Attribute.Sound native) attrs

/-- **The attributes are packed as one map**, as long as those the call comes to are sound. -/
theorem packAttributes_decides (pk : Packer) {attrs : List Attribute} (h : attrs.length < 2 ^ 31)
    (hmemory : ∀ attr ∈ attrs, attr.InMemory native)
    (hregular : D → ∀ attr ∈ attrs, attr.Regular native) (initial : Nat → Buffer) :
    Decides D .error (fun v => pk.write (Value.tokens v)) (IsAttributes native attrs)
      (AttributesSound native attrs) (packAttributes pk native initial attrs) := by
  have htaken : taken attrs = attrs := by
    rw [taken, nrAttrs_eq h, Int.toNat_natCast, List.take_length]
  have hnumber : (nrAttrs attrs % 2 ^ 64).toNat = attrs.length := by
    rw [nrAttrs_eq h]
    omega
  rw [packAttributes, htaken, hnumber, packAttributesLoop_eq]
  refine Decides.map (Decides.forEach (fun i attr hattr => packAttribute_decides pk
    (hmemory attr hattr) (fun hD => hregular hD attr hattr) (initial i)) 0)
    (fun entries hentries => ⟨.map entries, ⟨entries, hentries, rfl⟩, ?_⟩) ?_
  · rw [write_entries, Value.tokens_map, Packer.write_cons, hentries.length_eq]
    rfl
  · rintro v ⟨entries, hentries, _⟩
    exact ⟨entries, hentries⟩

end HdfStream.Pack
