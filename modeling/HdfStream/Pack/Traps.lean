/-
# When packing an array stops the process

`packArray_eq` says what becomes of an array if its size does not wrap and no string is a null
pointer.  Here is what becomes of the others: a null pointer is read, an assertion fails, or the
loop of `pack_contents_body` goes on for ever, because it has more bytes than were announced.
In none of these cases does the call return -1.
-/
import HdfStream.Pack.Variable

namespace HdfStream.Pack

open Msgpack Outcome Pieces

variable {pk : Packer} {maxSize : Nat} {t : Datatype}

/-! ## 1. Null pointers -/

/-- A body with a null pointer in it. -/
def NullSpec (pk : Packer) (maxSize : Nat) (t : Datatype) : Prop :=
  ∀ (pci : PackContentsInfo) (buffer : Buffer) (count bufferLen : Nat),
    pci.hasVlen = 1 → pci.maxSize = maxSize → buffer.Holds maxSize t count →
      buffer.Short maxSize t count → ¬ buffer.NonNull t count →
        packContentsBody pk pci t count buffer bufferLen = .error .nullPointer

theorem packStrings_null {str : Nat → Option Bytes} {start count : Nat}
    (h : ¬ ∀ i, start ≤ i → i < start + count → (str i).isSome) :
    packStrings pk str start count = .error .nullPointer := by
  induction count generalizing start with
  | zero => exact absurd (fun i _ _ => by omega) h
  | succ count ih =>
    rw [packStrings]
    rcases hs : str start with _ | s
    · rfl
    · dsimp only
      rw [ih fun hrest => h fun i hi hi' => ?_]
      · rfl
      · rcases Nat.eq_or_lt_of_le hi with rfl | hlt
        · rw [hs]
          rfl
        · exact hrest i hlt (by omega)

/-- The loop over the sequences stops at the first that stops the process. -/
theorem packSequences_stopped (good : Nat → Prop) {packElement : Nat → Except Failure Bytes}
    {e : Failure} {start count : Nat}
    (hgood : ∀ i, start ≤ i → i < start + count → good i → ∃ out, packElement i = .ok out)
    (hbad : ∀ i, start ≤ i → i < start + count → ¬ good i → packElement i = .error e)
    (h : ¬ ∀ i, start ≤ i → i < start + count → good i) :
    packSequences packElement start count = .error e := by
  induction count generalizing start with
  | zero => exact absurd (fun i _ _ => by omega) h
  | succ count ih =>
    rw [packSequences]
    by_cases hfirst : good start
    · obtain ⟨out, hout⟩ := hgood start (Nat.le_refl _) (by omega) hfirst
      rw [hout]
      dsimp only
      rw [ih (fun i hi hi' => hgood i (by omega) (by omega))
        (fun i hi hi' => hbad i (by omega) (by omega)) fun hrest => h fun i hi hi' => ?_]
      · rfl
      · rcases Nat.eq_or_lt_of_le hi with rfl | hlt
        · exact hfirst
        · exact hrest i hlt (by omega)
    · rw [hbad start (Nat.le_refl _) (by omega) hfirst]

theorem detectVlenTypes_strings (ht : t.stringsAndSequences = true) : detectVlenTypes t = 1 :=
  detectVlenTypes_variable (detectVlenTypes_nonneg (Datatype.known_of_strings ht))
    (Datatype.hasVariable_of_strings ht)

/-- An array of strings and sequences with a null pointer in it. -/
theorem packArray_null (hnull : NullSpec pk maxSize t) (ht : t.stringsAndSequences = true)
    (hmax : 0 < maxSize) (pci : PackContentsInfo) {dims : List UInt64} (nrBytes : Nat)
    (calls : List BodyCall) (hfew : (nrElements dims).toNat ≤ maxSize)
    (hholds : ∀ call ∈ calls, call.buffer.Holds maxSize t call.count)
    (hshort : ∀ call ∈ calls, call.buffer.Short maxSize t call.count)
    (h : ¬ ∀ call ∈ calls, call.buffer.NonNull t call.count) :
    packArray pk pci maxSize t dims nrBytes calls = .error .nullPointer := by
  have hdetect := detectVlenTypes_strings ht
  obtain ⟨info, header, hheader⟩ := packContentsHeader_of_few hdetect pci nrBytes hfew
  obtain ⟨hsize, hvlen, _⟩ := packContentsHeader_vlen hheader (by rw [hdetect]; decide)
  have hbodies : packBodies pk t calls info = .error .nullPointer := by
    clear hheader
    induction calls with
    | nil => exact absurd (fun call hcall => by cases hcall) h
    | cons call calls ih =>
      have hfirst := hholds call List.mem_cons_self
      have hfirstShort := hshort call List.mem_cons_self
      rw [packBodies_cons]
      by_cases hnonNull : call.buffer.NonNull t call.count
      · -- this one is packed, and the next ones follow
        obtain ⟨vs, hvs⟩ := Option.isSome_iff_exists.mp ((elements_isSome_iff ht).mpr hfirstShort)
        rw [bodySpec hmax hdetect info _ _ _ (hvlen.trans hdetect) hsize hfirst hnonNull, hvs]
        show (packBodies pk t calls info).map _ = _
        rw [ih (fun c hc => hholds c (List.mem_cons_of_mem _ hc))
          (fun c hc => hshort c (List.mem_cons_of_mem _ hc)) fun hrest => h fun c hc => ?_]
        · rfl
        · rcases List.mem_cons.mp hc with rfl | hc
          · exact hnonNull
          · exact hrest c hc
      · rw [hnull info _ _ _ (hvlen.trans hdetect) hsize hfirst hfirstShort hnonNull]
  rw [packArray, hheader]
  dsimp only
  rw [hbodies]
  rfl

/-- **A null pointer is read**, by induction on the type. -/
theorem nullSpec (hmax : 0 < maxSize) (ht : t.stringsAndSequences = true) :
    NullSpec pk maxSize t := by
  induction t using Datatype.induction with
  | hstring size variableStr =>
    intro pci buffer count bufferLen hvlen _ hholds _ hnull
    have hvar : variableStr = true := ht
    rw [Buffer.Holds, if_pos hvar] at hholds
    have hnull : ¬ ∀ i < count, (buffer.str i).isSome := fun h => hnull fun _ => h
    rw [packContentsBody.eq_def, if_pos (by omega)]
    dsimp only
    rw [if_neg (not_not.mpr hvar)]
    rcases hholds with rfl | ⟨str, rfl⟩
    · exact absurd (fun i hi => absurd hi (Nat.not_lt_zero i)) hnull
    · have hstrings : packStrings pk str 0 count = .error .nullPointer :=
        packStrings_null fun h => hnull fun i hi => h i (Nat.zero_le i) (by omega)
      dsimp only
      rw [hstrings]
      rfl
  | hvlen super ih =>
    intro pci buffer count bufferLen hvlen hsize hholds hshort hnull
    have hsome := (elements_isSome_iff ht).mpr hshort
    rw [Buffer.Holds] at hholds
    obtain ⟨hbuffer, hholds⟩ := hholds
    rw [Buffer.Short] at hshort
    rw [Buffer.NonNull] at hnull
    rw [packContentsBody.eq_def, if_pos (by omega)]
    rcases hbuffer with rfl | ⟨len, p, rfl⟩
    · exact absurd (fun i hi => absurd hi (Nat.not_lt_zero i)) hnull
    · rw [elements, mapM_isSome_iff] at hsome
      have hcount : ∀ i, (nrElements [len i]).toNat = (len i).toNat :=
        fun i => congrArg UInt64.toNat (nrElements_singleton (len i))
      dsimp only
      rw [packSequences_stopped (fun i => (p i).NonNull super (len i).toNat)
        (fun i _ hi hgood => ?_) (fun i _ hi hbad => ?_)
        fun h => hnull fun i hi => h i (Nat.zero_le i) (by omega)]
      · rfl
      · -- a sequence without null pointers
        have hone := packArray_one pk maxSize default super [len i] ⟨(len i).toNat, p i⟩
        obtain ⟨v, hv⟩ := Option.isSome_iff_exists.mp
          (hsome i (List.mem_range'_1.mpr (by omega)))
        have hcall := @packArray_sequence pk maxSize super (fun hdetect => bodySpec hmax hdetect)
          hmax (len i) (p i) (hholds i (by omega)).1 (hholds i (by omega)).2 hgood
        have hvalue : arrayValue maxSize super (elements maxSize super) [len i]
            [⟨(len i).toNat, p i⟩] = some v := hv
        rw [hvalue] at hcall
        refine ⟨pk.write v.tokens, ?_⟩
        rw [hsize]
        exact hone.symm.trans hcall
      · have hone := packArray_one pk maxSize default super [len i] ⟨(len i).toNat, p i⟩
        rw [Datatype.stringsAndSequences, Bool.or_eq_true] at ht
        rcases ht with ht | ht
        · have hstopped := packArray_null (ih ht) ht hmax default
            (len i * super.size).toNat [⟨(len i).toNat, p i⟩]
            (by rw [hcount]; exact (hshort i (by omega)).1 (Datatype.hasVariable_of_strings ht))
            (fun call hcall => by
              rw [List.mem_singleton.mp hcall]
              exact (hholds i (by omega)).2)
            (fun call hcall => by
              rw [List.mem_singleton.mp hcall]
              exact (hshort i (by omega)).2)
            fun h => hbad (h _ List.mem_cons_self)
          rw [hsize]
          exact hone.symm.trans hstopped
        · -- data of a fixed size has no pointers
          rw [Bool.and_eq_true, Bool.and_eq_true, Bool.not_eq_true'] at ht
          refine absurd (nonNull_of_fixed ?_ _ _) hbad
          rw [detectVlenTypes_fixed (detectVlenTypes_nonneg ht.1.2) ht.1.1]
          decide
  | _ => cases ht

/-- A type with a null pointer in its data is a string, or a sequence of such types. -/
theorem strings_of_null {buffer : Buffer} {count : Nat} (h : ¬ buffer.NonNull t count) :
    t.stringsAndSequences = true := by
  induction t using Datatype.induction generalizing buffer count with
  | hstring size variableStr =>
    by_contra hne
    exact h fun hvar => absurd hvar hne
  | hvlen super ih =>
    rw [Buffer.NonNull] at h
    obtain ⟨i, hi⟩ := Classical.not_forall.mp h
    rw [Datatype.stringsAndSequences, ih (Classical.not_imp.mp hi).2, Bool.true_or]
  | _ => exact absurd trivial h

/-! ## 2. More bytes than announced -/

theorem nextBin_bytesLeft (pci : PackContentsInfo) : (nextBin pci).bytesLeft = pci.bytesLeft := by
  rw [nextBin]
  split
  · simp only [PackContentsInfo.bytesLeft]
    split <;> omega
  · rfl

/-- The loop of `pack_contents_body` does not end with bytes left, nor does it return -1. -/
theorem packBins_overrun (pk : Packer) (mem : Nat → UInt8) {pci : PackContentsInfo} (offset : Nat)
    {lenLeft : Nat} (out : Bytes) (h : pci.bytesLeft < lenLeft) :
    Traps Failure.error (packBins pk mem pci offset lenLeft out) := by
  induction hlen : lenLeft using Nat.strongRecOn generalizing pci offset lenLeft out with
  | _ n ih =>
    subst hlen
    rw [packBins, dif_neg (by omega)]
    split
    · exact ⟨.assertion, by decide, rfl⟩
    · dsimp only
      generalize hn : (if lenLeft < (nextBin pci).bytesLeftInBin then lenLeft
        else (nextBin pci).bytesLeftInBin) = n
      by_cases hwrite : n = 0
      · rw [dif_pos hwrite]
        exact ⟨.endless, by decide, rfl⟩
      · rw [dif_neg hwrite]
        have hleft := nextBin_bytesLeft pci
        have hle : n ≤ lenLeft ∧ n ≤ (nextBin pci).bytesLeftInBin := by
          rw [← hn]
          split <;> omega
        refine ih (lenLeft - n) (by omega) (offset + n) _ ?_ rfl
        simp only [PackContentsInfo.bytesLeft, writeBin] at hleft h ⊢
        omega

/-- The calls of `pack_contents_body` have more bytes than are left. -/
theorem packBodyCalls_overrun (pk : Packer) (t : Datatype) {calls : List (Nat × Buffer × Nat)}
    {pci : PackContentsInfo} (hvlen : pci.hasVlen = 0) (hmax : 0 < pci.maxSize)
    (hbins : 0 < pci.bytesLeft → 0 < pci.nrBins)
    (hholds : ∀ call ∈ calls, call.2.1.HoldsBytes call.2.2)
    (h : pci.bytesLeft < (bytesRead calls).length) :
    Traps Failure.error (packBodyCalls pk t calls pci) := by
  induction calls generalizing pci with
  | nil => exact absurd h (Nat.not_lt_zero _)
  | cons call calls ih =>
    obtain ⟨count, buffer, n⟩ := call
    have hfirst := hholds (count, buffer, n) List.mem_cons_self
    have hread : bytesRead ((count, buffer, n) :: calls) = buffer.read n ++ bytesRead calls :=
      List.flatMap_cons
    rw [hread, List.length_append, length_read] at h
    rw [packBodyCalls]
    by_cases hle : n ≤ pci.bytesLeft
    · obtain ⟨pci', out, hbody, hpacked⟩ := packContentsBody_bytes pk t count n hvlen hmax
        (fun hpos => hbins (by omega)) hle hfirst
      have hleft := hpacked.bytesLeft_eq
      rw [length_read] at hleft
      rw [hbody]
      exact (ih (hpacked.hasVlen_eq.trans hvlen) (by rw [hpacked.maxSize_eq]; exact hmax)
        (fun hpos => by rw [hpacked.nrBins_eq]; exact hbins (by omega))
        (fun c hc => hholds c (List.mem_cons_of_mem _ hc)) (by omega)).map
    · rcases hfirst with hzero | ⟨mem, hmem⟩
      · have hzero : n = 0 := hzero
        omega
      · have hmem : buffer = .bytes mem := hmem
        subst hmem
        obtain ⟨e, he, hbody⟩ := packBins_overrun pk mem 0 [] (Nat.not_le.mp hle)
        rw [packContentsBody.eq_def, if_neg (by omega), if_pos hvlen]
        dsimp only
        rw [hbody]
        exact ⟨e, he, rfl⟩

theorem nrBinsNeeded_traps {nrBytes : Nat} (hlt : maxSize < 2 ^ 64) (hbytes : nrBytes < 2 ^ 64)
    (h : 2 ^ 64 < nrBytes + maxSize) : nrBinsNeeded maxSize nrBytes = .error .assertion := by
  rcases hneeded : nrBinsNeeded maxSize nrBytes with e | nrBins
  · unfold nrBinsNeeded at hneeded
    split at hneeded
    · exact hneeded.symm
    · dsimp only at hneeded
      split at hneeded
      · exact hneeded.symm
      · cases hneeded
  · have hsum := nrBinsNeeded_lt hneeded hlt hbytes
    omega

/-- **An array of data of a fixed size whose size wraps**, or is too large for the number of its
binaries to be computed, is not packed, and the call does not return -1. -/
theorem packArray_overrun (pk : Packer) (hdetect : detectVlenTypes t = 0)
    (htype : (typeValue t none).isSome) (hmax : 0 < maxSize) (hlt : maxSize < 2 ^ 64)
    (pci : PackContentsInfo) (dims : List UInt64) {calls : List BodyCall}
    (hcalls : ∀ call ∈ calls, call.count * t.size.toNat < 2 ^ 64)
    (hholds : ∀ call ∈ calls, call.buffer.HoldsBytes (call.count * t.size.toNat))
    (h : 2 ^ 64 < countOf calls * t.size.toNat + maxSize) :
    Traps Failure.error
      (packArray pk pci maxSize t dims (countOf calls * t.size.toNat % 2 ^ 64) calls) := by
  rw [packArray]
  by_cases hsum : countOf calls * t.size.toNat % 2 ^ 64 + maxSize ≤ 2 ^ 64
  · obtain ⟨info, header, hheader, _⟩ := packContentsHeader_of_le pci maxSize
      (countOf calls * t.size.toNat % 2 ^ 64) dims hdetect
      (by rw [packNumpyType_value, Option.isSome_map]; exact htype) hmax hsum
    obtain ⟨_, _, hsize, hvlen, hleft, _, _, hpos, _, _⟩ :=
      packContentsHeader_fixed hheader hdetect
    rw [hheader]
    dsimp only
    rw [packBodies_exact pk hcalls]
    refine (packBodyCalls_overrun pk t hvlen (by rw [hsize]; exact hmax)
      (by rw [hleft]; exact hpos) (fun body hbody => ?_) ?_).map
    · obtain ⟨call, hcall, rfl⟩ := List.mem_map.mp hbody
      exact hholds call hcall
    · rw [hleft, bytesRead_exact, length_bytesOf]
      have hmod := Nat.mod_lt (countOf calls * t.size.toNat) (show 0 < 2 ^ 64 by decide)
      have hle := Nat.mod_le (countOf calls * t.size.toNat) (2 ^ 64)
      refine Nat.lt_of_le_of_ne hle fun heq => ?_
      omega
  · refine ⟨.assertion, by decide, ?_⟩
    have hneeded := @nrBinsNeeded_traps maxSize (countOf calls * t.size.toNat % 2 ^ 64) hlt
      (Nat.mod_lt _ (by decide)) (by omega)
    simp only [packContentsHeader, hdetect, Int.lt_irrefl, if_false, if_true, hneeded]

end HdfStream.Pack
