/-
# The worker's fields are the library's messages

The two sides of a command are written by hand in two programs.  Each kind of field is read back
by its `worker_recv` (`feed_recvInt`, `feed_recvSize`, `feed_recvName`, `feed_recvArray`), so the
program of a command, fed with the bytes of a request, ends with the request and leaves no byte
(`feed_encoding`); and no beginning of the bytes is enough (`feed_partial`).
-/
import HdfStream.Framing.Model

namespace HdfStream.Framing

open Fields
open Msgpack (Bytes)
open Fields.Reader (feed feed_recv feed_append feed_prefix)

/-! ## 1. One field -/

theorem feed_recvInt {n : Int} (h : IsInt n) (k : Int → Reader Command) (ys : Bytes) :
    feed (recvInt k) (intBytes n ++ ys) = feed (k n) ys := by
  rw [recvInt, feed_recv (length_intBytes n), readInt_intBytes h]

theorem feed_recvSize (n : UInt64) (k : UInt64 → Reader Command) (ys : Bytes) :
    feed (recvSize k) (sizeBytes n ++ ys) = feed (k n) ys := by
  rw [recvSize, feed_recv (length_sizeBytes n), readSize_sizeBytes]

theorem feed_recvName {s : Bytes} (h : IsCString s) (k : Bytes → Reader Command) (ys : Bytes) :
    feed (recvName k) ((nameMessages s).flatten ++ ys) = feed (k s) ys := by
  obtain ⟨hnull, hsize⟩ := h
  have hlen : (stringBytes s).length = (UInt64.ofNat (s.length + 1)).toNat := by
    rw [length_stringBytes, UInt64.toNat_ofNat_of_lt' hsize]
  have hbytes : (nameMessages s).flatten ++ ys =
      sizeBytes (UInt64.ofNat (s.length + 1)) ++ (stringBytes s ++ ys) := by
    simp [nameMessages]
  rw [hbytes, recvName, feed_recvSize, feed_recv hlen, readString_stringBytes hnull]

/-- The size of an array, within the limits on the rank and the number of slices. -/
theorem size_array {rank nrSlices : Int} (hrank : 0 ≤ rank ∧ rank ≤ maxDims)
    (hslices : 1 ≤ nrSlices ∧ nrSlices ≤ maxSlices) :
    (UInt64.ofInt (rank * nrSlices) * 8).toNat = (nrSlices * rank).toNat * 8 := by
  obtain ⟨h0, h1⟩ := hrank
  obtain ⟨h2, h3⟩ := hslices
  rw [maxDims] at h1
  rw [maxSlices] at h3
  have hpos : 0 ≤ rank * nrSlices := Int.mul_nonneg h0 (by omega)
  have hle : rank * nrSlices ≤ 32 * 16777216 := Int.mul_le_mul h1 h3 (by omega) (by omega)
  obtain ⟨n, hn⟩ := Int.eq_ofNat_of_zero_le hpos
  have hbound : n * 8 < 18446744073709551616 := by
    omega
  have hmod : ((n : Int) % 18446744073709551616).toNat = n := by
    omega
  have hsize : UInt64.ofInt (rank * nrSlices) = UInt64.ofNat n := by
    rw [hn]
    exact congrArg UInt64.ofNat hmod
  rw [hsize, Int.mul_comm nrSlices, hn, Int.toNat_natCast, UInt64.toNat_mul,
    UInt64.toNat_ofNat_of_lt' (show n < 2 ^ 64 by omega)]
  exact Nat.mod_eq_of_lt hbound

theorem feed_recvArray {rank nrSlices : Int} {xs : List UInt64}
    (hrank : 0 ≤ rank ∧ rank ≤ maxDims) (hslices : 1 ≤ nrSlices ∧ nrSlices ≤ maxSlices)
    (hlen : xs.length = (nrSlices * rank).toNat) (k : List UInt64 → Reader Command) (ys : Bytes) :
    feed (recvArray rank nrSlices k) (arrayBytes xs ++ ys) = feed (k xs) ys := by
  have hbytes : (arrayBytes xs).length = xs.length * 8 := length_arrayBytes xs
  rw [recvArray, size_array hrank hslices, ← hlen]
  rw [feed_recv hbytes, Nat.mul_div_cancel _ (by decide), readArray_arrayBytes]

/-! ## 2. A request -/

theorem encoding_dataset (fileName datasetName : Bytes) (nrSlices rank : Int)
    (start count : List UInt64) (bufferSize : UInt64) :
    (Call.dataset fileName datasetName nrSlices rank start count bufferSize).encoding =
      intBytes commandOpenDataset ++ ((nameMessages fileName).flatten ++
        ((nameMessages datasetName).flatten ++ (intBytes rank ++ (intBytes nrSlices ++
          (arrayBytes start ++ (arrayBytes count ++ (sizeBytes bufferSize ++ []))))))) := by
  simp [Call.encoding, Call.messages]

theorem encoding_object (fileName objectName : Bytes) (maxDepth : Int)
    (bufferSize dataSizeLimit : UInt64) :
    (Call.object fileName objectName maxDepth bufferSize dataSizeLimit).encoding =
      intBytes commandOpenObject ++ ((nameMessages fileName).flatten ++
        ((nameMessages objectName).flatten ++ (intBytes maxDepth ++
          (sizeBytes dataSizeLimit ++ (sizeBytes bufferSize ++ []))))) := by
  simp [Call.encoding, Call.messages]

/-- **The worker decodes the request**, and takes exactly its bytes. -/
theorem feed_encoding {c : Call} (htyped : c.WellTyped) (hchecked : c.Checked) :
    feed readCommand c.encoding = (.done (.call c), []) := by
  cases c with
  | dataset fileName datasetName nrSlices rank start count bufferSize =>
    obtain ⟨hfile, hdataset, hstart, hcount⟩ := htyped
    obtain ⟨hrank, hslices, -⟩ := hchecked
    have hrankInt : IsInt rank := by
      simp only [IsInt, maxDims] at hrank ⊢
      omega
    have hslicesInt : IsInt nrSlices := by
      simp only [IsInt, maxSlices] at hslices ⊢
      omega
    rw [encoding_dataset, readCommand, feed_recvInt (by decide), if_pos rfl, doReadDataset,
      feed_recvName hfile, feed_recvName hdataset, feed_recvInt hrankInt, feed_recvInt hslicesInt,
      feed_recvArray hrank hslices hstart, feed_recvArray hrank hslices hcount, feed_recvSize]
    rfl
  | object fileName objectName maxDepth bufferSize dataSizeLimit =>
    obtain ⟨hfile, hobject, hdepth⟩ := htyped
    rw [encoding_object, readCommand, feed_recvInt (by decide), if_neg (by decide), if_pos rfl,
      doReadObject, feed_recvName hfile, feed_recvName hobject, feed_recvInt hdepth,
      feed_recvSize, feed_recvSize]
    rfl

/-- After some bytes of a request the worker waits for more of it, unless it has them all. -/
theorem feed_partial {c : Call} (htyped : c.WellTyped) (hchecked : c.Checked) {xs ys : Bytes}
    (h : xs ++ ys = c.encoding) :
    (∃ n k got, feed readCommand xs = (.recv n k, got) ∧ ys ≠ []) ∨
      (feed readCommand xs = (.done (.call c), []) ∧ ys = []) := by
  have hall : feed readCommand (xs ++ ys) = (.done (.call c), []) :=
    h ▸ feed_encoding htyped hchecked
  by_cases hys : ys = []
  · subst hys
    rw [List.append_nil] at hall
    exact Or.inr ⟨hall, rfl⟩
  · obtain ⟨n, k, got, hfeed, -⟩ := feed_prefix hall hys
    exact Or.inl ⟨n, k, got, hfeed, hys⟩

end HdfStream.Framing
