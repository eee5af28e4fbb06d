/-
# Reading fields from a stream of bytes

A program that reads fields of given lengths, each of which may decide what is read next
(`Reader`).  The bytes come in pieces, cut anywhere: the state of the program is the field it is
waiting for and the bytes of it that have come, and `feed` runs it on some bytes from a given
state.  What has been fed in several pieces has been fed at once (`feed_append`).

Integers are little-endian fields of fixed length.
-/
import HdfStream.Lib.Packer

namespace Fields

open Msgpack (Bytes be readBE)

/-! ## 1. Programs -/

/-- A program that reads fields: it is done, or it reads `n` bytes and goes on with them. -/
inductive Reader (α : Type) where
  | done (a : α)
  | recv (n : Nat) (k : Bytes → Reader α)

namespace Reader

variable {α : Type}

/-- The program after some bytes, and the bytes of its next field that are among them. -/
def feed : Reader α → Bytes → Reader α × Bytes
  | done a, bs => (done a, bs)
  | recv n k, bs => if bs.length < n then (recv n k, bs) else feed (k (bs.take n)) (bs.drop n)

theorem feed_recv {n : Nat} {k : Bytes → Reader α} {xs : Bytes} (h : xs.length = n) (ys : Bytes) :
    feed (recv n k) (xs ++ ys) = feed (k xs) ys := by
  have hnot : ¬ (xs ++ ys).length < n := by
    rw [List.length_append]
    omega
  rw [feed, if_neg hnot, List.take_left' h, List.drop_left' h]

/-- **The bytes may come in pieces.** -/
theorem feed_append (p : Reader α) (xs ys : Bytes) :
    feed p (xs ++ ys) = feed (feed p xs).1 ((feed p xs).2 ++ ys) := by
  induction p generalizing xs with
  | done a => rfl
  | recv n k ih =>
    by_cases h : xs.length < n
    · have hfeed : feed (recv n k) xs = (recv n k, xs) := by rw [feed, if_pos h]
      rw [hfeed]
    · have hle : n ≤ xs.length := Nat.le_of_not_lt h
      have htake : (xs.take n).length = n := List.length_take_of_le hle
      have hfeed : feed (recv n k) xs = feed (k (xs.take n)) (xs.drop n) := by
        rw [feed, if_neg h]
      rw [hfeed]
      conv_lhs => rw [← List.take_append_drop n xs, List.append_assoc, feed_recv htake]
      exact ih (xs.take n) (xs.drop n)

/-- A program that waits has not got all bytes of its field. -/
theorem feed_eq_recv {p : Reader α} {xs got : Bytes} {n : Nat} {k : Bytes → Reader α}
    (h : feed p xs = (recv n k, got)) : got.length < n := by
  induction p generalizing xs with
  | done a => cases h
  | recv m j ih =>
    rw [feed] at h
    split at h
    · rename_i hlt
      cases h
      exact hlt
    · exact ih _ h

/-- A program that is done after some bytes is not done before the last of them. -/
theorem feed_prefix {p : Reader α} {xs ys : Bytes} {a : α} (h : feed p (xs ++ ys) = (done a, []))
    (hys : ys ≠ []) : ∃ n k got, feed p xs = (recv n k, got) ∧ got.length < n ∧
      n ≤ got.length + ys.length := by
  rw [feed_append] at h
  cases hxs : feed p xs with
  | mk q got =>
    rw [hxs] at h
    cases q with
    | done b =>
      have hnil : got ++ ys = [] := congrArg Prod.snd h
      exact absurd (List.append_eq_nil_iff.mp hnil).2 hys
    | recv n k =>
      refine ⟨n, k, got, rfl, feed_eq_recv hxs, ?_⟩
      by_contra hlt
      have hshort : (got ++ ys).length < n := by
        rw [List.length_append]
        omega
      rw [feed, if_pos hshort] at h
      cases h

end Reader

/-! ## 2. Integers -/

/-- The first `k` bytes of a number, the lowest first. -/
def le (k n : Nat) : Bytes := (be k n).reverse

/-- The number of some bytes, the lowest first. -/
def readLE (bs : Bytes) : Nat := readBE bs.reverse

@[simp] theorem length_le (k n : Nat) : (le k n).length = k := by
  rw [le, List.length_reverse, Msgpack.length_be]

theorem readLE_le {k n : Nat} (h : n < 256 ^ k) : readLE (le k n) = n := by
  rw [readLE, le, List.reverse_reverse, Msgpack.readBE_be, Nat.mod_eq_of_lt h]

/-- An `int` in memory. -/
def intBytes (n : Int) : Bytes := le 4 (n % 4294967296).toNat

/-- The `int` of four bytes. -/
def readInt (bs : Bytes) : Int := Int.bmod (readLE bs) 4294967296

/-- The values of an `int`. -/
def IsInt (n : Int) : Prop := -2147483648 ≤ n ∧ n < 2147483648

@[simp] theorem length_intBytes (n : Int) : (intBytes n).length = 4 := by
  rw [intBytes, length_le]

private theorem bmod_emod {n : Int} (h : IsInt n) :
    Int.bmod (n % 4294967296) 4294967296 = n := by
  obtain ⟨hle, hlt⟩ := h
  rw [Int.bmod_def]
  omega

theorem readInt_intBytes {n : Int} (h : IsInt n) : readInt (intBytes n) = n := by
  have hbound : (n % 4294967296).toNat < 256 ^ 4 := by
    have hpow : 256 ^ 4 = 4294967296 := by decide
    omega
  have hread : readLE (intBytes n) = (n % 4294967296).toNat := readLE_le hbound
  have hcast : (((n % 4294967296).toNat : Nat) : Int) = n % 4294967296 := by
    omega
  calc readInt (intBytes n) = Int.bmod ((readLE (intBytes n) : Nat) : Int) 4294967296 := rfl
    _ = Int.bmod (n % 4294967296) 4294967296 := by rw [hread, hcast]
    _ = n := bmod_emod h

/-- A `size_t` in memory. -/
def sizeBytes (n : UInt64) : Bytes := le 8 n.toNat

/-- The `size_t` of eight bytes. -/
def readSize (bs : Bytes) : UInt64 := UInt64.ofNat (readLE bs)

@[simp] theorem length_sizeBytes (n : UInt64) : (sizeBytes n).length = 8 := by
  rw [sizeBytes, length_le]

theorem readSize_sizeBytes (n : UInt64) : readSize (sizeBytes n) = n := by
  rw [readSize, sizeBytes, readLE_le n.toNat_lt, UInt64.ofNat_toNat]

/-- An array of 64-bit numbers in memory. -/
def arrayBytes (xs : List UInt64) : Bytes := xs.flatMap sizeBytes

/-- The `n` numbers in memory. -/
def readArray : Nat → Bytes → List UInt64
  | 0, _ => []
  | n + 1, bs => readSize (bs.take 8) :: readArray n (bs.drop 8)

@[simp] theorem length_arrayBytes (xs : List UInt64) :
    (arrayBytes xs).length = xs.length * 8 := by
  induction xs with
  | nil => rfl
  | cons x xs ih =>
    rw [arrayBytes, List.flatMap_cons, List.length_append, length_sizeBytes, List.length_cons,
      ← arrayBytes, ih]
    omega

theorem readArray_arrayBytes (xs : List UInt64) : readArray xs.length (arrayBytes xs) = xs := by
  induction xs with
  | nil => rfl
  | cons x xs ih =>
    rw [arrayBytes, List.flatMap_cons, List.length_cons, readArray,
      List.take_left' (length_sizeBytes x), List.drop_left' (length_sizeBytes x),
      readSize_sizeBytes, ← arrayBytes, ih]

/-! ## 3. Strings -/

/-- A string in memory, with the null byte. -/
def stringBytes (s : Bytes) : Bytes := s ++ [0]

/-- The string in a buffer, up to the null byte. -/
def readString (bs : Bytes) : Bytes := bs.takeWhile (· ≠ 0)

@[simp] theorem length_stringBytes (s : Bytes) : (stringBytes s).length = s.length + 1 := by
  rw [stringBytes, List.length_append, List.length_singleton]

theorem readString_stringBytes {s : Bytes} (h : 0 ∉ s) : readString (stringBytes s) = s := by
  have hall : ∀ b ∈ s, decide (b ≠ 0) = true := fun b hb =>
    decide_eq_true fun hzero : b = 0 => h (hzero ▸ hb)
  rw [readString, stringBytes, List.takeWhile_append_of_pos hall]
  exact List.append_nil s

end Fields
