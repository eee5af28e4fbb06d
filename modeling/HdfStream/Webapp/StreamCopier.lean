/-
# Copying a stream

The model of `StreamCopier.java`.  A stream is the pieces that `read` returns, one after the other;
`copyStreamAndReturnIfSmall` writes them to the output and keeps them as long as they fit.

The space that is left is an `int`, which goes on counting down after the limit is passed, and
wraps.  `copyStreamAndReturnIfSmall_exact_iff` says for which streams this does no harm.
-/
import HdfStream.Webapp.SliceInfo

namespace HdfStream.Webapp

open Java

/-! ## 1. The loops -/

/-- What leaves the loops below. -/
inductive CopyError where
  /-- `IOException`. -/
  | io (message : JString)
  /-- `OutOfMemoryError`. -/
  | outOfMemory
deriving DecidableEq

/-- What a stream returns: the pieces, one for each call of `read`, and then -1 or an
`IOException`. -/
structure DataStream where
  pieces : List Bytes
  exception : Option JString

/-- What has been written, and the end of the loop. -/
structure Copied (α : Type) where
  out : Bytes
  result : Except CopyError α
deriving DecidableEq

/-- `copyStream`. -/
def copyStream (instream : DataStream) : Copied Unit :=
  { out := instream.pieces.flatten
    result := match instream.exception with
      | none => .ok ()
      | some message => .error (.io message) }

/-- The length that an array can have: `Integer.MAX_VALUE`. -/
def maxArrayLength : Int := 2147483647

/-- The variables of the loop. -/
structure Copying where
  out : Bytes
  smallCache : Bytes
  maxLeftToBuffer : Int

/-- The loop. -/
def copyLoop (exception : Option JString) : List Bytes → Copying → Copied (Option Bytes)
  | [], st =>
    { out := st.out
      result := match exception with
        | some message => .error (.io message)
        | none => .ok (if 0 ≤ st.maxLeftToBuffer then some st.smallCache else none) }
  | buf :: pieces, st =>
    if 0 < buf.length then
      let nrToBuffer := min st.maxLeftToBuffer buf.length
      -- the array in `smallCache` cannot grow any more
      if maxArrayLength < st.smallCache.length + nrToBuffer then
        { out := st.out ++ buf, result := .error .outOfMemory }
      else
        copyLoop exception pieces
          { out := st.out ++ buf
            smallCache := st.smallCache ++ buf.take nrToBuffer.toNat
            maxLeftToBuffer := wrapInt (st.maxLeftToBuffer - buf.length) }
    else copyLoop exception pieces st

/-- `copyStreamAndReturnIfSmall`. -/
def copyStreamAndReturnIfSmall (instream : DataStream) (maxSize : Int) : Copied (Option Bytes) :=
  copyLoop instream.exception instream.pieces
    { out := [], smallCache := [], maxLeftToBuffer := maxSize }

/-! ## 2. The counter -/

/-- The space that is left after `n` bytes. -/
def left (maxSize : Int) (n : Nat) : Int := wrapInt (maxSize - n)

/-- The bytes that are kept of pieces with these lengths, after `n` bytes. -/
def kept (maxSize : Int) : Nat → List Nat → Nat
  | _, [] => 0
  | n, k :: ks => (min (left maxSize n) k).toNat + kept maxSize (n + k) ks

theorem left_add (maxSize : Int) (n k : Nat) :
    wrapInt (left maxSize n - k) = left maxSize (n + k) := by
  rw [left, left, wrapInt, wrapInt, Int.bmod_sub_bmod, wrapInt, Int.natCast_add]
  congr 1
  omega

theorem left_of_le {maxSize : Int} {n : Nat} (h : n ≤ maxSize) (hmax : maxSize < 2147483648) :
    left maxSize n = maxSize - n := wrapInt_eq (by omega) (by omega)

/-- After the limit the counter is negative for 2^31 bytes, out of 2^32. -/
theorem left_neg_iff (maxSize : Int) (n : Nat) :
    left maxSize n < 0 ↔ (n - maxSize - 1) % 4294967296 < 2147483648 := by
  rw [left, wrapInt, Int.bmod_eq_emod]
  split
  · omega
  · omega

/-- As long as the limit is not passed all is kept. -/
theorem kept_of_le {maxSize : Int} (hmax : maxSize < 2147483648) {n : Nat} {ks : List Nat}
    (h : n + ks.sum ≤ maxSize) : kept maxSize n ks = ks.sum := by
  induction ks generalizing n with
  | nil => rfl
  | cons k ks ih =>
    rw [List.sum_cons] at h ⊢
    rw [kept, left_of_le (by omega) hmax, ih (by omega)]
    omega

/-! ## 3. The result -/

/-- **A run of the loop that fits.** -/
theorem copyLoop_fits (maxSize : Int) {pieces : List Bytes} (hpieces : ∀ p ∈ pieces, 0 < p.length)
    (st : Copying) (hleft : st.maxLeftToBuffer = left maxSize st.out.length)
    (hkept : (st.smallCache.length : Int) +
      kept maxSize st.out.length (pieces.map List.length) ≤ maxArrayLength) :
    ∃ smallCache, copyLoop none pieces st =
      { out := st.out ++ pieces.flatten
        result := .ok (if 0 ≤ left maxSize (st.out ++ pieces.flatten).length then some smallCache
          else none) } ∧
      ((st.out ++ pieces.flatten).length ≤ maxSize → maxSize < 2147483648 →
        smallCache = st.smallCache ++ pieces.flatten) := by
  induction pieces generalizing st with
  | nil =>
    refine ⟨st.smallCache, ?_, fun _ _ => (List.append_nil _).symm⟩
    rw [copyLoop, hleft, List.flatten_nil, List.append_nil]
  | cons buf pieces ih =>
    have hpos := hpieces buf List.mem_cons_self
    rw [List.map_cons, kept] at hkept
    have hroom : ¬ maxArrayLength <
        st.smallCache.length + min st.maxLeftToBuffer (buf.length : Int) := by
      rw [hleft]
      omega
    have htake : (buf.take (min st.maxLeftToBuffer (buf.length : Int)).toNat).length =
        (min (left maxSize st.out.length) buf.length).toNat := by
      rw [List.length_take, hleft]
      omega
    obtain ⟨smallCache, hloop, hsmall⟩ := ih (fun p hp => hpieces p (List.mem_cons_of_mem _ hp))
      { out := st.out ++ buf
        smallCache := st.smallCache ++
          buf.take (min st.maxLeftToBuffer (buf.length : Int)).toNat
        maxLeftToBuffer := wrapInt (st.maxLeftToBuffer - buf.length) }
      (by rw [hleft, List.length_append]; exact left_add maxSize _ _)
      (by
        rw [List.length_append, List.length_append, htake]
        omega)
    rw [List.append_assoc, ← List.flatten_cons] at hloop hsmall
    refine ⟨smallCache, ?_, fun hle hmax => ?_⟩
    · rw [copyLoop, if_pos hpos, if_neg hroom]
      exact hloop
    · rw [hsmall hle hmax, List.append_assoc, List.flatten_cons]
      -- the piece is kept as a whole
      rw [List.flatten_cons, List.length_append, List.length_append] at hle
      have hall : (min st.maxLeftToBuffer (buf.length : Int)).toNat = buf.length := by
        rw [hleft, left_of_le (by omega) hmax]
        omega
      rw [hall, List.take_length]

/-- A run that does not fit. -/
theorem copyLoop_overflows (maxSize : Int) {pieces : List Bytes}
    (hpieces : ∀ p ∈ pieces, 0 < p.length) (st : Copying)
    (hleft : st.maxLeftToBuffer = left maxSize st.out.length)
    (hsmall : (st.smallCache.length : Int) ≤ maxArrayLength)
    (hkept : maxArrayLength < (st.smallCache.length : Int) +
      kept maxSize st.out.length (pieces.map List.length)) :
    (copyLoop none pieces st).result = .error .outOfMemory := by
  induction pieces generalizing st with
  | nil =>
    rw [List.map_nil, kept] at hkept
    omega
  | cons buf pieces ih =>
    have hpos := hpieces buf List.mem_cons_self
    rw [List.map_cons, kept] at hkept
    rw [copyLoop, if_pos hpos]
    by_cases hroom : maxArrayLength <
        st.smallCache.length + min st.maxLeftToBuffer (buf.length : Int)
    · rw [if_pos hroom]
    · have htake : (buf.take (min st.maxLeftToBuffer (buf.length : Int)).toNat).length =
          (min (left maxSize st.out.length) buf.length).toNat := by
        rw [List.length_take, hleft]
        omega
      rw [if_neg hroom]
      refine ih (fun p hp => hpieces p (List.mem_cons_of_mem _ hp)) _ ?_ ?_ ?_
      · rw [hleft, List.length_append]
        exact left_add maxSize _ _
      · rw [List.length_append, htake, ← hleft]
        omega
      · rw [List.length_append, List.length_append, htake]
        omega

/-- What a copy that returns has written. -/
theorem copyLoop_out {exception : Option JString} {pieces : List Bytes} {st : Copying}
    {data : Option Bytes} (h : (copyLoop exception pieces st).result = .ok data) :
    exception = none ∧ (copyLoop exception pieces st).out = st.out ++ pieces.flatten := by
  induction pieces generalizing st with
  | nil =>
    rcases exception with _ | message
    · exact ⟨rfl, (List.append_nil _).symm⟩
    · cases h
  | cons buf pieces ih =>
    rw [copyLoop] at h ⊢
    dsimp only at h ⊢
    split at h
    · split at h
      · cases h
      · rename_i hpos hroom
        obtain ⟨hnone, hout⟩ := ih h
        rw [if_pos hpos, if_neg hroom]
        exact ⟨hnone, hout.trans (by rw [List.append_assoc, List.flatten_cons])⟩
    · rename_i hpos
      obtain ⟨hnone, hout⟩ := ih h
      rw [if_neg hpos]
      refine ⟨hnone, hout.trans ?_⟩
      rw [List.flatten_cons, List.length_eq_zero_iff.mp (by omega : buf.length = 0),
        List.nil_append]

/-! ## 4. Exact copies -/

/-- The stream is written; it is returned if it has at most `maxSize` bytes. -/
def CopiesExactly (maxSize : Int) (pieces : List Bytes) : Prop :=
  copyStreamAndReturnIfSmall { pieces := pieces, exception := none } maxSize =
    { out := pieces.flatten
      result := .ok (if maxSize < pieces.flatten.length then none else some pieces.flatten) }

/-- The stream has at most `maxSize` bytes; or the counter ends in a range where it is negative,
and has not let too much into the array before. -/
def Fits (maxSize : Int) (pieces : List Bytes) : Prop :=
  pieces.flatten.length ≤ maxSize ∨
    ((pieces.flatten.length - maxSize - 1) % 4294967296 < 2147483648 ∧
      kept maxSize 0 (pieces.map List.length) ≤ maxArrayLength)

variable {maxSize bufferSize : Int} {pieces : List Bytes}

/-- **The copy is exact if and only if the stream fits.** -/
theorem copiesExactly_iff (h0 : 0 ≤ maxSize) (hmax : maxSize < 2147483648)
    (hpieces : ∀ p ∈ pieces, 0 < p.length) : CopiesExactly maxSize pieces ↔
      Fits maxSize pieces := by
  have hstart : maxSize = left maxSize ([] : Bytes).length := by
    rw [List.length_nil, left_of_le (by omega) hmax]
    omega
  have hsum : (pieces.map List.length).sum = pieces.flatten.length := List.length_flatten.symm
  have hneg := left_neg_iff maxSize pieces.flatten.length
  unfold CopiesExactly Fits copyStreamAndReturnIfSmall
  by_cases hkept : (kept maxSize 0 (pieces.map List.length) : Int) ≤ maxArrayLength
  · obtain ⟨smallCache, hloop, hsmall⟩ := copyLoop_fits maxSize hpieces
      { out := [], smallCache := [], maxLeftToBuffer := maxSize } hstart
      (by rw [← Int.zero_add (kept _ _ _ : Int)] at hkept; exact hkept)
    rw [List.nil_append] at hloop hsmall
    rw [hloop, Copied.mk.injEq]
    by_cases hle : (pieces.flatten.length : Int) ≤ maxSize
    · have hpos : 0 ≤ left maxSize pieces.flatten.length := by
        rw [left_of_le hle hmax]
        omega
      rw [if_pos hpos, if_neg (by omega), hsmall hle hmax]
      exact ⟨fun _ => .inl hle, fun _ => ⟨rfl, rfl⟩⟩
    · rw [or_iff_right hle, ← hneg, if_pos (by omega : maxSize < pieces.flatten.length)]
      constructor
      · rintro ⟨_, hresult⟩
        refine ⟨?_, hkept⟩
        by_contra hpos
        rw [if_pos (by omega)] at hresult
        cases hresult
      · rintro ⟨hlt, _⟩
        rw [if_neg (by omega)]
        exact ⟨rfl, rfl⟩
  · have hloop := copyLoop_overflows maxSize hpieces
      { out := [], smallCache := [], maxLeftToBuffer := maxSize } hstart
      (Int.zero_le_ofNat 2147483647)
      (by rw [← Int.zero_add (kept _ _ _ : Int)] at hkept; exact Int.not_le.mp hkept)
    constructor
    · intro h
      rw [h] at hloop
      cases hloop
    · rintro (hle | ⟨_, h⟩)
      · rw [kept_of_le hmax (by rw [hsum]; omega), hsum] at hkept
        exact absurd (by unfold maxArrayLength; omega) hkept
      · exact absurd h hkept

end HdfStream.Webapp
