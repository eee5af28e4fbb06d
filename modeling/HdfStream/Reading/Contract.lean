/-
# When a `DataStream` honours the contract of `InputStream`

`Source` is a stream as its reader sees it: the bytes that are still to come, and how it ends.
`Meets` says what a call may return and what is left after it, whichever way the bytes went.

`read(b)` and `read(b, off, len)` meet the contract in every mix.  `read()` does not: it ignores
what `read(b)` returns, and gives back the byte of its array with a sign.  So a byte from 128 on
is negative (255 is -1, the end of the stream), and the end of the stream is the byte 0.
`dataStream_honours_iff` says which sequences of calls meet the contract.
-/
import HdfStream.Reading.Model
import Mathlib.Data.List.TakeDrop

namespace HdfStream.Reading

open Java

/-! ## 1. The contract -/

/-- Where a reader is in a stream. -/
inductive Phase where
  /-- There may be more bytes. -/
  | reading
  /-- The end was reached, and it was successful. -/
  | ended
  /-- The stream was closed before that, or its end was a failure. -/
  | closed
deriving DecidableEq

/-- A stream as its reader sees it. -/
structure Source where
  rest : Bytes
  success : Bool
  phase : Phase

/-- A new stream. -/
def Source.new (chunks : List Bytes) (success : Bool) : Source where
  rest := chunks.flatten
  success := success
  phase := .reading

/-- The array of a call and the room in it. -/
def Call.room : Call → Option (Bytes × Int × Int)
  | .readAll b => some (b, 0, b.length)
  | .readAt b off len => some (b, off, len)
  | .read | .close => none

/-- An array to which bytes are written from `off` on. -/
def written (b : Bytes) (off : Nat) (bytes : Bytes) : Bytes :=
  b.take off ++ bytes ++ b.drop (off + bytes.length)

/-- What a call returns, and the stream after it. -/
inductive Meets (src : Source) : Call → Bytes → Except Thrown Int → Source → Prop where
  /-- The next bytes, at least one and not more than there is room for. -/
  | deliver {call : Call} {b : Bytes} {off len : Int} {n : Nat}
      (hroom : call.room = some (b, off, len)) (hphase : src.phase = .reading) (hpos : 0 < n)
      (hlen : n ≤ len) (hrest : n ≤ src.rest.length) :
      Meets src call (written b off.toNat (src.rest.take n)) (.ok n)
        { src with rest := src.rest.drop n }
  /-- The next byte, as a value from 0 to 255. -/
  | deliverByte {x : UInt8} {rest b : Bytes} (hphase : src.phase = .reading)
      (hrest : src.rest = x :: rest) : Meets src .read b (.ok x.toNat) { src with rest := rest }
  /-- At a successful end, and on every later call. -/
  | atEnd {call : Call} {b : Bytes} (hcall : call ≠ .close)
      (hroom : ∀ r, call.room = some r → b = r.1)
      (hend : src.phase = .ended ∨ src.phase = .reading ∧ src.rest = [] ∧ src.success = true) :
      Meets src call b (.ok (-1)) { src with phase := .ended }
  /-- At a failed end. -/
  | failed {call : Call} {b : Bytes} (message : String) (hcall : call ≠ .close)
      (hphase : src.phase = .reading) (hrest : src.rest = []) (hfailed : src.success = false) :
      Meets src call b (.error (.io message)) { src with phase := .closed }
  /-- After a failed end, or after `close`. -/
  | afterClose {call : Call} {b : Bytes} (message : String) (hcall : call ≠ .close)
      (hphase : src.phase = .closed) : Meets src call b (.error (.io message)) src
  /-- `close`. -/
  | close (b : Bytes) (result : Except Thrown Int) :
      Meets src .close b result
        { src with phase := if src.phase = .ended then .ended else .closed }

/-- The native stream is freed and the reference is released, once, at the end or by `close`. -/
def Accounted (src : Source) (ds : DataStream) : Prop :=
  ds.native.frees = (if src.phase = .reading then 0 else 1) ∧
    ds.released = if src.phase = .reading then 0 else 1

/-- All calls meet the contract, one after the other. -/
inductive Honours : Source → List (Call × Returned) → Prop where
  | nil (src : Source) : Honours src []
  | cons {src src' : Source} {call : Call} {r : Returned} {calls : List (Call × Returned)}
      (hcall : Meets src call r.b r.result src') (haccounted : Accounted src' r.stream)
      (hcalls : Honours src' calls) : Honours src ((call, r) :: calls)

/-! ## 2. The condition -/

/-- The bytes in the buffer that were not delivered. -/
def buffered (ds : DataStream) : Bytes :=
  match ds.streamBuffer with
  | none => []
  | some streamBuffer =>
    (streamBuffer.take ds.bufferedBytes.toNat).drop ds.bufferOffset.toNat

/-- The bytes that were not delivered. -/
def undelivered (ds : DataStream) : Bytes := buffered ds ++ ds.native.chunks.flatten

/-- The stream is closed, or its buffer has a size that an array can have. -/
def Sized (ds : DataStream) : Prop := ds.closed = true ∨ ds.streamBufsize < 2 ^ 31

/-- The next byte is not negative as a `byte`; at the end of the bytes there is a failure. -/
def PlainByte (ds : DataStream) : Prop :=
  match undelivered ds with
  | [] => ds.native.success = false
  | x :: _ => x < 128

theorem plainByte_nil {ds : DataStream} (h : undelivered ds = []) :
    PlainByte ds ↔ ds.native.success = false := by
  unfold PlainByte
  simp only [h]

theorem plainByte_cons {ds : DataStream} {x : UInt8} {rest : Bytes}
    (h : undelivered ds = x :: rest) : PlainByte ds ↔ x < 128 := by
  unfold PlainByte
  simp only [h]

instance (ds : DataStream) : Decidable (PlainByte ds) :=
  match h : undelivered ds with
  | [] => decidable_of_iff _ (plainByte_nil h).symm
  | _ :: _ => decidable_of_iff _ (plainByte_cons h).symm

/-- The condition on a call. -/
def CallOk (ds : DataStream) : Call → Prop
  | .close => True
  | .readAll _ | .readAt _ _ _ => Sized ds
  | .read => Sized ds ∧ ds.endOfStream = false ∧ (ds.closed = false → PlainByte ds)

/-- The condition on one call after the other. -/
def CallsOk (ds : DataStream) : List Call → Prop
  | [] => True
  | call :: calls => CallOk ds call ∧ CallsOk (exec ds call).stream calls

instance (ds : DataStream) : Decidable (Sized ds) := inferInstanceAs (Decidable (_ ∨ _))

instance (ds : DataStream) : (call : Call) → Decidable (CallOk ds call)
  | .close => isTrue trivial
  | .readAll _ | .readAt _ _ _ => inferInstanceAs (Decidable (Sized ds))
  | .read => inferInstanceAs (Decidable (_ ∧ _))

instance CallsOk.decidable (ds : DataStream) : (calls : List Call) → Decidable (CallsOk ds calls)
  | [] => isTrue trivial
  | call :: calls =>
    have := CallsOk.decidable (exec ds call).stream calls
    inferInstanceAs (Decidable (_ ∧ _))

/-! ## 3. The loop that copies -/

/-- One byte, and then more. -/
theorem written_set {b : Bytes} {k : Nat} (hk : k < b.length) (x : UInt8) (bytes : Bytes) :
    written (b.set k x) (k + 1) bytes = written b k (x :: bytes) := by
  have htake : (b.set k x).take (k + 1) = b.take k ++ [x] := by
    rw [List.take_succ_eq_append_getElem (by rw [List.length_set]; exact hk), List.getElem_set_self,
      List.take_set_of_le (Nat.le_refl k)]
  rw [written, written, htake, List.drop_set_of_lt (by omega), List.length_cons, List.append_assoc,
    List.append_assoc, List.append_assoc, List.singleton_append, List.cons_append,
    Nat.add_right_comm, Nat.add_assoc]

theorem copyBytes_eq (buf b : Bytes) (bo off n i : Nat) (hbuf : bo + i + n ≤ buf.length)
    (hb : off + i + n ≤ b.length) :
    copyBytes buf bo off n i b = .ok (written b (off + i) ((buf.drop (bo + i)).take n)) := by
  induction n generalizing i b with
  | zero => rw [copyBytes, List.take_zero, written, List.append_nil, List.length_nil, Nat.add_zero,
      List.take_append_drop]
  | succ n ih =>
    have hload : load Thrown.indexOutOfBounds buf ((bo : Int) + i) = .ok buf[bo + i] :=
      load_natCast (i := bo + i) _ (by omega)
    have hstore : store Thrown.indexOutOfBounds b ((off : Int) + i) buf[bo + i] =
        .ok (b.set (off + i) buf[bo + i]) := by
      rw [store, if_neg (by omega)]
      rfl
    have hnext := ih (b.set (off + i) buf[bo + i]) (i + 1) (by omega)
      (by rw [List.length_set]; omega)
    rw [copyBytes, hload]
    dsimp only
    rw [hstore]
    dsimp only
    rw [List.drop_eq_getElem_cons (by omega), List.take_succ_cons,
      ← written_set (by omega) buf[bo + i]]
    exact hnext

/-! ## 4. The invariant -/

/-- What is delivered is what the reader waits for. -/
structure Tracks (ds : DataStream) (src : Source) : Prop where
  rest : src.phase = .reading → src.rest = undelivered ds
  success : src.success = ds.native.success
  reading : src.phase = .reading ↔ ds.closed = false
  ended : src.phase = .ended ↔ ds.endOfStream = true
  accounted : Accounted src ds
  bufsize : 0 < ds.streamBufsize
  chunks : ∀ chunk ∈ ds.native.chunks, 0 < chunk.length ∧ chunk.length ≤ ds.streamBufsize
  offset : 0 ≤ ds.bufferOffset ∧ ds.bufferOffset ≤ ds.bufferedBytes
  unallocated : ds.streamBuffer = none → ds.bufferedBytes = 0
  allocated : ∀ buf, ds.streamBuffer = some buf →
    buf.length = ds.streamBufsize ∧ ds.bufferedBytes ≤ buf.length ∧ ds.streamBufsize < 2 ^ 31

variable {ds : DataStream} {src : Source} {b buf : Bytes} {off len : Int}

theorem Tracks.init {chunks : List Bytes} {bufsize : Int} (hbufsize : 0 < bufsize)
    (h : ∀ chunk ∈ chunks, 0 < chunk.length ∧ chunk.length ≤ bufsize) (success : Bool) :
    Tracks (.new chunks success bufsize) (.new chunks success) where
  rest := fun _ => rfl
  success := rfl
  reading := ⟨fun _ => rfl, fun _ => rfl⟩
  ended := ⟨fun h => (by cases h), fun h => (by cases h)⟩
  accounted := ⟨rfl, rfl⟩
  bufsize := hbufsize
  chunks := h
  offset := ⟨Int.le_refl 0, Int.le_refl 0⟩
  unallocated := fun _ => rfl
  allocated := fun _ h => by cases h

/-- The stream is closed, at its end or before. -/
theorem Tracks.close (h : Tracks ds src) (hopen : ds.closed = false) (phase : Phase)
    (hphase : phase ≠ .reading) :
    Tracks (close { ds with endOfStream := phase = .ended }) { src with phase := phase } := by
  have hend : src.phase = .reading := h.reading.mpr hopen
  obtain ⟨hfrees, hreleased⟩ := h.accounted
  rw [if_pos hend] at hfrees hreleased
  rw [Reading.close, if_neg (by rw [hopen]; exact Bool.false_ne_true)]
  refine ⟨fun hp => absurd hp hphase, h.success,
    ⟨fun hp => absurd hp hphase, fun hp => by cases hp⟩, decide_eq_true_iff.symm, ⟨?_, ?_⟩,
      h.bufsize, h.chunks, h.offset, h.unallocated, h.allocated⟩
  · rw [if_neg hphase]
    exact congrArg (· + 1) hfrees
  · rw [if_neg hphase]
    exact congrArg (· + 1) hreleased

/-! ## 5. A call that reads -/

/-- What `read` has done to an open stream. -/
inductive Outcome (src : Source) (b : Bytes) (off len : Int) (r : Returned) : Prop where
  | deliver {n : Nat} (hpos : 0 < n) (hlen : n ≤ len) (hrest : n ≤ src.rest.length)
      (hb : r.b = written b off.toNat (src.rest.take n)) (hresult : r.result = .ok n)
      (htracks : Tracks r.stream { src with rest := src.rest.drop n })
  | ended (hrest : src.rest = []) (hsuccess : src.success = true) (hb : r.b = b)
      (hresult : r.result = .ok (-1)) (htracks : Tracks r.stream { src with phase := .ended })
  | failed (hrest : src.rest = []) (hfailed : src.success = false)
      (hresult : r.result = .error (.io "Unable to read data stream"))
      (htracks : Tracks r.stream { src with phase := .closed })

/-- `readChunk` with a chunk. -/
theorem readChunk_cons {chunk : Bytes} {chunks : List Bytes}
    (h : ds.native.chunks = chunk :: chunks) (hpos : 0 < chunk.length)
      (hroom : ds.streamBufsize ≤ buf.length) :
    readChunk ds buf =
      { stream := { ds with native := { ds.native with chunks := chunks } }
        b := chunk ++ buf.drop chunk.length
        result := .ok chunk.length } := by
  rw [readChunk, if_neg (Int.not_lt.mpr hroom), cReadChunk, h]
  dsimp only
  rw [if_neg (by omega), if_neg (by omega)]

/-- `readChunk` at the end. -/
theorem readChunk_nil (h : ds.native.chunks = []) (hroom : ds.streamBufsize ≤ buf.length) :
    readChunk ds buf =
      if ds.native.success then
        { stream := close { ds with endOfStream := true }, b := buf, result := .ok (-1) }
      else
        { stream := close ds, b := buf, result := .error (.io "Unable to read data stream") } := by
  rw [readChunk, if_neg (Int.not_lt.mpr hroom), cReadChunk, h]
  cases ds.native.success with
  | false => rfl
  | true => rfl

theorem Tracks.endOfStream_eq (h : Tracks ds src) (hopen : ds.closed = false) :
    ds.endOfStream = false := by
  rw [← Bool.not_eq_true, ← h.ended, h.reading.mpr hopen]
  exact fun hn => by cases hn

/-- An open stream is closed before its end. -/
theorem Tracks.closeEarly (h : Tracks ds src) (hopen : ds.closed = false) :
    Tracks (Reading.close ds) { src with phase := .closed } := by
  have hclose := h.close hopen .closed (by decide)
  have hsame : { ds with endOfStream := decide (Phase.closed = .ended) } = ds := by
    rw [show decide (Phase.closed = .ended) = ds.endOfStream from (h.endOfStream_eq hopen).symm]
  rwa [hsame] at hclose

/-- At the end of an open stream. -/
theorem Tracks.atEnd (h : Tracks ds src) (hopen : ds.closed = false) (hbuffered : buffered ds = [])
    (hchunks : ds.native.chunks = []) :
    src.rest = [] ∧
      Tracks (Reading.close { ds with endOfStream := true }) { src with phase := .ended } ∧
      Tracks (Reading.close ds) { src with phase := .closed } := by
  refine ⟨?_, h.close hopen .ended (by decide), h.closeEarly hopen⟩
  rw [h.rest (h.reading.mpr hopen), undelivered, hbuffered, hchunks]
  rfl

/-- Bytes that are in the buffer. -/
theorem Tracks.readBuffered (h : Tracks ds src) (hopen : ds.closed = false)
    (hbuf : ds.streamBuffer = some buf) (hdata : ds.bufferOffset < ds.bufferedBytes)
    (hoff : 0 ≤ off) (hlen : 0 < len) (hroom : off + len ≤ b.length) :
    Outcome src b off len (readBuffered ds buf b off len) := by
  have hphase := h.reading.mpr hopen
  have hoffset := h.offset
  have hle := (h.allocated buf hbuf).2.1
  have hrest : src.rest =
      (buf.take ds.bufferedBytes.toNat).drop ds.bufferOffset.toNat ++ ds.native.chunks.flatten := by
    rw [h.rest hphase, undelivered, buffered, hbuf]
  have hlength : ((buf.take ds.bufferedBytes.toNat).drop ds.bufferOffset.toNat).length =
      ds.bufferedBytes.toNat - ds.bufferOffset.toNat := by
    rw [List.length_drop, List.length_take, Nat.min_eq_left (by omega)]
  -- the number of bytes
  obtain ⟨n, hn, hpos, hnlen, hnbuf⟩ : ∃ n : Nat,
      (if len < ds.bufferedBytes - ds.bufferOffset then len
        else ds.bufferedBytes - ds.bufferOffset) = n ∧
      0 < n ∧ (n : Int) ≤ len ∧ n ≤ ds.bufferedBytes.toNat - ds.bufferOffset.toNat := by
    by_cases hlt : len < ds.bufferedBytes - ds.bufferOffset
    · exact ⟨len.toNat, by rw [if_pos hlt]; omega, by omega, by omega, by omega⟩
    · exact ⟨(ds.bufferedBytes - ds.bufferOffset).toNat, by rw [if_neg hlt]; omega, by omega,
        by omega, by omega⟩
  have hcopy : copyBytes buf ds.bufferOffset off n 0 b =
      .ok (written b off.toNat (src.rest.take n)) := by
    have hcopy := copyBytes_eq buf b ds.bufferOffset.toNat off.toNat n 0 (by omega) (by omega)
    rw [Int.toNat_of_nonneg hoffset.1, Int.toNat_of_nonneg hoff] at hcopy
    rw [hrest, List.take_append_of_le_length (by rw [hlength]; exact hnbuf), List.drop_take,
      List.take_take, Nat.min_eq_left hnbuf]
    exact hcopy
  have hreturned : Reading.readBuffered ds buf b off len =
      { stream := { ds with bufferOffset := ds.bufferOffset + n }
        b := written b off.toNat (src.rest.take n)
        result := .ok n } := by
    rw [Reading.readBuffered, hn, Int.toNat_natCast, hcopy]
  rw [hreturned]
  refine .deliver hpos hnlen ?_ rfl rfl ?_
  · rw [hrest, List.length_append, hlength]
    omega
  · refine ⟨fun _ => ?_, h.success, h.reading, h.ended, h.accounted, h.bufsize, h.chunks,
      ?_, ?_, h.allocated⟩
    · have hsum : (ds.bufferOffset + n).toNat = ds.bufferOffset.toNat + n := by omega
      dsimp only
      rw [undelivered, buffered, hbuf, hrest, List.drop_append_of_le_length (by omega),
        List.drop_drop]
      dsimp only
      rw [hsum]
    · dsimp only
      omega
    · exact fun hnone => by rw [hbuf] at hnone; cases hnone

/-- `read` with an allocated buffer. -/
theorem Tracks.readThrough (h : Tracks ds src) (hopen : ds.closed = false)
    (hsize : ds.streamBufsize < 2 ^ 31) (hbuf : ds.streamBuffer = some buf) (hoff : 0 ≤ off)
    (hlen : 0 < len) (hroom : off + len ≤ b.length) :
    Outcome src b off len (readThrough ds buf b off len) := by
  rw [Reading.readThrough]
  by_cases hdata : ds.bufferOffset < ds.bufferedBytes
  · rw [if_neg (Int.not_le.mpr hdata)]
    exact h.readBuffered hopen hbuf hdata hoff hlen hroom
  · rw [if_pos (Int.not_lt.mp hdata)]
    have hlength := (h.allocated buf hbuf).1
    have hempty : buffered ds = [] := by
      rw [buffered, hbuf, List.drop_eq_nil_iff, List.length_take]
      omega
    rcases hchunks : ds.native.chunks with _ | ⟨chunk, chunks⟩
    · obtain ⟨hrest, hend, hfail⟩ := h.atEnd hopen hempty hchunks
      rw [readChunk_nil hchunks (Int.le_of_eq hlength.symm), ← h.success]
      rcases hsuccess : src.success with _ | _
      · refine .failed hrest hsuccess rfl ?_
        have hsame : { Reading.close ds with streamBuffer := some buf } = Reading.close ds := by
          rw [Reading.close, if_neg (by rw [hopen]; exact Bool.false_ne_true), ← hbuf]
        exact hsame ▸ hfail
      · refine .ended hrest hsuccess rfl rfl ?_
        have hsame : { Reading.close { ds with endOfStream := true } with
            streamBuffer := some buf } = Reading.close { ds with endOfStream := true } := by
          rw [Reading.close, if_neg (by rw [hopen]; exact Bool.false_ne_true), ← hbuf]
        exact hsame ▸ hend
    · obtain ⟨hpos, hle⟩ := h.chunks chunk (by rw [hchunks]; exact List.mem_cons_self)
      rw [readChunk_cons hchunks hpos (Int.le_of_eq hlength.symm)]
      dsimp only
      rw [wrapInt_eq (by omega) (by omega), if_neg (by omega)]
      have hlength' : ((chunk ++ buf.drop chunk.length).length : Int) = ds.streamBufsize := by
        rw [List.length_append, List.length_drop]
        omega
      -- the chunk is in the buffer
      refine Tracks.readBuffered ⟨fun hphase => ?_, h.success, h.reading, h.ended, h.accounted,
        h.bufsize, fun c hc => h.chunks c (by rw [hchunks]; exact List.mem_cons_of_mem _ hc),
        ?_, ?_, ?_⟩ hopen rfl ?_ hoff hlen hroom
      · rw [h.rest hphase, undelivered, undelivered, hempty, hchunks, buffered, List.nil_append,
          List.flatten_cons]
        dsimp only
        rw [Int.toNat_natCast, Int.toNat_zero, List.drop_zero, List.take_left']
        rfl
      · dsimp only
        omega
      · exact fun hnone => by cases hnone
      · rintro _ ⟨⟩
        refine ⟨hlength', ?_, hsize⟩
        dsimp only
        omega
      · dsimp only
        omega

/-- **`read` of an open stream.** -/
theorem Tracks.readAt (h : Tracks ds src) (hopen : ds.closed = false)
    (hsize : ds.streamBufsize < 2 ^ 31) (hoff : 0 ≤ off) (hlen : 0 < len)
    (hroom : off + len ≤ b.length) : Outcome src b off len (readAt false ds b off len) := by
  have hphase := h.reading.mpr hopen
  have hend := h.endOfStream_eq hopen
  rw [Reading.readAt, if_neg Bool.false_ne_true, if_neg (by rw [hend]; exact Bool.false_ne_true),
    if_neg (by rw [hopen]; exact Bool.false_ne_true)]
  by_cases hdirect : ds.streamBuffer = none ∧ ds.streamBufsize ≤ b.length ∧ off = 0 ∧
      ds.streamBufsize ≤ len
  · -- received directly
    rw [if_pos hdirect]
    obtain ⟨hnone, hb, rfl, hlen'⟩ := hdirect
    have hempty : buffered ds = [] := by rw [buffered, hnone]
    rcases hchunks : ds.native.chunks with _ | ⟨chunk, chunks⟩
    · obtain ⟨hrest, hend, hfail⟩ := h.atEnd hopen hempty hchunks
      rw [readChunk_nil hchunks hb, ← h.success]
      rcases hsuccess : src.success with _ | _
      · exact .failed hrest hsuccess rfl hfail
      · exact .ended hrest hsuccess rfl rfl hend
    · obtain ⟨hpos, hle⟩ := h.chunks chunk (by rw [hchunks]; exact List.mem_cons_self)
      have hrest : src.rest = chunk ++ chunks.flatten := by
        rw [h.rest hphase, undelivered, hempty, hchunks, List.nil_append, List.flatten_cons]
      rw [readChunk_cons hchunks hpos hb]
      refine .deliver hpos (by omega) ?_ ?_ ?_ ⟨fun _ => ?_, h.success, h.reading, h.ended,
        h.accounted, h.bufsize,
        fun c hc => h.chunks c (by rw [hchunks]; exact List.mem_cons_of_mem _ hc), h.offset,
        h.unallocated, h.allocated⟩
      · rw [hrest, List.length_append]
        omega
      · rw [hrest, List.take_left, written, Int.toNat_zero, List.take_zero, List.nil_append,
          Nat.zero_add]
      · dsimp only [Except.map]
        rw [wrapInt_eq (by omega) (by omega)]
      · dsimp only
        rw [hrest, List.drop_left, undelivered, buffered, hnone, List.nil_append]
  · rw [if_neg hdirect]
    rcases hbuf : ds.streamBuffer with _ | buf
    · -- the buffer is allocated
      have hpos := h.bufsize
      have hbuffered := h.unallocated hbuf
      dsimp only
      rw [wrapInt_eq (by omega) hsize, if_neg (by omega)]
      refine Tracks.readThrough ⟨fun hphase => ?_, h.success, h.reading, h.ended, h.accounted,
        h.bufsize, h.chunks, h.offset, fun hnone => absurd hnone (Option.some_ne_none _), ?_⟩
        hopen hsize rfl hoff hlen hroom
      · have hoffset := h.offset
        rw [h.rest hphase, undelivered, undelivered, buffered, buffered, hbuf]
        dsimp only
        rw [hbuffered, Int.toNat_zero, List.take_zero, List.drop_nil]
      · rintro _ ⟨⟩
        rw [List.length_replicate, hbuffered]
        exact ⟨Int.toNat_of_nonneg (Int.le_of_lt hpos), Int.natCast_nonneg _, hsize⟩
    · exact h.readThrough hopen hsize hbuf hoff hlen hroom

/-- `read` after the end. -/
theorem readAt_ended (h : ds.endOfStream = true) (b : Bytes) (off len : Int) :
    readAt false ds b off len = { stream := ds, b := b, result := .ok (-1) } := by
  rw [readAt, if_neg Bool.false_ne_true, if_pos h]

/-- `read` of a stream that was closed before the end. -/
theorem readAt_closed (h : ds.endOfStream = false) (hclosed : ds.closed = true) (b : Bytes)
    (off len : Int) :
    readAt false ds b off len =
      { stream := ds
        b := b
        result := .error (.io "Attempt to read from closed stream!") } := by
  rw [readAt, if_neg Bool.false_ne_true, if_neg (by rw [h]; exact Bool.false_ne_true),
    if_pos hclosed]

/-- `read` with a buffer for which there is no array. -/
theorem Tracks.readAt_oversized (h : Tracks ds src) (hopen : ds.closed = false)
    (hsize : ¬ ds.streamBufsize < 2 ^ 31) (hb : b.length < 2 ^ 31) (off len : Int) :
    ∃ e, (Reading.readAt false ds b off len).result = .error e ∧
      (Reading.readAt false ds b off len).stream.native.frees = 0 := by
  have hphase := h.reading.mpr hopen
  have hend := h.endOfStream_eq hopen
  have hfrees := h.accounted.1
  rw [if_pos hphase] at hfrees
  rw [Reading.readAt, if_neg Bool.false_ne_true, if_neg (by rw [hend]; exact Bool.false_ne_true),
    if_neg (by rw [hopen]; exact Bool.false_ne_true), if_neg (fun hn => by omega)]
  rcases hbuf : ds.streamBuffer with _ | buf
  · dsimp only
    by_cases hneg : wrapInt ds.streamBufsize < 0
    · rw [if_pos hneg]
      exact ⟨_, rfl, hfrees⟩
    · have hsmall : wrapInt ds.streamBufsize < 2 ^ 31 := Int.bmod_lt (by decide)
      have hbuffered := h.unallocated hbuf
      have hoffset := h.offset
      have hroom : ((List.replicate (wrapInt ds.streamBufsize).toNat (0 : UInt8)).length : Int) <
          ds.streamBufsize := by
        rw [List.length_replicate]
        omega
      rw [if_neg hneg, Reading.readThrough]
      dsimp only
      rw [if_pos (by omega), readChunk, if_pos hroom]
      exact ⟨_, rfl, hfrees⟩
  · exact absurd (h.allocated buf hbuf).2.2 hsize

/-! ## 6. One call -/

/-- What a call returns says what is left. -/
theorem Meets.unique {call : Call} {b₁ b₂ : Bytes} {r₁ r₂ : Except Thrown Int} {src₁ src₂ : Source}
    (h₁ : Meets src call b₁ r₁ src₁) (h₂ : Meets src call b₂ r₂ src₂) (hr : r₁ = r₂) :
    src₁ = src₂ := by
  cases h₁ with
  | deliver hroom hphase hpos hlen hrest =>
    cases h₂ with
    | deliver => cases hr; rfl
    | deliverByte => cases hroom
    | atEnd => cases hr
    | failed => cases hr
    | afterClose => cases hr
    | close => cases hroom
  | deliverByte hphase hrest =>
    cases h₂ with
    | deliver hroom => cases hroom
    | deliverByte _ hrest' => rw [hrest] at hrest'; cases hrest'; rfl
    | atEnd => cases hr
    | failed => cases hr
    | afterClose => cases hr
  | atEnd hcall =>
    cases h₂ with
    | deliver => cases hr
    | deliverByte => cases hr
    | atEnd => rfl
    | failed => cases hr
    | afterClose => cases hr
    | close => exact absurd rfl hcall
  | failed _ hcall hphase =>
    cases h₂ with
    | deliver => cases hr
    | deliverByte => cases hr
    | atEnd => cases hr
    | failed => rfl
    | afterClose _ _ hphase' => rw [hphase] at hphase'; cases hphase'
    | close => exact absurd rfl hcall
  | afterClose _ hcall hphase =>
    cases h₂ with
    | deliver => cases hr
    | deliverByte => cases hr
    | atEnd => cases hr
    | failed _ _ hphase' => rw [hphase] at hphase'; cases hphase'
    | afterClose => rfl
    | close => exact absurd rfl hcall
  | close =>
    cases h₂ with
    | deliver hroom => cases hroom
    | atEnd hcall => exact absurd rfl hcall
    | failed _ hcall => exact absurd rfl hcall
    | afterClose _ hcall => exact absurd rfl hcall
    | close => rfl

/-- A call that reads, of a stream with a buffer. -/
theorem Tracks.meets_readAt (h : Tracks ds src) (hsized : Sized ds) {call : Call}
    (hcall : call.room = some (b, off, len)) (hoff : 0 ≤ off) (hlen : 0 < len)
    (hroom : off + len ≤ b.length) :
    ∃ src', Meets src call (Reading.readAt false ds b off len).b
        (Reading.readAt false ds b off len).result src' ∧
      Tracks (Reading.readAt false ds b off len).stream src' := by
  have hne : call ≠ .close := by
    rintro rfl
    cases hcall
  have hsame : ∀ r, call.room = some r → b = r.1 := by
    intro r hr
    rw [hcall] at hr
    cases hr
    rfl
  rcases hclosed : ds.closed with _ | _
  · have hphase := h.reading.mpr hclosed
    have hsize := hsized.resolve_left (by rw [hclosed]; exact Bool.false_ne_true)
    cases h.readAt hclosed hsize hoff hlen hroom with
    | deliver hpos hlen hrest hb hresult htracks =>
      rw [hb, hresult]
      exact ⟨_, .deliver hcall hphase hpos hlen hrest, htracks⟩
    | ended hrest hsuccess hb hresult htracks =>
      rw [hb, hresult]
      exact ⟨_, .atEnd hne hsame (.inr ⟨hphase, hrest, hsuccess⟩), htracks⟩
    | failed hrest hfailed hresult htracks =>
      rw [hresult]
      exact ⟨_, .failed _ hne hphase hrest hfailed, htracks⟩
  · have hphase : src.phase ≠ .reading := fun hn => by
      rw [h.reading.mp hn] at hclosed
      cases hclosed
    rcases hend : ds.endOfStream with _ | _
    · rw [readAt_closed hend hclosed]
      refine ⟨_, .afterClose _ hne ?_, h⟩
      rcases hp : src.phase with _ | _ | _
      · exact absurd hp hphase
      · rw [h.ended.mp hp] at hend
        cases hend
      · rfl
    · rw [readAt_ended hend]
      have hp := h.ended.mpr hend
      refine ⟨_, .atEnd hne hsame (.inl hp), ?_⟩
      rw [← hp]
      exact h

/-! ## 7. `read()` -/

theorem byteToInt_of_lt {x : UInt8} (h : x < 128) : byteToInt x = x.toNat := by
  have hlt := UInt8.lt_iff_toNat_lt.mp h
  rw [show (128 : UInt8).toNat = 128 by decide] at hlt
  unfold byteToInt
  rw [Int.bmod_eq_of_le] <;> omega

theorem byteToInt_neg {x : UInt8} (h : ¬ x < 128) : byteToInt x < 0 := by
  have hle := Nat.not_lt.mp (mt UInt8.lt_iff_toNat_lt.mpr h)
  rw [show (128 : UInt8).toNat = 128 by decide] at hle
  have hlt := x.toNat_lt
  unfold byteToInt
  rw [Int.bmod_eq_emod]
  split <;> omega

theorem read_error {e : Thrown} (h : (readAt false ds [0] 0 1).result = .error e) :
    (read false ds).result = .error e ∧
      (read false ds).stream = (readAt false ds [0] 0 1).stream := by
  have hall : readAll false ds [0] = readAt false ds [0] 0 1 := rfl
  rw [read, hall, h]
  exact ⟨rfl, rfl⟩

theorem read_ok {n : Int} (h : (readAt false ds [0] 0 1).result = .ok n) {x : UInt8}
    (hb : (readAt false ds [0] 0 1).b = [x]) :
    (read false ds).result = .ok (byteToInt x) ∧
      (read false ds).stream = (readAt false ds [0] 0 1).stream := by
  have hall : readAll false ds [0] = readAt false ds [0] 0 1 := rfl
  rw [read, hall, h, hb]
  exact ⟨rfl, rfl⟩

/-- What `read()` has done to an open stream. -/
inductive ByteOutcome (src : Source) (r : Returned) : Prop where
  | deliver {x : UInt8} {rest : Bytes} (hrest : src.rest = x :: rest)
      (hresult : r.result = .ok (byteToInt x)) (htracks : Tracks r.stream { src with rest := rest })
  | ended (hrest : src.rest = []) (hsuccess : src.success = true) (hresult : r.result = .ok 0)
  | failed (hrest : src.rest = []) (hfailed : src.success = false)
      (hresult : r.result = .error (.io "Unable to read data stream"))
      (htracks : Tracks r.stream { src with phase := .closed })

/-- `read()` of an open stream: at the end it returns 0. -/
theorem Tracks.read (h : Tracks ds src) (hopen : ds.closed = false)
    (hsize : ds.streamBufsize < 2 ^ 31) : ByteOutcome src (Reading.read false ds) := by
  have hread : Outcome src [0] 0 1 (Reading.readAt false ds [0] 0 1) :=
    h.readAt hopen hsize (by decide) (by decide) (by decide)
  cases hread with
  | @deliver n hpos hlen hrest hb hresult htracks =>
    obtain rfl : n = 1 := by omega
    rcases hsrc : src.rest with _ | ⟨x, rest⟩
    · rw [hsrc] at hrest
      exact absurd hrest (by decide)
    · rw [hsrc] at hb htracks
      obtain ⟨hresult', hstream⟩ := read_ok hresult (x := x) hb
      exact .deliver hsrc hresult' (hstream ▸ htracks)
  | ended hrest hsuccess hb hresult htracks =>
    have hzero : byteToInt 0 = 0 := by decide
    have hresult' := (read_ok hresult (x := 0) hb).1
    rw [hzero] at hresult'
    exact .ended hrest hsuccess hresult'
  | failed hrest hfailed hresult htracks =>
    obtain ⟨hresult', hstream⟩ := read_error hresult
    exact .failed hrest hfailed hresult' (hstream ▸ htracks)

/-- A call of `read()` that is all right. -/
theorem Tracks.meets_read (h : Tracks ds src) (hok : CallOk ds .read) :
    ∃ src', Meets src .read (Reading.read false ds).b (Reading.read false ds).result src' ∧
      Tracks (Reading.read false ds).stream src' := by
  obtain ⟨hsized, hend, hplain⟩ := hok
  rcases hclosed : ds.closed with _ | _
  · have hphase := h.reading.mpr hclosed
    have hsize := hsized.resolve_left (by rw [hclosed]; exact Bool.false_ne_true)
    have hplain := hplain hclosed
    have hrest := h.rest hphase
    cases h.read hclosed hsize with
    | deliver hsrc hresult htracks =>
      rw [plainByte_cons (hrest.symm.trans hsrc)] at hplain
      rw [hresult, byteToInt_of_lt hplain]
      exact ⟨_, .deliverByte hphase hsrc, htracks⟩
    | ended hsrc hsuccess =>
      rw [plainByte_nil (hrest.symm.trans hsrc), ← h.success, hsuccess] at hplain
      cases hplain
    | failed hsrc hfailed hresult htracks =>
      rw [hresult]
      exact ⟨_, .failed _ (fun hn => by cases hn) hphase hsrc hfailed, htracks⟩
  · have hthrown := readAt_closed hend hclosed [0] 0 1
    obtain ⟨hresult, hstream⟩ := read_error (congrArg Returned.result hthrown)
    rw [hresult, hstream, hthrown]
    refine ⟨_, .afterClose _ (fun hn => by cases hn) ?_, h⟩
    rcases hp : src.phase with _ | _ | _
    · rw [h.reading.mp hp] at hclosed
      cases hclosed
    · rw [h.ended.mp hp] at hend
      cases hend
    · rfl

/-- A byte with a sign, or the byte 0 at the end, is not what the reader waits for. -/
theorem Tracks.not_meets_read (h : Tracks ds src) (hplain : ¬ (ds.endOfStream = false ∧
    (ds.closed = false → PlainByte ds))) (hsized : Sized ds) (src' : Source) (b : Bytes) :
    ¬ Meets src .read b (Reading.read false ds).result src' := by
  have hzero : byteToInt 0 = 0 := by decide
  intro hmeets
  rcases hclosed : ds.closed with _ | _
  · have hphase := h.reading.mpr hclosed
    have hsize := hsized.resolve_left (by rw [hclosed]; exact Bool.false_ne_true)
    have hrest := h.rest hphase
    have hend := h.endOfStream_eq hclosed
    have hplain : ¬ PlainByte ds := fun hn => hplain ⟨hend, fun _ => hn⟩
    cases h.read hclosed hsize with
    | @deliver x rest hsrc hresult htracks =>
      rw [plainByte_cons (hrest.symm.trans hsrc)] at hplain
      have hneg := byteToInt_neg hplain
      generalize hr : (Reading.read false ds).result = r at hmeets
      rw [hr] at hresult
      subst hresult
      generalize byteToInt x = v at hmeets hneg
      cases hmeets with
      | deliver hroom => cases hroom
      | deliverByte => omega
      | atEnd _ _ hend =>
        rcases hend with hend | ⟨-, hnil, -⟩
        · rw [hphase] at hend
          cases hend
        · rw [hsrc] at hnil
          cases hnil
    | ended hsrc hsuccess hresult =>
      rw [hresult] at hmeets
      generalize hv : (0 : Int) = v at hmeets
      cases hmeets with
      | deliver hroom => cases hroom
      | deliverByte _ hsrc' =>
        rw [hsrc] at hsrc'
        cases hsrc'
      | atEnd => omega
    | failed hsrc hfailed =>
      rw [plainByte_nil (hrest.symm.trans hsrc), ← h.success] at hplain
      exact hplain hfailed
  · have hend : ds.endOfStream = true := by
      by_contra hn
      rw [Bool.not_eq_true] at hn
      exact hplain ⟨hn, fun hopen => by rw [hopen] at hclosed; cases hclosed⟩
    have hphase := h.ended.mpr hend
    have hthrown := readAt_ended hend [0] 0 1
    have hresult := (read_ok (congrArg Returned.result hthrown) (x := 0)
      (congrArg Returned.b hthrown)).1
    rw [hresult, hzero] at hmeets
    generalize hv : (0 : Int) = v at hmeets
    cases hmeets with
    | deliver hroom => cases hroom
    | deliverByte hphase' =>
      rw [hphase] at hphase'
      cases hphase'
    | atEnd => omega

/-- An exception while the stream is open and its native stream is not freed. -/
theorem Tracks.not_meets_error (h : Tracks ds src) (hopen : ds.closed = false) {call : Call}
    {e : Thrown} {src' : Source} {ds' : DataStream} (hfrees : ds'.native.frees = 0)
    (hcall : call ≠ .close) (hmeets : Meets src call b (.error e) src') : ¬ Accounted src' ds' := by
  have hphase := h.reading.mpr hopen
  intro haccounted
  have hone := haccounted.1
  rw [hfrees] at hone
  cases hmeets with
  | failed => cases hone
  | afterClose _ _ hclosed =>
    rw [hphase] at hclosed
    cases hclosed
  | close => exact hcall rfl

/-! ## 8. One call after the other -/

/-- A call that is all right. -/
theorem Tracks.meets (h : Tracks ds src) {call : Call} (hvalid : call.Valid)
    (hok : CallOk ds call) :
    ∃ src', Meets src call (exec ds call).b (exec ds call).result src' ∧
      Tracks (exec ds call).stream src' := by
  cases call with
  | read => exact h.meets_read hok
  | readAll b =>
    have hroom : (Call.readAll b).room = some (b, 0, (b.length : Int)) := rfl
    have hpos := hvalid.1
    exact h.meets_readAt hok hroom (Int.le_refl 0) (by omega) (by omega)
  | readAt b off len =>
    obtain ⟨hoff, hlen, hroom, -⟩ := hvalid
    exact h.meets_readAt hok rfl hoff hlen hroom
  | close =>
    refine ⟨_, .close _ _, ?_⟩
    rcases hclosed : ds.closed with _ | _
    · have hne : src.phase ≠ .ended := by
        rw [h.reading.mpr hclosed]
        exact fun hn => by cases hn
      rw [if_neg hne]
      exact h.closeEarly hclosed
    · have hsame : (if src.phase = .ended then Phase.ended else .closed) = src.phase := by
        rcases hp : src.phase with _ | _ | _
        · rw [h.reading.mp hp] at hclosed
          cases hclosed
        · rfl
        · rfl
      rw [hsame, exec, Reading.close, if_pos hclosed]
      exact h

/-- A call that is not. -/
theorem Tracks.not_meets (h : Tracks ds src) {call : Call} (hvalid : call.Valid)
    (hok : ¬ CallOk ds call) {src' : Source}
    (hmeets : Meets src call (exec ds call).b (exec ds call).result src') :
    ¬ Accounted src' (exec ds call).stream := by
  have hopen : ¬ Sized ds → ds.closed = false ∧ ¬ ds.streamBufsize < 2 ^ 31 := fun hn =>
    ⟨Bool.eq_false_iff.mpr fun hclosed => hn (.inl hclosed), fun hsize => hn (.inr hsize)⟩
  cases call with
  | read =>
    by_cases hsized : Sized ds
    · exact absurd hmeets (h.not_meets_read (fun hn => hok ⟨hsized, hn⟩) hsized src' _)
    · obtain ⟨hclosed, hsize⟩ := hopen hsized
      obtain ⟨e, he, hfrees⟩ := h.readAt_oversized (b := [0]) hclosed hsize (by decide) 0 1
      obtain ⟨hresult, hstream⟩ := read_error he
      rw [exec, hresult] at hmeets
      rw [← hstream] at hfrees
      exact h.not_meets_error hclosed hfrees (fun hn => by cases hn) hmeets
  | readAll b =>
    obtain ⟨hclosed, hsize⟩ := hopen hok
    obtain ⟨e, he, hfrees⟩ := h.readAt_oversized hclosed hsize hvalid.2 0 b.length
    rw [exec, readAll, he] at hmeets
    exact h.not_meets_error hclosed hfrees (fun hn => by cases hn) hmeets
  | readAt b off len =>
    obtain ⟨hclosed, hsize⟩ := hopen hok
    obtain ⟨e, he, hfrees⟩ := h.readAt_oversized hclosed hsize hvalid.2.2.2 off len
    rw [exec, he] at hmeets
    exact h.not_meets_error hclosed hfrees (fun hn => by cases hn) hmeets
  | close => exact absurd trivial hok

theorem Tracks.honours_iff (h : Tracks ds src) {calls : List Call}
    (hvalid : ∀ call ∈ calls, call.Valid) :
    Honours src (history ds calls) ↔ CallsOk ds calls := by
  induction calls generalizing ds src with
  | nil => exact ⟨fun _ => trivial, fun _ => .nil src⟩
  | cons call calls ih =>
    have hcall := hvalid call List.mem_cons_self
    have hcalls := fun c hc => hvalid c (List.mem_cons_of_mem _ hc)
    constructor
    · intro hhonours
      cases hhonours with
      | cons hmeets haccounted hrest =>
        have hok : CallOk ds call := by
          by_contra hn
          exact h.not_meets hcall hn hmeets haccounted
        obtain ⟨src', hmeets', htracks⟩ := h.meets hcall hok
        rw [hmeets.unique hmeets' rfl] at hrest
        exact ⟨hok, (ih htracks hcalls).mp hrest⟩
    · rintro ⟨hok, hrest⟩
      obtain ⟨src', hmeets, htracks⟩ := h.meets hcall hok
      exact .cons hmeets htracks.accounted ((ih htracks hcalls).mpr hrest)

/-- **A `DataStream` honours the contract of `InputStream`** exactly if `read()` is only called
when the next byte is less than 128, or at a failed end, or after that, and a stream that is read
has a buffer size for which there is an array. -/
theorem dataStream_honours_iff {chunks : List Bytes} {bufsize : Int} (hbufsize : 0 < bufsize)
    (hchunks : ∀ chunk ∈ chunks, 0 < chunk.length ∧ chunk.length ≤ bufsize) (success : Bool)
    {calls : List Call} (hvalid : ∀ call ∈ calls, call.Valid) :
    Honours (.new chunks success) (history (.new chunks success bufsize) calls) ↔
      CallsOk (.new chunks success bufsize) calls :=
  (Tracks.init hbufsize hchunks success).honours_iff hvalid

/-- Two chunks, of which the first one is read in parts. -/
def mixed : List Call :=
  [.readAt [0, 0] 1 1, .read, .readAll [0, 0, 0, 0], .readAll [0, 0, 0, 0], .readAll [0], .close,
    .readAt [0] 0 1]

theorem dataStream_honours_iff_mixed :
    ((history (.new [[1, 2, 3], [4, 200]] true 4) mixed).map fun e => e.2.b) =
        [[0, 1], [2], [3, 0, 0, 0], [4, 200, 0, 0], [0], [], [0]] ∧
      Honours (.new [[1, 2, 3], [4, 200]] true)
        (history (.new [[1, 2, 3], [4, 200]] true 4) mixed) :=
  ⟨by decide +kernel,
    (dataStream_honours_iff (by decide) (by decide) true (by simp [mixed, Call.Valid])).mpr
      (by decide +kernel)⟩

/-- `read()` returns -1 for the byte 255, and 0 at the end. -/
theorem read_not_honours :
    ((history (.new [[255]] true 4) [.read, .read]).map fun e => e.2.result) =
        [.ok (-1), .ok 0] ∧
      ¬ Honours (.new [[255]] true) (history (.new [[255]] true 4) [.read]) ∧
      ¬ Honours (.new [] true) (history (.new [] true 4) [.read]) := by
  refine ⟨by decide +kernel, fun h => ?_, fun h => ?_⟩
  · rw [(Tracks.init (by decide) (by decide) true).honours_iff (by simp [Call.Valid])] at h
    exact absurd h (by decide +kernel)
  · rw [(Tracks.init (by decide) (by decide) true).honours_iff (by simp [Call.Valid])] at h
    exact absurd h (by decide +kernel)

end HdfStream.Reading
