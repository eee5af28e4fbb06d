/-
# One call of `read`

What `read` does to a `DataStream` whose native stream is the ring.  Between two calls there is no
chunk, and the bytes that were not delivered are those in the buffer.  A call takes the next of
them, or the next of the block that the ring has returned (`Reads.deliver`), or it comes to the end
of the stream, which closes it (`Reads.atEnd`).
-/
import HdfStream.Delivery.Model

namespace HdfStream.Delivery

open Java Reading

/-! ## 1. What a call leaves alone -/

theorem close_frame (ds : DataStream) :
    (Reading.close ds).streamBufsize = ds.streamBufsize ∧
      (Reading.close ds).native.chunks = ds.native.chunks := by
  rw [Reading.close]
  split
  · exact ⟨rfl, rfl⟩
  · exact ⟨rfl, rfl⟩

/-- What `read` does to the size of the buffer, and to the chunks. -/
def Keeps (ds ds' : DataStream) : Prop :=
  ds'.streamBufsize = ds.streamBufsize ∧ ds'.native.chunks <:+ ds.native.chunks

theorem readChunk_keeps (ds : DataStream) (buffer : Bytes) :
    Keeps ds (readChunk ds buffer).stream := by
  rw [readChunk]
  split
  · exact ⟨rfl, List.suffix_rfl⟩
  · have hnative : (cReadChunk ds.native buffer).2.1.chunks <:+ ds.native.chunks := by
      rw [cReadChunk]
      split
      · exact List.suffix_rfl
      · rename_i chunk chunks hchunks
        rw [hchunks]
        exact List.suffix_cons _ _
    dsimp only
    split
    · obtain ⟨hsize, hchunks⟩ := close_frame { ds with native := (cReadChunk ds.native buffer).2.1 }
      exact ⟨hsize, by rw [hchunks]; exact hnative⟩
    · split
      · obtain ⟨hsize, hchunks⟩ := close_frame
          { ds with native := (cReadChunk ds.native buffer).2.1, endOfStream := true }
        exact ⟨hsize, by rw [hchunks]; exact hnative⟩
      · exact ⟨rfl, hnative⟩

theorem readBuffered_keeps (ds : DataStream) (streamBuffer b : Bytes) (off len : Int) :
    Keeps ds (readBuffered ds streamBuffer b off len).stream := by
  rw [readBuffered]
  split
  · exact ⟨rfl, List.suffix_rfl⟩
  · exact ⟨rfl, List.suffix_rfl⟩

theorem readThrough_keeps (ds : DataStream) (streamBuffer b : Bytes) (off len : Int) :
    Keeps ds (readThrough ds streamBuffer b off len).stream := by
  rw [readThrough]
  split
  · have hchunk := readChunk_keeps ds streamBuffer
    dsimp only
    split
    · exact hchunk
    · split
      · exact hchunk
      · rename_i n _ _
        obtain ⟨hsize, hchunks⟩ := readBuffered_keeps
          { (readChunk ds streamBuffer).stream with
            streamBuffer := some (readChunk ds streamBuffer).b
            bufferedBytes := wrapInt n, bufferOffset := 0 }
          (readChunk ds streamBuffer).b b off len
        exact ⟨hsize.trans hchunk.1, hchunks.trans hchunk.2⟩
  · exact readBuffered_keeps ds streamBuffer b off len

/-- **A call of `read`** keeps the size of the buffer, and takes chunks from the front. -/
theorem readAt_keeps (shuttingDown : Bool) (ds : DataStream) (b : Bytes) (off len : Int) :
    Keeps ds (readAt shuttingDown ds b off len).stream := by
  rw [readAt]
  split
  · exact ⟨rfl, List.suffix_rfl⟩
  split
  · exact ⟨rfl, List.suffix_rfl⟩
  split
  · exact ⟨rfl, List.suffix_rfl⟩
  split
  · exact readChunk_keeps ds b
  split
  · exact readThrough_keeps ds _ b off len
  · dsimp only
    split
    · exact ⟨rfl, List.suffix_rfl⟩
    · exact readThrough_keeps
        { ds with streamBuffer := some (List.replicate (wrapInt ds.streamBufsize).toNat 0) } _ b
        off len

/-! ## 2. Between two calls -/

/-- The stream of a response that is being copied, between two calls of `c_read_chunk`. -/
structure Reads (ds : DataStream) : Prop where
  tracks : Tracks ds { rest := buffered ds, success := ds.native.success, phase := .reading }
  chunks : ds.native.chunks = []
  size : ds.streamBufsize < 2 ^ 31

variable {ds : DataStream} {b : Bytes}

theorem Reads.new {n : ℕ} (hpos : 0 < n) (hlt : n < 2 ^ 31) : Reads (.new [] true n) where
  tracks := Tracks.init (by omega) (fun chunk hchunk => absurd hchunk List.not_mem_nil) true
  chunks := rfl
  size := by
    show (n : Int) < 2 ^ 31
    omega

theorem Reads.open (h : Reads ds) : ds.closed = false := h.tracks.reading.mp rfl

theorem Reads.endOfStream (h : Reads ds) : ds.endOfStream = false :=
  h.tracks.endOfStream_eq h.open

/-- A call has bytes in the buffer, or it needs a chunk. -/
theorem Reads.needsChunk_iff (h : Reads ds) :
    NeedsChunk false ds ↔ ds.bufferedBytes ≤ ds.bufferOffset :=
  ⟨fun hneeds => hneeds.2.2.2, fun hle => ⟨rfl, h.endOfStream, h.open, hle⟩⟩

theorem buffered_nil (hle : ds.bufferedBytes ≤ ds.bufferOffset) : buffered ds = [] := by
  rw [buffered]
  split
  · rfl
  · rw [List.drop_eq_nil_iff, List.length_take]
    omega

theorem buffered_ne_nil (h : Reads ds) (hlt : ds.bufferOffset < ds.bufferedBytes) :
    buffered ds ≠ [] := by
  have hoffset := h.tracks.offset.1
  rw [buffered]
  cases hbuf : ds.streamBuffer with
  | none =>
    have hzero := h.tracks.unallocated hbuf
    omega
  | some buf =>
    have hroom := (h.tracks.allocated buf hbuf).2.1
    intro hnil
    rw [List.drop_eq_nil_iff, List.length_take] at hnil
    omega

/-- The block that the ring has returned is the next chunk. -/
theorem Reads.receive (h : Reads ds) (hempty : ds.bufferedBytes ≤ ds.bufferOffset)
    (chunks : List Bytes) (success : Bool)
    (hchunks : ∀ chunk ∈ chunks, 0 < chunk.length ∧ chunk.length ≤ ds.streamBufsize) :
    Tracks { ds with native := ⟨chunks, success, ds.native.frees⟩ }
      { rest := chunks.flatten, success := success, phase := .reading } where
  rest _ := by
    have hnil : buffered { ds with native := ⟨chunks, success, ds.native.frees⟩ } = [] :=
      buffered_nil hempty
    rw [undelivered, hnil, List.nil_append]
  success := rfl
  reading := h.tracks.reading
  ended := h.tracks.ended
  accounted := h.tracks.accounted
  bufsize := h.tracks.bufsize
  chunks := hchunks
  offset := h.tracks.offset
  unallocated := h.tracks.unallocated
  allocated := h.tracks.allocated

/-! ## 3. What a call returns -/

/-- `read` has written the next bytes to the front of the array. -/
structure Delivers (ds : DataStream) (b rest : Bytes) (ret : Returned) (n : ℕ) : Prop where
  result : ret.result = .ok n
  pos : 0 < n
  room : n ≤ ret.b.length
  length : ret.b.length = b.length
  bytes : rest = ret.b.take n ++ buffered ret.stream
  reads : Reads ret.stream
  bufsize : ret.stream.streamBufsize = ds.streamBufsize

theorem written_take {n : ℕ} {rest : Bytes} (hn : n ≤ b.length) (hrest : n ≤ rest.length) :
    (written b 0 (rest.take n)).length = b.length ∧
      (written b 0 (rest.take n)).take n = rest.take n := by
  have hlen : (rest.take n).length = n := by
    rw [List.length_take]
    omega
  rw [written, List.take_zero, List.nil_append, Nat.zero_add]
  refine ⟨?_, ?_⟩
  · rw [List.length_append, List.length_drop, hlen]
    omega
  · rw [List.take_append_of_le_length (by omega), List.take_take, Nat.min_self]

/-- The outcome of a call that had at most one chunk to take. -/
theorem outcome_delivers {rest : Bytes} {success : Bool}
    (htracks : Tracks ds { rest := rest, success := success, phase := .reading })
    (hsize : ds.streamBufsize < 2 ^ 31) (hb : 0 < b.length)
    (hall : ∀ chunk ∈ ds.native.chunks, chunk = rest) (hrest : rest ≠ []) :
    ∃ n, Delivers ds b rest (readAll false ds b) n := by
  obtain ⟨hbufsize, hsuffix⟩ := readAt_keeps false ds b 0 b.length
  have hout : Outcome { rest := rest, success := success, phase := .reading } b 0 b.length
      (readAt false ds b 0 b.length) :=
    htracks.readAt (htracks.reading.mp rfl) hsize (by decide) (by omega) (by omega)
  rw [readAll]
  cases hout with
  | ended hnil => exact absurd hnil hrest
  | failed hnil => exact absurd hnil hrest
  | @deliver n hpos hlen hle hbytes hresult htracks' =>
    dsimp only at hle hbytes htracks'
    have hroom : n ≤ b.length := by omega
    rw [Int.toNat_zero] at hbytes
    obtain ⟨hlength, htake⟩ := written_take hroom hle
    -- the chunk was taken, or it would still be undelivered
    have hchunks : (readAt false ds b 0 b.length).stream.native.chunks = [] := by
      have hundelivered := htracks'.rest rfl
      dsimp only at hundelivered
      cases hcs : (readAt false ds b 0 b.length).stream.native.chunks with
      | nil => rfl
      | cons chunk chunks =>
        rw [hcs] at hsuffix
        have hchunk := hall chunk (hsuffix.subset List.mem_cons_self)
        have hlens := congrArg List.length hundelivered
        rw [undelivered, hcs, List.flatten_cons, hchunk, List.length_drop, List.length_append,
          List.length_append] at hlens
        omega
    have hdrop : buffered (readAt false ds b 0 b.length).stream = rest.drop n := by
      have hundelivered := htracks'.rest rfl
      dsimp only at hundelivered
      rw [hundelivered, undelivered, hchunks, List.flatten_nil, List.append_nil]
    refine ⟨n, hresult, hpos, ?_, ?_, ?_, ⟨?_, hchunks, by rw [hbufsize]; exact hsize⟩, hbufsize⟩
    · rw [hbytes, hlength]
      exact hroom
    · rw [hbytes, hlength]
    · rw [hbytes, htake, hdrop, List.take_append_drop]
    · rw [hdrop, ← htracks'.success]
      exact htracks'

/-- **A call with bytes in the buffer.** -/
theorem Reads.deliver (h : Reads ds) (hb : 0 < b.length)
    (hdata : ds.bufferOffset < ds.bufferedBytes) :
    ∃ n, Delivers ds b (buffered ds) (readAll false ds b) n :=
  outcome_delivers h.tracks h.size hb
    (fun chunk hchunk => by rw [h.chunks] at hchunk; cases hchunk) (buffered_ne_nil h hdata)

/-- **A call with a block.** -/
theorem Reads.deliverBlock (h : Reads ds) (hb : 0 < b.length)
    (hempty : ds.bufferedBytes ≤ ds.bufferOffset) (success : Bool) {block : Bytes}
    (hne : block ≠ []) (hlen : (block.length : Int) ≤ ds.streamBufsize) :
    ∃ n, Delivers ds b block
      (readAll false { ds with native := ⟨[block], success, ds.native.frees⟩ } b) n := by
  have htracks := h.receive hempty [block] success (fun chunk hchunk => by
    rw [List.mem_singleton.mp hchunk]
    exact ⟨List.length_pos_iff.mpr hne, hlen⟩)
  rw [List.flatten_singleton] at htracks
  obtain ⟨n, hn⟩ := outcome_delivers htracks h.size hb
    (fun chunk hchunk => List.mem_singleton.mp hchunk) hne
  exact ⟨n, hn.result, hn.pos, hn.room, hn.length, hn.bytes, hn.reads, hn.bufsize⟩

/-- **A call at the end of the stream** closes it, and throws an exception if it has failed. -/
theorem Reads.atEnd (h : Reads ds) (hb : 0 < b.length)
    (hempty : ds.bufferedBytes ≤ ds.bufferOffset) (success : Bool) :
    (readAll false { ds with native := ⟨[], success, ds.native.frees⟩ } b).stream.closed = true ∧
      if success then
        (readAll false { ds with native := ⟨[], success, ds.native.frees⟩ } b).result = .ok (-1)
      else ∃ e, (readAll false { ds with native := ⟨[], success, ds.native.frees⟩ } b).result =
        .error e := by
  have htracks := h.receive hempty [] success
    (fun chunk hchunk => absurd hchunk List.not_mem_nil)
  rw [List.flatten_nil] at htracks
  have hout : Outcome { rest := [], success := success, phase := .reading } b 0 b.length
      (readAt false { ds with native := ⟨[], success, ds.native.frees⟩ } b 0 b.length) :=
    htracks.readAt h.open h.size (by decide) (by omega) (by omega)
  rw [readAll]
  cases hout with
  | deliver hpos _ hle => exact absurd hpos (Nat.not_lt.mpr hle)
  | ended _ hsuccess _ hresult htracks' =>
    dsimp only at hsuccess
    refine ⟨?_, ?_⟩
    · rw [← Bool.not_eq_false, ← htracks'.reading]
      exact fun hn => by cases hn
    · rw [if_pos hsuccess]
      exact hresult
  | failed _ hfailed hresult htracks' =>
    dsimp only at hfailed
    refine ⟨?_, ?_⟩
    · rw [← Bool.not_eq_false, ← htracks'.reading]
      exact fun hn => by cases hn
    · rw [if_neg (by rw [hfailed]; exact Bool.false_ne_true)]
      exact ⟨_, hresult⟩

end HdfStream.Delivery
