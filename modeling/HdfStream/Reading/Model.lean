/-
# The bytes of a `DataStream`

The model of `DataStream.java` as an `InputStream`, and of `c_read_chunk` and `c_free` in
`DataStream.c`.  `Streams` is about the references a stream holds; here are its bytes.

The native stream is the chunks that it will still return, and how it ends.  A call of `read`
either has a chunk copied into the array of the caller, or goes through `stream_buffer`; which of
the two depends on the array and on the calls before.  `int` and `byte` are in two's complement.
-/
import HdfStream.Lib.JavaArray

namespace HdfStream.Reading

open Java

abbrev Bytes := List UInt8

/-- What a method throws. -/
inductive Thrown where
  | io (message : String)
  | negativeArraySize
  | indexOutOfBounds
deriving DecidableEq

/-- The stream behind `stream_ptr`, with the number of calls of `c_free`. -/
structure NativeStream where
  chunks : List Bytes
  /-- The status at the end is 0. -/
  success : Bool
  frees : Nat
deriving DecidableEq

/-- The fields of a `DataStream`.  `released` counts the calls of `releaseReference`. -/
structure DataStream where
  native : NativeStream
  streamBufsize : Int
  streamBuffer : Option Bytes
  bufferedBytes : Int
  bufferOffset : Int
  endOfStream : Bool
  closed : Bool
  released : Nat
deriving DecidableEq

/-- What a method returns, with the stream and the array of the caller after it. -/
structure Returned where
  stream : DataStream
  b : Bytes
  result : Except Thrown Int

/-- The constructor. -/
def DataStream.new (chunks : List Bytes) (success : Bool) (buffersize : Int) : DataStream where
  native := { chunks := chunks, success := success, frees := 0 }
  streamBufsize := buffersize
  streamBuffer := none
  bufferedBytes := 0
  bufferOffset := 0
  endOfStream := false
  closed := false
  released := 0

/-- A `byte` as an `int`. -/
def byteToInt (x : UInt8) : Int := Int.bmod x.toNat (2 ^ 8)

/-! ## 1. Native calls -/

/-- `c_read_chunk`: the number of bytes, the stream, and the array. -/
def cReadChunk (native : NativeStream) (buffer : Bytes) : Int × NativeStream × Bytes :=
  match native.chunks with
  | [] => (if native.success then 0 else -1, native, buffer)
  | chunk :: chunks =>
    (chunk.length, { native with chunks := chunks }, chunk ++ buffer.drop chunk.length)

/-- `close`. -/
def close (ds : DataStream) : DataStream :=
  if ds.closed then ds
  else
    { ds with
      closed := true
      native := { ds.native with frees := ds.native.frees + 1 }
      released := ds.released + 1 }

/-- `readChunk`. -/
def readChunk (ds : DataStream) (buffer : Bytes) : Returned :=
  if buffer.length < ds.streamBufsize then
    { stream := ds
      b := buffer
      result := .error (.io "Buffer size is too small in readChunk()") }
  else
    let (nrBytesRead, native, buffer) := cReadChunk ds.native buffer
    let ds := { ds with native := native }
    if nrBytesRead < 0 then
      { stream := close ds, b := buffer, result := .error (.io "Unable to read data stream") }
    else if nrBytesRead = 0 then
      { stream := close { ds with endOfStream := true }, b := buffer, result := .ok (-1) }
    else { stream := ds, b := buffer, result := .ok nrBytesRead }

/-! ## 2. `read` -/

/-- The loop that copies to the output buffer. -/
def copyBytes (streamBuffer : Bytes) (bufferOffset off : Int) : Nat → Int → Bytes →
    Except Thrown Bytes
  | 0, _, b => .ok b
  | n + 1, i, b =>
    match load .indexOutOfBounds streamBuffer (bufferOffset + i) with
    | .error e => .error e
    | .ok x =>
      match store .indexOutOfBounds b (off + i) x with
      | .error e => .error e
      | .ok b => copyBytes streamBuffer bufferOffset off n (i + 1) b

/-- The end of `read`: the bytes in the buffer are copied. -/
def readBuffered (ds : DataStream) (streamBuffer b : Bytes) (off len : Int) : Returned :=
  let nrBytesAvailable := ds.bufferedBytes - ds.bufferOffset
  let nrBytesRead := if len < nrBytesAvailable then len else nrBytesAvailable
  match copyBytes streamBuffer ds.bufferOffset off nrBytesRead.toNat 0 b with
  | .error e => { stream := ds, b := b, result := .error e }
  | .ok b =>
    { stream := { ds with bufferOffset := ds.bufferOffset + nrBytesRead }
      b := b
      result := .ok nrBytesRead }

/-- `read` with an allocated buffer: if it has no data, a chunk is read first. -/
def readThrough (ds : DataStream) (streamBuffer b : Bytes) (off len : Int) : Returned :=
  if ds.bufferedBytes ≤ ds.bufferOffset then
    let r := readChunk ds streamBuffer
    let ds := { r.stream with streamBuffer := some r.b }
    match r.result with
    | .error e => { stream := ds, b := b, result := .error e }
    | .ok n =>
      let nrBytesRead := wrapInt n
      if nrBytesRead < 0 then { stream := ds, b := b, result := .ok (-1) }
      else
        readBuffered { ds with bufferedBytes := nrBytesRead, bufferOffset := 0 } r.b b off len
  else readBuffered ds streamBuffer b off len

/-- `read(b, off, len)`. -/
def readAt (shuttingDown : Bool) (ds : DataStream) (b : Bytes) (off len : Int) : Returned :=
  if shuttingDown then { stream := ds, b := b, result := .error (.io "Server is shutting down") }
  else if ds.endOfStream then { stream := ds, b := b, result := .ok (-1) }
  else if ds.closed then
    { stream := ds, b := b, result := .error (.io "Attempt to read from closed stream!") }
  else if ds.streamBuffer = none ∧ ds.streamBufsize ≤ b.length ∧ off = 0 ∧
      ds.streamBufsize ≤ len then
    -- received directly, without a copy
    let r := readChunk ds b
    { r with result := r.result.map wrapInt }
  else
    match ds.streamBuffer with
    | some streamBuffer => readThrough ds streamBuffer b off len
    | none =>
      let size := wrapInt ds.streamBufsize
      if size < 0 then { stream := ds, b := b, result := .error .negativeArraySize }
      else
        let streamBuffer := List.replicate size.toNat 0
        readThrough { ds with streamBuffer := some streamBuffer } streamBuffer b off len

/-- `read(b)`. -/
def readAll (shuttingDown : Bool) (ds : DataStream) (b : Bytes) : Returned :=
  readAt shuttingDown ds b 0 b.length

/-- `read()`. -/
def read (shuttingDown : Bool) (ds : DataStream) : Returned :=
  let r := readAll shuttingDown ds [0]
  match r.result with
  | .error e => { r with result := .error e }
  | .ok _ => { r with result := (load .indexOutOfBounds r.b 0).map byteToInt }

/-! ## 3. Calls -/

/-- A call, with the array it is given. -/
inductive Call where
  | read
  | readAll (b : Bytes)
  | readAt (b : Bytes) (off len : Int)
  | close

/-- The call has an array in which there is room for at least one byte. -/
def Call.Valid : Call → Prop
  | .read | .close => True
  | .readAll b => 0 < b.length ∧ b.length < 2 ^ 31
  | .readAt b off len => 0 ≤ off ∧ 0 < len ∧ off + len ≤ b.length ∧ b.length < 2 ^ 31

/-- A call, while the server is not shutting down.  `close` returns nothing. -/
def exec (ds : DataStream) : Call → Returned
  | .read => read false ds
  | .readAll b => readAll false ds b
  | .readAt b off len => readAt false ds b off len
  | .close => { stream := close ds, b := [], result := .ok 0 }

/-- One call after the other. -/
def history (ds : DataStream) : List Call → List (Call × Returned)
  | [] => []
  | call :: calls => (call, exec ds call) :: history (exec ds call).stream calls

end HdfStream.Reading
