/-
# A response on its way from the worker to the client

`Ring` ends at `hdfstream_read_chunk`, and `Reading` begins with the chunks it returns.  This file
puts the two together: `StreamCopier.copyStream` calls `read` of a `DataStream`, which calls
`c_read_chunk` when it has no bytes left, and that is a read of the ring, while the worker goes on
packing.  `DataStream.close` is a close of the ring.

The native part of the `DataStream` is the ring here: its list of chunks is empty between two
calls, and a call of `read` is given the block that the ring has returned.

One worker sends one response after the other.  What the program does not decide is in the
`Action`: all that `Ring` leaves open, whether the library is shutting down when `read` is called,
and whether the client of the web server takes what is written to it.
-/
import HdfStream.Reading.Contract
import HdfStream.Ring.Sessions

namespace HdfStream.Delivery

open Java Reading

/-! ## 1. A response -/

/-- Control points of `copyStream`, in the `try` statement around it. -/
inductive Pc where
  /-- At `instream.read(buf)`. -/
  | reading
  /-- In `c_read_chunk`. -/
  | native
  /-- At `outstream.write(buf, 0, bytes_read)`. -/
  | writing (bytesRead : ℕ)
  /-- The loop is over, and `close` comes next. -/
  | closing (result : Except Thrown Unit)
  | done (result : Except Thrown Unit)
deriving DecidableEq

/-- The variables of `copyStream`, and what it has written. -/
structure Response where
  stream : DataStream
  buf : Bytes
  out : Bytes
  pc : Pc

/-- A worker with its ring, and the last response that it was asked for. -/
structure State where
  ring : Ring.State
  response : Option Response

/-- A new `DataStream` and a new array; both sizes are positive as an `int`. -/
def Response.new (bufferSize arraySize : ℕ) : Response where
  stream := .new [] true bufferSize
  buf := List.replicate arraySize 0
  out := []
  pc := .reading

/-- `read` has to call `c_read_chunk`. -/
def NeedsChunk (shuttingDown : Bool) (ds : DataStream) : Prop :=
  shuttingDown = false ∧ ds.endOfStream = false ∧ ds.closed = false ∧
    ds.bufferedBytes ≤ ds.bufferOffset

instance (shuttingDown : Bool) (ds : DataStream) : Decidable (NeedsChunk shuttingDown ds) :=
  inferInstanceAs (Decidable (_ ∧ _ ∧ _ ∧ _))

/-- The array that `c_read_chunk` is called with. -/
def Response.array (r : Response) : Bytes :=
  match r.stream.streamBuffer with
  | some streamBuffer => streamBuffer
  | none =>
    if r.stream.streamBufsize ≤ r.buf.length then r.buf
    else List.replicate (wrapInt r.stream.streamBufsize).toNat 0

/-- What `c_read_chunk` finds when `hdfstream_read_chunk` has returned. -/
def received (client : Ring.Client) (frees : ℕ) : NativeStream where
  chunks := if client.ended then [] else [client.outBuf]
  success := client.status = 0
  frees := frees

/-! ## 2. The machine -/

/-- What may happen next. -/
inductive Action where
  /-- A step of the worker, or of the library outside the calls below. -/
  | ring (a : Ring.Action)
  /-- A call of `c_open_object` or `c_open_slices` returns, and the array is allocated. -/
  | opened (arraySize : ℕ)
  /-- `read` is called. -/
  | read (shuttingDown : Bool)
  /-- `c_read_chunk` returns, and `read` goes on. -/
  | returned
  /-- `write` of the output returns, or throws. -/
  | write (ok : Bool)
  | close

/-- The step of the ring is not one that this file makes itself. -/
def Free : Ring.Action → Prop
  | .accept | .read | .close => False
  | _ => True

instance : DecidablePred Free
  | .accept | .read | .close => isFalse id
  | .worker | .write _ | .destroy _ | .refuse | .die | .client | .open _ | .waitFailed
  | .openFailed => isTrue trivial

/-- Where the loop goes from here. -/
def afterRead : Except Thrown Int → Pc
  | .error e => .closing (.error e)
  | .ok bytesRead =>
    if 0 < bytesRead then .writing bytesRead.toNat
    else if bytesRead < 0 then .closing (.ok ())
    else .reading

/-- `read` returns.  If it has closed the stream, it has called `c_free`. -/
def finishRead (cfg : Ring.Config) (s : State) (r : Response) (ret : Returned) : Option State :=
  (if ret.stream.closed = r.stream.closed then some s.ring
    else Ring.exec cfg s.ring .close).map fun ring =>
      { ring := ring
        response := some { r with
          stream := ret.stream
          buf := ret.b
          pc := afterRead ret.result } }

/-- A step of `copyStream`. -/
def responseStep (cfg : Ring.Config) (s : State) (r : Response) : Action → Option State
  | .read shuttingDown =>
    match r.pc with
    | .reading =>
      if NeedsChunk shuttingDown r.stream then
        (Ring.exec cfg s.ring .read).map fun ring =>
          { ring := ring, response := some { r with pc := .native } }
      else finishRead cfg s r (readAll shuttingDown r.stream r.buf)
    | _ => none
  | .returned =>
    match r.pc, s.ring.client.pc with
    | .native, .streaming =>
      finishRead cfg s r (readAll false
        { r.stream with native := received s.ring.client r.stream.native.frees } r.buf)
    | _, _ => none
  | .write ok =>
    match r.pc with
    | .writing bytesRead =>
      some { s with
        response := some
          (if ok then { r with out := r.out ++ r.buf.take bytesRead, pc := .reading }
          else { r with pc := .closing (.error (.io "")) }) }
    | _ => none
  | .close =>
    match r.pc with
    | .closing result =>
      (if r.stream.closed then some s.ring else Ring.exec cfg s.ring .close).map fun ring =>
        { ring := ring
          response := some { r with stream := Reading.close r.stream, pc := .done result } }
    | _ => none
  | _ => none

/-- One step. -/
def exec (cfg : Ring.Config) (s : State) : Action → Option State
  | .ring a =>
    if Free a then (Ring.exec cfg s.ring a).map fun ring => { s with ring := ring } else none
  | .opened arraySize =>
    match s.ring.client.pc with
    | .request n =>
      if n < 2 ^ 31 ∧ 0 < arraySize ∧ arraySize < 2 ^ 31 then
        (Ring.exec cfg s.ring .accept).map fun ring =>
          { ring := ring, response := some (.new n arraySize) }
      else none
    | _ => none
  | a => s.response.bind fun r => responseStep cfg s r a

/-- A fresh worker, and no response yet. -/
def machine (cfg : Ring.Config) (status : Int) (mem : ℕ → UInt8) : Machine State Action where
  init := { ring := Ring.start cfg status mem, response := none }
  exec := exec cfg

/-- The library goes on, and the client of the web server takes what is written. -/
def Action.Undisturbed : Action → Prop
  | .read shuttingDown => shuttingDown = false
  | .write ok => ok = true
  | _ => True

instance : DecidablePred Action.Undisturbed
  | .read shuttingDown => inferInstanceAs (Decidable (shuttingDown = false))
  | .write ok => inferInstanceAs (Decidable (ok = true))
  | .ring _ | .opened _ | .returned | .close => isTrue trivial

/-! ## 3. What was packed -/

/-- The step of the ring. -/
def Action.toRing : Action → Option Ring.Action
  | .ring a => some a
  | .opened _ => some .accept
  | _ => none

/-- The bytes that the worker has packed since the last response was opened. -/
def packed (tr : List Action) : Bytes := Ring.written (tr.filterMap Action.toRing)

/-- The code that it has ended with. -/
def returnCode (tr : List Action) : Option Int := Ring.returnCode (tr.filterMap Action.toRing)

end HdfStream.Delivery
