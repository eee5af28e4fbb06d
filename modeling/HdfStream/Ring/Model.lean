/-
# The shared-memory ring between a reader process and its client

A reader process (the WORKER) sends one msgpack stream at a time to the library (the CLIENT)
through `NR_BUFFERS` buffers in shared memory, each guarded by two semaphores.  This file is
the model of both sides, one step for each access to shared memory:

* `shared_data_populate` and `shared_data_init_semaphores` of `shared_data.c`;
* `msgpack_chunkbuffer_write`, `_flush` and `_destroy` of `msgpack_chunkbuffer.c`, as control
  points of the worker (`WorkerPc`, `workerStep`);
* `hdfstream_read_chunk`, `hdfstream_close_stream` and the part of the `_open` functions that
  touches shared memory, of `hdfstream.c`, as control points of the client (`ClientPc`,
  `clientStep`).

What is not decided by the program is an `Action`: which side moves, what the packer writes
next and which code it ends with (so a packer may go on writing after a write returned -1),
when the client reads, closes and opens the next stream, and whether the worker dies.

`State.log` records what the current stream was asked to send and what was received.  No step
reads it.
-/
import HdfStream.Lib.Machine
import HdfStream.Lib.TokenRing

namespace HdfStream.Ring

open Memory

/-! ## 1. The shared memory -/

/-- The constants of one build: `NR_BUFFERS`, and the sizes `shared_data_populate` lays the
region out with. -/
structure Config where
  nrBuffers : Nat
  bufferSize : Nat
  headerSize : Nat
  nrBuffers_pos : 0 < nrBuffers
  bufferSize_pos : 0 < bufferSize
  bufferSize_lt : bufferSize < 2 ^ 64

/-- `struct buffer_data`.  The two semaphores are their values. -/
structure BufferData where
  offset : Nat
  used : Nat
  readyForWrite : Nat
  readyForRead : Nat
  status : Int

/-- `BUFFER_STATUS_OK`. -/
def statusOk : Int := 0
/-- `BUFFER_STATUS_ERROR`. -/
def statusError : Int := 2
/-- `BUFFER_STATUS_CANCEL`. -/
def statusCancel : Int := 3

/-- `struct shared_reader_data` and the data region behind it. -/
structure Shared where
  status : Int
  buffer : Nat → BufferData
  mem : Nat → UInt8

/-- Replace one buffer's header. -/
def Shared.setBuffer (sh : Shared) (j : Nat) (b : BufferData) : Shared :=
  { sh with buffer := Function.update sh.buffer j b }

@[simp] theorem Shared.setBuffer_status (sh : Shared) (j : Nat) (b : BufferData) :
    (sh.setBuffer j b).status = sh.status := rfl

@[simp] theorem Shared.setBuffer_mem (sh : Shared) (j : Nat) (b : BufferData) :
    (sh.setBuffer j b).mem = sh.mem := rfl

@[simp] theorem Shared.setBuffer_buffer (sh : Shared) (j : Nat) (b : BufferData) :
    (sh.setBuffer j b).buffer = Function.update sh.buffer j b := rfl

/-- `shared_data_populate`: the layout, with every semaphore at zero.  The stream status and
the bytes of the region are whatever the fresh mapping holds. -/
def sharedDataPopulate (cfg : Config) (status : Int) (mem : Nat → UInt8) : Shared :=
  { status := status
    buffer := fun j =>
      { offset := cfg.headerSize + j * cfg.bufferSize
        used := 0, readyForWrite := 0, readyForRead := 0, status := 0 }
    mem := mem }

/-- `while(value > 0) sem_wait(s)`: the value the loop leaves. -/
def drain : Nat → Nat
  | 0 => 0
  | value + 1 => drain value

/-- `while(value < 1) sem_post(s)`: the value the loop leaves. -/
def fill (value : Nat) : Nat := if value < 1 then value + 1 else value

theorem drain_eq (value : Nat) : drain value = 0 := by
  induction value with
  | zero => rfl
  | succ n ih => exact ih

/-- `shared_data_init_semaphores`. -/
def sharedDataInitSemaphores (cfg : Config) (sh : Shared) : Shared :=
  { sh with
    buffer := fun j =>
      if j < cfg.nrBuffers then
        { sh.buffer j with
          readyForRead := drain (sh.buffer j).readyForRead
          readyForWrite := fill (sh.buffer j).readyForWrite
          used := 0 }
      else sh.buffer j }

/-! ## 2. The worker -/

/-- Who called `msgpack_chunkbuffer_flush`, or claimed the first buffer: a write with the bytes
it has left, or the destroy call with its return code. -/
inductive Caller where
  | write (left : List UInt8)
  | destroy (code : Int)

/-- Control points of the worker.  Each names the shared access that comes next. -/
inductive WorkerPc where
  /-- Outside any stream, reading the next command. -/
  | command
  /-- In a packer, between two calls on the chunk buffer. -/
  | between
  /-- `semaphore_wait` on the first buffer. -/
  | claim (caller : Caller)
  /-- `buffer->used = 0` after that wait. -/
  | reset (caller : Caller)
  /-- The test of the copy loop, and one pass of its body. -/
  | copy (left : List UInt8)
  /-- `if(cb->srd->status != BUFFER_STATUS_OK)`. -/
  | flushStatus (caller : Caller)
  /-- `if(buffer->used==0)`. -/
  | flushUsed (caller : Caller)
  /-- `sem_post(&(buffer->ready_for_read))` in the flush, and the move to the next buffer. -/
  | flushPost (caller : Caller)
  /-- `semaphore_wait` on the next buffer. -/
  | flushWait (caller : Caller)
  /-- `buffer->used = 0; buffer->status = return_code`. -/
  | publish (code : Int)
  /-- `sem_post(&(buffer->ready_for_read))` of the zero sized block. -/
  | post
  /-- The destroy call has returned. -/
  | finished

/-- `struct msgpack_chunkbuffer` and the control point.  `bufferNr = none` is
`buffer_nr = -1`.  A dead process stays where it died. -/
structure Worker where
  pc : WorkerPc
  bufferNr : Option Nat
  bufferSize : Nat
  dead : Bool

/-! ## 3. The client -/

/-- Which call a pass through `hdfstream_read_chunk` belongs to: the caller's own, or the loop
of `hdfstream_close_stream`, which passes no output buffer. -/
inductive Mode where
  | read
  | close
deriving DecidableEq

/-- Control points of the client. -/
inductive ClientPc where
  /-- No stream is open on this worker. -/
  | closed
  /-- `srd->status = 0` in the open call. -/
  | setStatus (bufferSize : Nat)
  /-- `shared_data_init_semaphores(srd)`. -/
  | initSemaphores (bufferSize : Nat)
  /-- The command is sent and the reply awaited. -/
  | request (bufferSize : Nat)
  /-- A stream is open and no call is running. -/
  | streaming
  /-- `worker_process_wait_for_semaphore` on the next buffer. -/
  | wait (mode : Mode)
  /-- `block_len = shared_buffer->used`, and the status of a zero sized block. -/
  | readUsed (mode : Mode)
  /-- `if(buffer)memcpy(...)`. -/
  | copyOut (mode : Mode) (blockLen : Nat)
  /-- `shared_buffer->used = 0`. -/
  | resetUsed (mode : Mode)
  /-- `sem_post(&(shared_buffer->ready_for_write))`, and the return of the block. -/
  | post (mode : Mode)
  /-- `srd->status = BUFFER_STATUS_CANCEL`. -/
  | setCancel
deriving DecidableEq

/-- `struct data_stream` and the control point, with the two outputs of a read: `outBuf` is
what the copy put into the caller's buffer, `status` what was stored through `status`. -/
structure Client where
  pc : ClientPc
  nextBuffer : Nat
  ended : Bool
  outBuf : List UInt8
  status : Int

/-- What happened to the current stream. -/
structure Log where
  /-- The buffer size the worker uses for it. -/
  bufferSize : Nat
  /-- The bytes passed to `msgpack_chunkbuffer_write`, call after call. -/
  sent : List UInt8
  /-- The code passed to `msgpack_chunkbuffer_destroy`. -/
  code : Option Int
  /-- The blocks made readable, in order; the zero sized one is `[]`. -/
  posted : List (List UInt8)
  /-- How many blocks the client has given back. -/
  consumed : Nat
  /-- The bytes returned by the caller's reads. -/
  got : List UInt8
  /-- The status read from the zero sized block. -/
  result : Option Int

def Log.empty (bufferSize : Nat) : Log :=
  { bufferSize := bufferSize, sent := [], code := none, posted := [], consumed := 0, got := []
    result := none }

/-- The whole system. -/
structure State where
  shared : Shared
  worker : Worker
  client : Client
  log : Log

/-! ## 4. Steps of the worker -/

/-- Difference of two `size_t` values. -/
def sizeSub (a b : Nat) : Nat := (a + 2 ^ 64 - b) % 2 ^ 64

theorem sizeSub_eq {a b : Nat} (h : b ≤ a) (ha : a < 2 ^ 64) : sizeSub a b = a - b := by
  unfold sizeSub
  omega

/-- `nr_to_copy` of one pass of the copy loop. -/
def nrToCopy (bufferSize used : Nat) (left : List UInt8) : Nat :=
  if left.length > sizeSub bufferSize used then sizeSub bufferSize used else left.length

/-- What the worker does when a call of `msgpack_chunkbuffer_flush` returns `ret`.  A write
returns -1 on failure; destroy ignores the result, and claims a buffer if it has none. -/
def flushReturn (w : Worker) (ret : Int) : Caller → Worker
  | .write left => { w with pc := if ret < 0 then .between else .copy left }
  | .destroy code =>
    match w.bufferNr with
    | none => { w with bufferNr := some 0, pc := .claim (.destroy code) }
    | some _ => { w with pc := .publish code }

/-- The next instruction of the worker. -/
def workerStep (cfg : Config) (s : State) : Option State :=
  match s.worker.pc, s.worker.bufferNr with
  | .claim caller, some j =>
    let b := s.shared.buffer j
    if 0 < b.readyForWrite then
      some { s with
        shared := s.shared.setBuffer j { b with readyForWrite := b.readyForWrite - 1 }
        worker.pc := .reset caller }
    else none
  | .reset caller, some j =>
    some { s with
      shared := s.shared.setBuffer j { s.shared.buffer j with used := 0 }
      worker.pc :=
        match caller with
        | .write left => .copy left
        | .destroy code => .publish code }
  | .copy left, some j =>
    if left = [] then some { s with worker.pc := .between }
    else
      let b := s.shared.buffer j
      let n := nrToCopy s.worker.bufferSize b.used left
      let rest := left.drop n
      some { s with
        shared :=
          { s.shared.setBuffer j { b with used := b.used + n } with
            mem := writeMem s.shared.mem (b.offset + b.used) (left.take n) }
        worker.pc :=
          if s.worker.bufferSize / 2 ≤ b.used + n then .flushStatus (.write rest)
          else .copy rest }
  | .flushStatus caller, _ =>
    if s.shared.status ≠ statusOk then
      some { s with worker := flushReturn s.worker (-1) caller }
    else some { s with worker.pc := .flushUsed caller }
  | .flushUsed caller, none => some { s with worker := flushReturn s.worker 0 caller }
  | .flushUsed caller, some j =>
    if (s.shared.buffer j).used = 0 then
      some { s with worker := flushReturn s.worker 0 caller }
    else some { s with worker.pc := .flushPost caller }
  | .flushPost caller, some j =>
    let b := s.shared.buffer j
    some { s with
      shared := s.shared.setBuffer j { b with readyForRead := b.readyForRead + 1 }
      worker.pc := .flushWait caller
      worker.bufferNr := some ((j + 1) % cfg.nrBuffers)
      log.posted := s.log.posted ++ [readMem s.shared.mem b.offset b.used] }
  | .flushWait caller, some j =>
    let b := s.shared.buffer j
    if 0 < b.readyForWrite then
      some { s with
        shared := s.shared.setBuffer j { b with readyForWrite := b.readyForWrite - 1 }
        worker := flushReturn s.worker 0 caller }
    else none
  | .publish code, some j =>
    some { s with
      shared := s.shared.setBuffer j { s.shared.buffer j with used := 0, status := code }
      worker.pc := .post }
  | .post, some j =>
    let b := s.shared.buffer j
    some { s with
      shared := s.shared.setBuffer j { b with readyForRead := b.readyForRead + 1 }
      worker.pc := .finished
      worker.bufferSize := 0
      log.posted := s.log.posted ++ [readMem s.shared.mem b.offset b.used] }
  | .finished, _ => some { s with worker.pc := .command }
  | _, _ => none

/-! ## 5. Steps of the client -/

/-- `hdfstream_read_chunk` returns 0: the stream has ended, and the close loop is over. -/
def endRead (c : Client) (status : Int) : Mode → Client
  | .read => { c with status := status, ended := true, pc := .streaming }
  | .close => { c with status := status, ended := true, pc := .closed }

/-- The next instruction of the client. -/
def clientStep (cfg : Config) (s : State) : Option State :=
  let j := s.client.nextBuffer
  let b := s.shared.buffer j
  match s.client.pc with
  | .setStatus n =>
    some { s with shared := { s.shared with status := statusOk }, client.pc := .initSemaphores n }
  | .initSemaphores n =>
    some { s with shared := sharedDataInitSemaphores cfg s.shared, client.pc := .request n }
  | .wait mode =>
    if 0 < b.readyForRead then
      some { s with
        shared := s.shared.setBuffer j { b with readyForRead := b.readyForRead - 1 }
        client.pc := .readUsed mode }
    else none
  | .readUsed mode =>
    if b.used = 0 then
      some { s with client := endRead s.client b.status mode, log.result := some b.status }
    else some { s with client.status := 0, client.pc := .copyOut mode b.used }
  | .copyOut mode blockLen =>
    some { s with
      client.outBuf :=
        match mode with
        | .read => readMem s.shared.mem b.offset blockLen
        | .close => s.client.outBuf
      client.pc := .resetUsed mode }
  | .resetUsed mode =>
    some { s with
      shared := s.shared.setBuffer j { b with used := 0 }
      client.pc := .post mode }
  | .post mode =>
    some { s with
      shared := s.shared.setBuffer j { b with readyForWrite := b.readyForWrite + 1 }
      client.nextBuffer := (j + 1) % cfg.nrBuffers
      client.pc :=
        match mode with
        | .read => .streaming
        | .close => .wait .close
      log.consumed := s.log.consumed + 1
      log.got :=
        match mode with
        | .read => s.log.got ++ s.client.outBuf
        | .close => s.log.got }
  | .setCancel =>
    some { s with shared := { s.shared with status := statusCancel }, client.pc := .wait .close }
  | _ => none

/-! ## 6. The machine -/

/-- What may happen next. -/
inductive Action where
  /-- The worker executes its next instruction. -/
  | worker
  /-- The packer calls `msgpack_chunkbuffer_write`. -/
  | write (buf : List UInt8)
  /-- The packer is done: `msgpack_chunkbuffer_destroy`. -/
  | destroy (code : Int)
  /-- The worker opens what was asked for, replies, and starts the packer. -/
  | accept
  /-- The worker cannot open it, and replies so. -/
  | refuse
  | die
  /-- The client executes its next instruction. -/
  | client
  /-- A call that opens a stream with this buffer size on this worker. -/
  | open (bufferSize : Nat)
  /-- A call of `hdfstream_read_chunk`. -/
  | read
  /-- A call of `hdfstream_close_stream`. -/
  | close
  /-- The wait for the semaphore has timed out and the worker is found dead. -/
  | waitFailed
  /-- The open call finds the worker dead. -/
  | openFailed

/-- The step function. -/
def exec (cfg : Config) (s : State) : Action → Option State
  | .worker => if s.worker.dead then none else workerStep cfg s
  | .write buf =>
    match s.worker.pc, s.worker.dead with
    | .between, false =>
      some { s with
        worker :=
          match s.worker.bufferNr with
          | none => { s.worker with bufferNr := some 0, pc := .claim (.write buf) }
          | some _ => { s.worker with pc := .copy buf }
        log.sent := s.log.sent ++ buf }
    | _, _ => none
  | .destroy code =>
    match s.worker.pc, s.worker.dead with
    | .between, false =>
      some { s with worker.pc := .flushStatus (.destroy code), log.code := some code }
    | _, _ => none
  | .accept =>
    match s.worker.pc, s.worker.dead, s.client.pc with
    | .command, false, .request n =>
      some { s with
        worker :=
          { pc := .between, bufferNr := none, bufferSize := min n cfg.bufferSize, dead := false }
        client :=
          { s.client with pc := .streaming, nextBuffer := 0, ended := false, outBuf := [] }
        log := Log.empty (min n cfg.bufferSize) }
    | _, _, _ => none
  | .refuse =>
    match s.worker.pc, s.worker.dead, s.client.pc with
    | .command, false, .request _ => some { s with client.pc := .closed }
    | _, _, _ => none
  | .die => some { s with worker.dead := true }
  | .client => clientStep cfg s
  | .open n =>
    match s.client.pc with
    | .closed =>
      if s.worker.dead ∨ n = 0 then none else some { s with client.pc := .setStatus n }
    | _ => none
  | .read =>
    match s.client.pc with
    | .streaming =>
      if s.client.ended then some s else some { s with client.pc := .wait .read }
    | _ => none
  | .close =>
    match s.client.pc with
    | .streaming =>
      if s.client.ended then some { s with client.pc := .closed }
      else some { s with client.pc := .setCancel }
    | _ => none
  | .waitFailed =>
    match s.client.pc with
    | .wait mode =>
      if s.worker.dead then some { s with client := endRead s.client statusError mode }
      else none
    | _ => none
  | .openFailed =>
    match s.client.pc with
    | .request _ => if s.worker.dead then some { s with client.pc := .closed } else none
    | _ => none

/-- A fresh worker: the region is populated, the worker reads commands, no stream is open. -/
def start (cfg : Config) (status : Int) (mem : Nat → UInt8) : State :=
  { shared := sharedDataPopulate cfg status mem
    worker := { pc := .command, bufferNr := none, bufferSize := 0, dead := false }
    client := { pc := .closed, nextBuffer := 0, ended := false, outBuf := [], status := 0 }
    log := Log.empty 0 }

/-- One worker and its client, for any layout and any initial contents of the mapping. -/
def machine (cfg : Config) (status : Int) (mem : Nat → UInt8) : Machine State Action :=
  { init := start cfg status mem, exec := exec cfg }

end HdfStream.Ring
