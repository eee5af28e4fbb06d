/-
# The pipes between the library and a reader process

`hdfstream_dataset_multi_slice_open` and `hdfstream_object_open` send a request to a worker as a
sequence of untyped fields, and `do_read_dataset` and `do_read_object` take the fields out of the
pipe again.  This file is the model of both sides of one slot of the process pool:

* the messages of a request (`Call.messages`) and the programs that read them (`readCommand`);
* the loops of `do_write` and `do_read`, with one step for each system call;
* what the library does when a call fails: `process_pool_release_worker`, which looks only at
  whether the process is alive.

What is not decided by the program is in the `Action`: how many bytes a call moves, how it fails,
what the worker finds when it opens the file, and when the worker dies.  `EPIPE` and end of file
make the library wait for the end of the process, so the worker is dead after them.  A fresh
worker is one whose start-up messages have been exchanged.  What the worker does with a request
after its reply goes through shared memory and not through the pipes.
-/
import HdfStream.Lib.Fields
import HdfStream.Lib.Machine

namespace HdfStream.Framing

open Fields
open Msgpack (Bytes)
open Fields.Reader (feed)

/-! ## 1. Requests -/

/-- The arguments of `hdfstream_dataset_multi_slice_open` and `hdfstream_object_open`. -/
inductive Call where
  | dataset (fileName datasetName : Bytes) (nrSlices rank : Int) (start count : List UInt64)
      (bufferSize : UInt64)
  | object (fileName objectName : Bytes) (maxDepth : Int) (bufferSize dataSizeLimit : UInt64)
deriving DecidableEq

/-- A string of the language: no null byte in it, and its size is a `size_t`. -/
def IsCString (s : Bytes) : Prop := 0 ∉ s ∧ s.length + 1 < 18446744073709551616

instance : DecidablePred IsCString := fun _ => inferInstanceAs (Decidable (_ ∧ _))

/-- `HDFSTREAM_MAX_DIMS` -/
def maxDims : Int := 32

/-- `HDFSTREAM_MAX_SLICES` -/
def maxSlices : Int := 16777216

/-- What the types of the arguments say: strings, an `int`, and arrays with `nr_slices*rank`
entries. -/
def Call.WellTyped : Call → Prop
  | .dataset fileName datasetName nrSlices rank start count _ =>
    IsCString fileName ∧ IsCString datasetName ∧ start.length = (nrSlices * rank).toNat ∧
      count.length = (nrSlices * rank).toNat
  | .object fileName objectName maxDepth _ _ =>
    IsCString fileName ∧ IsCString objectName ∧ IsInt maxDepth

/-- The sanity checks on the parameters. -/
def Call.Checked : Call → Prop
  | .dataset _ _ nrSlices rank _ _ bufferSize =>
    (0 ≤ rank ∧ rank ≤ maxDims) ∧ (1 ≤ nrSlices ∧ nrSlices ≤ maxSlices) ∧ bufferSize ≠ 0
  | .object _ _ maxDepth bufferSize _ => 0 ≤ maxDepth ∧ bufferSize ≠ 0

instance : DecidablePred IsInt := fun _ => inferInstanceAs (Decidable (_ ∧ _))

instance : DecidablePred Call.WellTyped := fun c => by
  cases c <;> exact inferInstanceAs (Decidable (_ ∧ _))

instance : DecidablePred Call.Checked := fun c => by
  cases c <;> exact inferInstanceAs (Decidable (_ ∧ _))

/-- `COMMAND_OPEN_DATASET` -/
def commandOpenDataset : Int := 1001

/-- `COMMAND_OPEN_OBJECT` -/
def commandOpenObject : Int := 1002

/-- `COMMAND_EXIT` -/
def commandExit : Int := 1000

/-- The messages of a name: its size with the null byte, and its bytes. -/
def nameMessages (name : Bytes) : List Bytes :=
  [sizeBytes (UInt64.ofNat (name.length + 1)), stringBytes name]

/-- What `hdfstream_dataset_multi_slice_open` and `hdfstream_object_open` send, one entry for
each `worker_process_send`. -/
def Call.messages : Call → List Bytes
  | .dataset fileName datasetName nrSlices rank start count bufferSize =>
    [intBytes commandOpenDataset] ++ nameMessages fileName ++ nameMessages datasetName ++
      [intBytes rank, intBytes nrSlices, arrayBytes start, arrayBytes count, sizeBytes bufferSize]
  | .object fileName objectName maxDepth bufferSize dataSizeLimit =>
    [intBytes commandOpenObject] ++ nameMessages fileName ++ nameMessages objectName ++
      [intBytes maxDepth, sizeBytes dataSizeLimit, sizeBytes bufferSize]

/-- The bytes of a request. -/
def Call.encoding (c : Call) : Bytes := c.messages.flatten

/-! ## 2. The worker reads a request -/

/-- What the worker has received. -/
inductive Command where
  | call (c : Call)
  | exit
  | unrecognised (code : Int)

/-- `worker_recv` of an `int`. -/
def recvInt (k : Int → Reader Command) : Reader Command := .recv 4 fun bs => k (readInt bs)

/-- `worker_recv` of a `size_t`. -/
def recvSize (k : UInt64 → Reader Command) : Reader Command := .recv 8 fun bs => k (readSize bs)

/-- A name: its size, and then the bytes. -/
def recvName (k : Bytes → Reader Command) : Reader Command :=
  recvSize fun len => .recv len.toNat fun bs => k (readString bs)

/-- An array: `rank*nr_slices*sizeof(hsize_t)` bytes. -/
def recvArray (rank nrSlices : Int) (k : List UInt64 → Reader Command) : Reader Command :=
  let size := (UInt64.ofInt (rank * nrSlices) * 8).toNat
  .recv size fun bs => k (readArray (size / 8) bs)

/-- The fields of `do_read_dataset`. -/
def doReadDataset : Reader Command :=
  recvName fun fileName => recvName fun datasetName =>
    recvInt fun rank => recvInt fun nrSlices =>
      recvArray rank nrSlices fun start => recvArray rank nrSlices fun count =>
        recvSize fun bufferSize =>
          .done (.call (.dataset fileName datasetName nrSlices rank start count bufferSize))

/-- The fields of `do_read_object`. -/
def doReadObject : Reader Command :=
  recvName fun fileName => recvName fun objectName =>
    recvInt fun maxDepth => recvSize fun dataSizeLimit => recvSize fun bufferSize =>
      .done (.call (.object fileName objectName maxDepth bufferSize dataSizeLimit))

/-- One round of the main loop: the command code, and the fields of the command. -/
def readCommand : Reader Command :=
  recvInt fun command =>
    if command = commandOpenDataset then doReadDataset
    else if command = commandOpenObject then doReadObject
    else if command = commandExit then .done .exit
    else .done (.unrecognised command)

/-! ## 3. The return code -/

/-- The status that the worker sends: `RESULT_FILE_OPENED` and `RESULT_DATASET_OPENED`. -/
def Call.status (fileOpened datasetOpened : Bool) : Call → Int
  | .dataset .. => if fileOpened then (if datasetOpened then 3 else 1) else 0
  | .object .. => if fileOpened then 1 else 0

/-- The library returns a stream for this return code. -/
def Call.Succeeds (retcode : Int) : Call → Prop
  | .dataset .. => retcode = 3
  | .object .. => retcode % 2 = 1

instance (retcode : Int) : DecidablePred (Call.Succeeds retcode) := fun c => by
  cases c <;> exact inferInstanceAs (Decidable (_ = _))

/-! ## 4. The machine -/

/-- What the library does with the slot and its worker. -/
inductive Client where
  /-- The slot is `STOPPED`: it has no worker. -/
  | stopped
  /-- The slot is `IDLE`. -/
  | idle
  /-- In `worker_process_send`: the rest of this message, and the messages after it. -/
  | sending (c : Call) (nleft : Bytes) (rest : List Bytes)
  /-- In `worker_process_recv` of the return code, with the bytes that were read. -/
  | receiving (c : Call) (got : Bytes)
  /-- The caller has the stream. -/
  | streaming
  /-- At `process_pool_release_worker`. -/
  | releasing
deriving DecidableEq

/-- What the worker does. -/
inductive Worker where
  /-- In `worker_recv`, with the bytes of the field that were read. -/
  | reading (p : Reader Command) (got : Bytes)
  /-- It opens the file and the dataset. -/
  | opening (c : Call)
  /-- In `worker_send` of the status. -/
  | replying (left : Bytes)
  /-- From the reply to the next round of the main loop. -/
  | working

/-- The system.  The last five fields are a record of the conversation with this worker: the
requests all of whose messages were sent, the requests decoded, the bytes the worker took from
its pipe, the status values it sent, and the return codes the library received. -/
structure State where
  client : Client
  worker : Worker
  alive : Bool
  inPipe : Bytes
  outPipe : Bytes
  requests : List Call
  decoded : List Call
  consumed : Bytes
  statuses : List Int
  retcodes : List Int

/-- A new worker in the slot, at the start of its main loop. -/
def fresh : State where
  client := .idle
  worker := .reading readCommand []
  alive := true
  inPipe := []
  outPipe := []
  requests := []
  decoded := []
  consumed := []
  statuses := []
  retcodes := []

/-- What `write` returns. -/
inductive WriteResult where
  | written (n : Nat)
  | eintr
  | epipe
  | error

/-- What `read` returns. -/
inductive ReadResult where
  | read (n : Nat)
  | endOfFile
  | eintr
  | epipe
  | error

/-- What may happen next. -/
inductive Action where
  /-- `hdfstream_dataset_multi_slice_open` or `hdfstream_object_open` is called. -/
  | open (c : Call)
  /-- A `write` of the library. -/
  | write (r : WriteResult)
  /-- A `read` of the library. -/
  | read (r : ReadResult)
  /-- `hdfstream_close_stream`, up to the release. -/
  | close
  /-- `process_pool_release_worker` -/
  | release
  /-- The pool finds a dead worker in the slot. -/
  | discard
  /-- A `read` of the worker. -/
  | workerRead (n : Nat)
  /-- The worker has tried to open the file and the dataset. -/
  | opened (fileOpened datasetOpened : Bool)
  /-- A `write` of the worker. -/
  | workerWrite (n : Nat)
  /-- A system call of the worker is interrupted. -/
  | workerEintr
  /-- The worker has finished with the request. -/
  | finish
  | die

namespace State

def setClient (s : State) (c : Client) : State := { s with client := c }

def setWorker (s : State) (w : Worker) : State := { s with worker := w }

/-- The worker is dead, and the library knows. -/
def reap (s : State) : State := { s with alive := false }

/-- The slot has no worker any more. -/
def stop (s : State) : State := { s with client := .stopped, alive := false }

/-- All messages are sent. -/
def sent (s : State) (c : Call) : State :=
  { s with client := .receiving c [], requests := s.requests ++ [c] }

/-- The library goes on to the next message; a message without bytes needs no call. -/
def sendNext (s : State) (c : Call) : List Bytes → State
  | [] => s.sent c
  | m :: ms => if m = [] then s.sendNext c ms else s.setClient (.sending c m ms)

/-- `n` bytes of a message go into the pipe. -/
def push (s : State) (bs : Bytes) : State := { s with inPipe := s.inPipe ++ bs }

/-- The first `n` bytes leave the pipe of the replies. -/
def pull (s : State) (n : Nat) : State := { s with outPipe := s.outPipe.drop n }

/-- The library has the return code. -/
def received (s : State) (c : Call) (retcode : Int) : State :=
  { s with
    client := if c.Succeeds retcode then .streaming else .releasing
    retcodes := s.retcodes ++ [retcode] }

/-- The worker takes the first `n` bytes from its pipe. -/
def take (s : State) (n : Nat) : State :=
  { s with inPipe := s.inPipe.drop n, consumed := s.consumed ++ s.inPipe.take n }

/-- The worker has a request. -/
def accept (s : State) (c : Call) : State :=
  { s with worker := .opening c, decoded := s.decoded ++ [c] }

/-- The worker sends a status. -/
def reply (s : State) (status : Int) : State :=
  { s with worker := .replying (intBytes status), statuses := s.statuses ++ [status] }

/-- The worker puts bytes into its pipe. -/
def put (s : State) (bs : Bytes) : State := { s with outPipe := s.outPipe ++ bs }

end State

/-- The worker after some more bytes. -/
def advance (s : State) : Reader Command × Bytes → State
  | (.recv n k, got) => s.setWorker (.reading (.recv n k) got)
  | (.done (.call c), _) => s.accept c
  | (.done .exit, _) => s.reap
  | (.done (.unrecognised _), _) => s.reap

/-- A call of one of the two functions: the sanity checks, then the slot, which gets a new worker
if it has none. -/
def openCall (s : State) (c : Call) : Option State :=
  if c.Checked then
    match s.client with
    | .stopped => some (fresh.sendNext c c.messages)
    | .idle => if s.alive then some (s.sendNext c c.messages) else none
    | _ => none
  else some s

/-- A `write` of the library. -/
def writeStep (s : State) : WriteResult → Option State
  | .written n =>
    match s.client with
    | .sending c nleft rest =>
      if 0 < n ∧ n ≤ nleft.length then
        some ((s.push (nleft.take n)).sendNext c (nleft.drop n :: rest))
      else none
    | _ => none
  | .eintr =>
    match s.client with
    | .sending .. => some s
    | _ => none
  | .epipe =>
    match s.client with
    | .sending .. => some (s.reap.setClient .releasing)
    | _ => none
  | .error =>
    match s.client with
    | .sending .. => some (s.setClient .releasing)
    | _ => none

/-- A `read` of the library. -/
def readStep (s : State) : ReadResult → Option State
  | .read n =>
    match s.client with
    | .receiving c got =>
      if 0 < n ∧ n ≤ 4 - got.length ∧ n ≤ s.outPipe.length then
        let got' := got ++ s.outPipe.take n
        if got'.length < 4 then some ((s.pull n).setClient (.receiving c got'))
        else some ((s.pull n).received c (readInt got'))
      else none
    | _ => none
  | .eintr =>
    match s.client with
    | .receiving .. => some s
    | _ => none
  | .endOfFile | .epipe =>
    match s.client with
    | .receiving .. => some (s.reap.setClient .releasing)
    | _ => none
  | .error =>
    match s.client with
    | .receiving .. => some (s.setClient .releasing)
    | _ => none

/-- A step of the worker. -/
def workerStep (s : State) : Action → Option State
  | .workerRead n =>
    match s.worker with
    | .reading p got =>
      match p with
      | .recv size _ =>
        if 0 < n ∧ n ≤ size - got.length ∧ n ≤ s.inPipe.length then
          some (advance (s.take n) (feed p (got ++ s.inPipe.take n)))
        else none
      | .done _ => none
    | _ => none
  | .opened fileOpened datasetOpened =>
    match s.worker with
    | .opening c => some (s.reply (c.status fileOpened datasetOpened))
    | _ => none
  | .workerWrite n =>
    match s.worker with
    | .replying left =>
      if 0 < n ∧ n ≤ left.length then
        some ((s.put (left.take n)).setWorker
          (if left.drop n = [] then .working else .replying (left.drop n)))
      else none
    | _ => none
  | .workerEintr =>
    match s.worker with
    | .reading .. | .replying .. => some s
    | _ => none
  | .finish =>
    match s.worker with
    | .working => some (s.setWorker (.reading readCommand []))
    | _ => none
  | _ => none

/-- The step function. -/
def exec (s : State) : Action → Option State
  | .open c => if c.WellTyped then openCall s c else none
  | .write r => writeStep s r
  | .read r => readStep s r
  | .close =>
    match s.client with
    | .streaming => some (s.setClient .releasing)
    | _ => none
  | .release =>
    match s.client with
    | .releasing => some (if s.alive then s.setClient .idle else s.stop)
    | _ => none
  | .discard =>
    match s.client with
    | .idle => if s.alive then none else some s.stop
    | _ => none
  | .die => if s.alive then some s.reap else none
  | a => if s.alive then workerStep s a else none

/-- Before the first request. -/
def start : State := fresh.stop

/-- One slot of the pool, from the start. -/
def machine : Machine State Action where
  init := start
  exec := exec

end HdfStream.Framing
