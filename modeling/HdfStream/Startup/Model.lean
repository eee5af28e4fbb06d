/-
# The start and the end of a worker

A worker and the library share a region of memory.  They find it by a name: `reader_init` creates a
file under a name made of the two process ids, sends the name to the worker, waits until the worker
has mapped the file, and removes the name.  If anything fails on the way then `worker_process_new`
frees what there is, with `reader_shutdown`, which also ends the life of a worker that has run.

This is the model of `reader_init` and `reader_shutdown`, of what `shared_memory.c` and
`shared_data_populate` do there, of the parts of `worker_process_new` and `worker_process_free`
around them, and of `main` of the reader up to its loop.  Any number of workers start and end at the
same time, in different threads or for different pools; each call of the system is a step, and what
it returns is in the action.  The names are those of one host, and some may have been left by
processes that are gone.

Messages are whole here: how their bytes are framed is in `Framing.Model`, and when a pipe tells
that a process is dead in `Descriptors.Model`.  A name has at most 32 bytes, so it is not cut off.
-/
import HdfStream.Lib.Machine
import Mathlib.Logic.Function.Basic

namespace HdfStream.Startup

/-! ## 1. Names and files -/

/-- `snprintf(name, MAX_SM_NAME_LENGTH, "/hdfstream_%d_%d", parent_pid, child_pid)`. -/
def smName (parentPid childPid : Nat) : String :=
  "/hdfstream_" ++ (Nat.repr parentPid ++ ("_" ++ Nat.repr childPid))

/-- A file in shared memory: one that an earlier process has left, or the one that was created for
a worker. -/
inductive File where
  | leftover
  | region (w : Nat)
deriving DecidableEq

/-- `struct shared_memory`; `fd` and `data` refer to the file. -/
structure SharedMemory where
  name : String
  size : Nat
  file : File
deriving DecidableEq

/-- The names that are in use. -/
abbrev Names := String → Option File

/-- `shm_unlink`. -/
def shmUnlink (names : Names) (name : String) : Names := Function.update names name none

/-! ## 2. The two sides -/

/-- `struct reader_data`. -/
structure ReaderData where
  sm : Option SharedMemory
  fileCache : Bool
deriving DecidableEq

/-- What `worker->data` points to. -/
inductive Data where
  | hdfstream
  | null
  | reader (rd : ReaderData)
deriving DecidableEq

/-- `rd->sm`, if there is an `rd`. -/
def Data.sm : Data → Option SharedMemory
  | .reader rd => rd.sm
  | _ => none

/-- How far the library is with a worker. -/
inductive Stage where
  /-- `reader_init` is called. -/
  | init
  /-- In `worker_default_init`. -/
  | greeting
  | mallocData
  /-- In `shared_memory_new`. -/
  | shmOpen
  | ftruncate
  | mmap
  /-- At the three sends. -/
  | sendSize
  | sendLength
  | sendName
  | recvAck
  | fileCacheNew
  /-- At `shared_memory_unlink` before `return 0`. -/
  | unlink
  /-- At the label `cleanup`. -/
  | cleanup
  /-- `worker_process_new` has returned the worker. -/
  | running
  /-- In `worker_process_free`, at the calls of `waitpid`. -/
  | waiting
  /-- At `worker->shutdown(worker)`. -/
  | shutdown
  | freed
deriving DecidableEq

/-- How far the worker is in `main`. -/
inductive Child where
  /-- Up to the send in `worker_init`. -/
  | starting
  | recvSize
  | recvLength (size : Nat)
  | recvName (size length : Nat)
  /-- In `shared_memory_map`. -/
  | shmOpen (size : Nat) (name : String)
  | mmap (sm : SharedMemory)
  /-- At the acknowledgement, with what `shared_memory_map` has returned. -/
  | ack (sm : Option SharedMemory)
  /-- In the loop. -/
  | ready (sm : SharedMemory)
  /-- At `sm->data`, and `sm` is `NULL`. -/
  | doomed
  | dead
deriving DecidableEq

/-- The region that the process of the worker has mapped. -/
def Child.mapped : Child → Option SharedMemory
  | .ack sm => sm
  | .ready sm => some sm
  | _ => none

inductive Message where
  | size (n : Nat)
  | length (n : Nat)
  | name (s : String)
deriving DecidableEq

/-- A worker, with its process, the messages in its pipes, and what the library holds of its
region. -/
structure Worker where
  stage : Stage
  pid : Nat
  data : Data
  /-- `worker->is_dead` -/
  isDead : Bool
  /-- `waitpid` has returned the process. -/
  waited : Bool
  child : Child
  toChild : List Message
  toClient : List Int
  /-- The library has the file open. -/
  fd : Bool
  /-- The library has it mapped. -/
  mapped : Bool
  /-- The size of the file. -/
  fileSize : Nat
  /-- The header has been written by `shared_data_populate`. -/
  populated : Bool
  /-- `reader_shutdown` was called with something that is not a `struct reader_data`, or has
  unmapped what is not mapped. -/
  fault : Bool

/-- `getpid()`, `shared_data_size(HDFSTREAM_MAX_BUFFER_SIZE)`, whether assertions are compiled in,
and the names that are there at the start. -/
structure Config where
  parentPid : Nat
  totalSize : Nat
  ndebug : Bool
  leftover : String → Bool

/-- The name of the region of a worker. -/
def Worker.name (W : Worker) (cfg : Config) : String := smName cfg.parentPid W.pid

/-! ## 3. The library -/

/-- A step of the library with a worker, with what the system answers. -/
inductive LibraryAction where
  /-- The first two assignments of `reader_init`. -/
  | enter
  | recvGreeting
  | malloc (ok : Bool)
  | shmOpen (ok : Bool)
  | ftruncate (ok : Bool)
  /-- `mmap`, and `shared_data_populate` after it. -/
  | mmap (ok : Bool)
  | send
  | recvAck
  /-- A send or a receive finds the process dead, and waits for it. -/
  | broken
  /-- A send or a receive fails for another reason. -/
  | error
  | fileCacheNew (ok : Bool)
  /-- `shared_memory_unlink`, at the end of `reader_init` or at its `cleanup`. -/
  | unlink
  /-- The pool finds the process dead, and has waited for it. -/
  | notice
  /-- `worker_process_free` is called. -/
  | free
  | waitpid
  | shutdown
deriving DecidableEq

/-- `worker_process_free` up to its first wait; it kills the process if it is not dead. -/
def Worker.free (W : Worker) : Worker :=
  { W with stage := if W.isDead then .shutdown else .waiting }

/-- The end of a send or a receive that has failed: `worker_default_init` returns -1 and so does
`reader_init`, and any other one goes to `cleanup`. -/
def Worker.fail (W : Worker) : Worker :=
  match W.stage with
  | .greeting => W.free
  | _ => { W with stage := .cleanup }

/-- The stages in a send or a receive. -/
def Stage.talks : Stage → Bool
  | .greeting | .sendSize | .sendLength | .sendName | .recvAck => true
  | _ => false

/-- `reader_shutdown`. -/
def readerShutdown (W : Worker) : Worker :=
  match W.data with
  | .hdfstream => { W with fault := true }
  | .null => W
  | .reader rd =>
    match rd.sm with
    | some _ =>
      { W with fd := false, mapped := false, fault := W.fault || !W.mapped || !W.fd, data := .null }
    | none => { W with data := .null }

/-- The messages that are sent to a worker, one after the other. -/
def Worker.messages (W : Worker) (cfg : Config) : List Message :=
  [.size cfg.totalSize, .length ((W.name cfg).length + 1), .name (W.name cfg)]

/-- A step of the library with worker `w`. -/
def libraryStep (cfg : Config) (w : Nat) (W : Worker) (names : Names) :
    LibraryAction → Option (Worker × Names)
  | .enter =>
    if W.stage = .init then some ({ W with data := .null, stage := .greeting }, names) else none
  | .recvGreeting =>
    match W.stage, W.toClient with
    | .greeting, _ :: rest => some ({ W with toClient := rest, stage := .mallocData }, names)
    | _, _ => none
  | .malloc ok =>
    if W.stage = .mallocData then
      if ok then
        some ({ W with data := .reader { sm := none, fileCache := false }, stage := .shmOpen },
          names)
      else some (({ W with data := .null } : Worker).free, names)
    else none
  | .shmOpen ok =>
    if W.stage = .shmOpen then
      -- `O_CREAT | O_EXCL`
      if ok ∧ names (W.name cfg) = none then
        some ({ W with fd := true, fileSize := 0, populated := false, stage := .ftruncate },
          Function.update names (W.name cfg) (some (.region w)))
      else some (W.free, names)
    else none
  | .ftruncate ok =>
    if W.stage = .ftruncate then
      if ok then some ({ W with fileSize := cfg.totalSize, stage := .mmap }, names)
      else some (({ W with fd := false } : Worker).free, shmUnlink names (W.name cfg))
    else none
  | .mmap ok =>
    if W.stage = .mmap then
      if ok then
        some ({ W with
          mapped := true
          populated := true
          data := .reader
            { sm := some { name := W.name cfg, size := cfg.totalSize, file := .region w }
              fileCache := false }
          stage := .sendSize }, names)
      else some (({ W with fd := false } : Worker).free, shmUnlink names (W.name cfg))
    else none
  | .send =>
    match W.stage with
    | .sendSize =>
      some ({ W with toChild := W.toChild ++ [.size cfg.totalSize], stage := .sendLength }, names)
    | .sendLength =>
      some ({ W with
        toChild := W.toChild ++ [.length ((W.name cfg).length + 1)], stage := .sendName }, names)
    | .sendName =>
      some ({ W with toChild := W.toChild ++ [.name (W.name cfg)], stage := .recvAck }, names)
    | _ => none
  | .recvAck =>
    match W.stage, W.toClient with
    | .recvAck, ack :: rest =>
      some ({ W with toClient := rest, stage := if ack ≠ 0 then .cleanup else .fileCacheNew },
        names)
    | _, _ => none
  | .broken =>
    if W.stage.talks ∧ W.child = .dead then
      some (({ W with isDead := true, waited := true } : Worker).fail, names)
    else none
  | .error => if W.stage.talks then some (W.fail, names) else none
  | .fileCacheNew ok =>
    match W.stage, W.data with
    | .fileCacheNew, .reader rd =>
      if ok then
        some ({ W with data := .reader { rd with fileCache := true }, stage := .unlink }, names)
      else some ({ W with stage := .cleanup }, names)
    | _, _ => none
  | .unlink =>
    match W.stage, W.data.sm with
    | .unlink, some sm => some ({ W with stage := .running }, shmUnlink names sm.name)
    | .cleanup, some sm => some (W.free, shmUnlink names sm.name)
    | .cleanup, none => some (W.free, names)
    | _, _ => none
  | .notice =>
    if W.stage = .running ∧ W.child = .dead ∧ W.isDead = false then
      some ({ W with isDead := true, waited := true }, names)
    else none
  | .free => if W.stage = .running then some (W.free, names) else none
  | .waitpid =>
    if W.stage = .waiting ∧ W.child = .dead then
      some ({ W with waited := true, stage := .shutdown }, names)
    else none
  | .shutdown =>
    if W.stage = .shutdown then some ({ readerShutdown W with stage := .freed }, names) else none

/-! ## 4. The worker -/

/-- A step of the process of a worker. -/
inductive ChildAction where
  | greet
  | recv
  | shmOpen (ok : Bool)
  | mmap (ok : Bool)
  | ack
  /-- The process ends, for whatever reason. -/
  | die
deriving DecidableEq

/-- `assert(sm)` after `shared_memory_map` has returned `NULL`. -/
def mapFailed (cfg : Config) : Child := if cfg.ndebug then .ack none else .dead

/-- A step of the process of a worker. -/
def childStep (cfg : Config) (W : Worker) (names : Names) : ChildAction → Option Worker
  | .greet =>
    if W.child = .starting then
      some { W with toClient := W.toClient ++ [1], child := .recvSize }
    else none
  | .recv =>
    match W.child, W.toChild with
    | .recvSize, .size n :: rest => some { W with toChild := rest, child := .recvLength n }
    | .recvLength n, .length l :: rest => some { W with toChild := rest, child := .recvName n l }
    | .recvName n _, .name s :: rest => some { W with toChild := rest, child := .shmOpen n s }
    | _, _ => none
  | .shmOpen ok =>
    match W.child with
    | .shmOpen n s =>
      match ok, names s with
      | true, some file => some { W with child := .mmap { name := s, size := n, file := file } }
      | _, _ => some { W with child := mapFailed cfg }
    | _ => none
  | .mmap ok =>
    match W.child with
    | .mmap sm => some { W with child := if ok then .ack (some sm) else mapFailed cfg }
    | _ => none
  | .ack =>
    match W.child with
    | .ack (some sm) => some { W with toClient := W.toClient ++ [0], child := .ready sm }
    | .ack none => some { W with toClient := W.toClient ++ [0], child := .doomed }
    | _ => none
  | .die => if W.child = .dead then none else some { W with child := .dead }

/-! ## 5. The machine -/

structure State where
  /-- How many processes have been forked. -/
  calls : Nat
  worker : Nat → Worker
  names : Names

inductive Action where
  /-- `worker_process_new` has forked a process with this id and calls `worker->init`. -/
  | new (pid : Nat)
  | library (w : Nat) (a : LibraryAction)
  | child (w : Nat) (a : ChildAction)
deriving DecidableEq

/-- A worker at the call of `reader_init`. -/
def newWorker (pid : Nat) : Worker where
  stage := .init
  pid := pid
  data := .hdfstream
  isDead := false
  waited := false
  child := .starting
  toChild := []
  toClient := []
  fd := false
  mapped := false
  fileSize := 0
  populated := false
  fault := false

/-- The step function.  The id of a new process is not that of a process that has not been waited
for. -/
def exec (cfg : Config) (s : State) : Action → Option State
  | .new pid =>
    if (List.range s.calls).all (fun w => (s.worker w).waited || (s.worker w).pid ≠ pid) then
      some { s with
        calls := s.calls + 1
        worker := Function.update s.worker s.calls (newWorker pid) }
    else none
  | .library w a =>
    if w < s.calls then
      (libraryStep cfg w (s.worker w) s.names a).map fun r =>
        { s with worker := Function.update s.worker w r.1, names := r.2 }
    else none
  | .child w a =>
    if w < s.calls then
      (childStep cfg (s.worker w) s.names a).map fun W =>
        { s with worker := Function.update s.worker w W }
    else none

/-- No process has been forked. -/
def start (cfg : Config) : State where
  calls := 0
  worker := fun _ => newWorker 0
  names := fun name => if cfg.leftover name then some .leftover else none

/-- The workers of one client process. -/
def machine (cfg : Config) : Machine State Action where
  init := start cfg
  exec := exec cfg

end HdfStream.Startup
