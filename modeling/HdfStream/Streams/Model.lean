/-
# The native library behind `HDFStream`

The Java class `HDFStream` owns a native library; every open `DataStream` and every call in
progress holds a reference to it, and `free` waits until there is no other.  This file is the
model of `HDFStream.java` and `DataStream.java`, with one step for each synchronized method, each
access to a shared field and each end of a native call:

* `openObject` and `openDatasetSlices` (which differ in their arguments only) and `getCacheInfo`;
* `read` and `close` of a stream, which any thread may call on any stream at any time;
* `free`, called by one thread.

What the program does not decide is in the `Action`: which thread moves, whether the checks of the
arguments fail, what a native call returns, whether a read finds bytes in the buffer, and when the
thread in `free` is interrupted.  `int` is 32-bit two's complement.
-/
import HdfStream.Lib.Machine
import HdfStream.Lib.Counting
import Mathlib.Algebra.Ring.Int.Defs
import Mathlib.Algebra.Ring.Nat

namespace HdfStream.Streams

/-- The methods that hold a reference while they run. -/
inductive Method where
  | openStream
  | getCacheInfo
deriving DecidableEq

/-- The fields of an `HDFStream`.  `ptr` says whether the pointer is not zero. -/
structure HDFStream where
  ptr : Bool
  refCount : Int
  stopping : Bool

/-- The fields of a `DataStream`, and how often it has released its reference. -/
structure DataStream where
  endOfStream : Bool
  closed : Bool
  releases : Nat

namespace DataStream

/-- A new stream. -/
def new : DataStream := { endOfStream := false, closed := false, releases := 0 }

/-- `end_of_stream` is set. -/
def markEnd (ds : DataStream) : DataStream := { ds with endOfStream := true }

/-- `closed` is set. -/
def markClosed (ds : DataStream) : DataStream := { ds with closed := true }

/-- The reference is released. -/
def release (ds : DataStream) : DataStream := { ds with releases := ds.releases + 1 }

end DataStream

/-- Control points of a thread.  `d` is the stream a method is called on. -/
inductive ThreadPc where
  | outside
  /-- It has a reference; the checks of the arguments. -/
  | checking (m : Method)
  /-- In `c_open_object`, `c_open_slices` or `c_cache_info`. -/
  | native (m : Method)
  /-- `releaseReference` in `catch` or `finally`. -/
  | releasing
  /-- In `read`: `end_of_stream` is read. -/
  | readEnd (d : Nat)
  /-- In `read`: `closed` is read. -/
  | readClosed (d : Nat)
  /-- In `c_read_chunk`. -/
  | readChunk (d : Nat)
  /-- In `readChunk`, at the end of the stream. -/
  | markEnd (d : Nat)
  /-- In `close`: `closed` is read. -/
  | checkClosed (d : Nat)
  | markClosed (d : Nat)
  /-- In `c_free` of the stream. -/
  | freeStream (d : Nat)
  /-- `releaseReference` in `close`. -/
  | closeRelease (d : Nat)
deriving DecidableEq

/-- Control points of the thread that calls `free`. -/
inductive FreePc where
  | notCalled
  | shutDown
  /-- `getReferenceCount() > 1`. -/
  | waiting
  | sleeping
  /-- In `c_free` of the library. -/
  | freeing
  | clearPtr
  | releasing
  | finalCheck
  | returned
  /-- It has thrown an exception. -/
  | thrown
deriving DecidableEq

/-- The whole system. -/
structure State where
  lib : HDFStream
  /-- `c_free` of the library has not been called. -/
  allocated : Bool
  nrStreams : Nat
  stream : Nat → DataStream
  thread : Nat → ThreadPc
  free : FreePc
  /-- A native call was started after the library was freed. -/
  fault : Bool
  /-- A `releaseReference` has thrown an exception. -/
  failedRelease : Bool

namespace State

/-- Move one thread. -/
def setThread (s : State) (t : Nat) (pc : ThreadPc) : State :=
  { s with thread := Function.update s.thread t pc }

/-- Change one stream. -/
def setStream (s : State) (d : Nat) (ds : DataStream) : State :=
  { s with stream := Function.update s.stream d ds }

/-- A native call is started. -/
def useLibrary (s : State) : State := { s with fault := s.fault || !s.allocated }

end State

/-! ## 1. The synchronized methods -/

/-- An `int` after an addition. -/
def toInt32 (n : Int) : Int := Int.bmod n (2 ^ 32)

/-- `acquireReference`; `none` is the exception. -/
def acquireReference (lib : HDFStream) : Option HDFStream :=
  if lib.refCount ≤ 0 ∨ lib.stopping then none
  else some { lib with refCount := toInt32 (lib.refCount + 1) }

/-- `releaseReference`; `none` is the exception. -/
def releaseReference (lib : HDFStream) : Option HDFStream :=
  if lib.refCount ≤ 0 then none else some { lib with refCount := lib.refCount - 1 }

/-- `releaseReference` in a state; `done` follows a release without an exception. -/
def release (s : State) (done : State → State) : State :=
  match releaseReference s.lib with
  | none => { s with failedRelease := true }
  | some lib => done { s with lib := lib }

/-! ## 2. The machine -/

/-- What may happen next.  `t` is the thread that moves. -/
inductive Action where
  /-- A method that holds a reference is called: `acquireReference`. -/
  | call (t : Nat) (m : Method)
  /-- The checks of the arguments, with their result. -/
  | check (t : Nat) (pass : Bool)
  /-- The native call of the method returns. -/
  | ret (t : Nat) (success : Bool)
  | release (t : Nat)
  /-- `read` is called: the check for a shutdown. -/
  | read (t d : Nat)
  | readEnd (t : Nat)
  /-- The check for a closed stream; `buffered` says that the buffer has bytes. -/
  | readClosed (t : Nat) (buffered : Bool)
  /-- `c_read_chunk` returns. -/
  | chunk (t : Nat) (nrBytesRead : Int)
  | markEnd (t : Nat)
  /-- `close` is called. -/
  | close (t d : Nat)
  | checkClosed (t : Nat)
  | markClosed (t : Nat)
  /-- `c_free` of the stream returns. -/
  | streamFreed (t : Nat)
  | closeRelease (t : Nat)
  /-- The next step of `free`. -/
  | free
  /-- The thread in `free` is interrupted while it sleeps. -/
  | interrupt

/-- The thread an action belongs to. -/
def Action.thread? : Action → Option Nat
  | .call t _ | .check t _ | .ret t _ | .release t | .read t _ | .readEnd t | .readClosed t _
  | .chunk t _ | .markEnd t | .close t _ | .checkClosed t | .markClosed t | .streamFreed t
  | .closeRelease t => some t
  | .free | .interrupt => none

/-- A step of thread `t`. -/
def threadStep (s : State) (t : Nat) : Action → Option State
  | .call _ m =>
    match s.thread t with
    | .outside =>
      match acquireReference s.lib with
      | none => some s
      | some lib => some ({ s with lib := lib }.setThread t (.checking m))
    | _ => none
  | .check _ pass =>
    match s.thread t with
    | .checking m =>
      if s.lib.ptr ∧ pass then some (s.useLibrary.setThread t (.native m))
      else some (s.setThread t .releasing)
    | _ => none
  | .ret _ success =>
    match s.thread t with
    | .native .openStream =>
      if success then
        some (({ s with nrStreams := s.nrStreams + 1 }.setStream s.nrStreams .new).setThread t
          .outside)
      else some (s.setThread t .releasing)
    | .native .getCacheInfo => some (s.setThread t .releasing)
    | _ => none
  | .release _ =>
    match s.thread t with
    | .releasing => some ((release s id).setThread t .outside)
    | _ => none
  | .read _ d =>
    match s.thread t with
    | .outside =>
      if d < s.nrStreams then
        some (if s.lib.stopping then s else s.setThread t (.readEnd d))
      else none
    | _ => none
  | .readEnd _ =>
    match s.thread t with
    | .readEnd d =>
      some (s.setThread t (if (s.stream d).endOfStream then .outside else .readClosed d))
    | _ => none
  | .readClosed _ buffered =>
    match s.thread t with
    | .readClosed d =>
      if (s.stream d).closed ∨ buffered then some (s.setThread t .outside)
      else some (s.useLibrary.setThread t (.readChunk d))
    | _ => none
  | .chunk _ nrBytesRead =>
    match s.thread t with
    | .readChunk d =>
      some (s.setThread t
        (if nrBytesRead < 0 then .checkClosed d
        else if nrBytesRead = 0 then .markEnd d
        else .outside))
    | _ => none
  | .markEnd _ =>
    match s.thread t with
    | .markEnd d =>
      some ((s.setStream d (s.stream d).markEnd).setThread t (.checkClosed d))
    | _ => none
  | .close _ d =>
    match s.thread t with
    | .outside => if d < s.nrStreams then some (s.setThread t (.checkClosed d)) else none
    | _ => none
  | .checkClosed _ =>
    match s.thread t with
    | .checkClosed d =>
      some (s.setThread t (if (s.stream d).closed then .outside else .markClosed d))
    | _ => none
  | .markClosed _ =>
    match s.thread t with
    | .markClosed d =>
      some ((s.setStream d (s.stream d).markClosed).useLibrary.setThread t (.freeStream d))
    | _ => none
  | .streamFreed _ =>
    match s.thread t with
    | .freeStream d => some (s.setThread t (.closeRelease d))
    | _ => none
  | .closeRelease _ =>
    match s.thread t with
    | .closeRelease d =>
      some ((release s fun s => s.setStream d (s.stream d).release).setThread t .outside)
    | _ => none
  | .free => none
  | .interrupt => none

/-- `c_free` of the library is called. -/
def startFree (s : State) : State := { s with allocated := false, free := .freeing }

/-- A step of `free`. -/
def freeStep (s : State) : Option State :=
  match s.free with
  | .notCalled => some { s with free := if s.lib.ptr then .shutDown else .thrown }
  | .shutDown => some { s with lib := { s.lib with stopping := true }, free := .waiting }
  | .waiting => some (if 1 < s.lib.refCount then { s with free := .sleeping } else startFree s)
  | .sleeping => some { s with free := .waiting }
  | .freeing => some { s with free := .clearPtr }
  | .clearPtr => some { s with lib := { s.lib with ptr := false }, free := .releasing }
  | .releasing =>
    match releaseReference s.lib with
    | none => some { s with failedRelease := true, free := .thrown }
    | some lib => some { s with lib := lib, free := .finalCheck }
  | .finalCheck => some { s with free := if s.lib.refCount ≠ 0 then .thrown else .returned }
  | .returned => none
  | .thrown => none

/-- The step function, for `nrThreads` threads. -/
def exec (nrThreads : Nat) (s : State) (a : Action) : Option State :=
  match a.thread? with
  | some t => if t < nrThreads then threadStep s t a else none
  | none =>
    match a with
    | .interrupt => if s.free = .sleeping then some (startFree s) else none
    | _ => freeStep s

/-- After the constructor. -/
def start : State where
  lib := { ptr := true, refCount := 1, stopping := false }
  allocated := true
  nrStreams := 0
  stream := fun _ => .new
  thread := fun _ => .outside
  free := .notCalled
  fault := false
  failedRelease := false

/-- One library and its threads. -/
def machine (nrThreads : Nat) : Machine State Action where
  init := start
  exec := exec nrThreads

end HdfStream.Streams
