/-
# The pool of worker processes

Client threads share at most `max_nr_processes` worker processes.  The slots, the number of
running processes and the `stop` flag are protected by a mutex; a semaphore counts the idle
workers.  This file is the model of `process_pool.c` and of what it uses of
`worker_process.c`, one step for each critical section and one for each access outside:

* `process_pool_get_worker_by_score` (`getValue`, `startWorker`, `wait`, `lock`, `check`,
  `discard` of `ThreadPc`), with `process_pool_start_worker`;
* `process_pool_release_worker` (`holding`, `post`);
* `process_pool_free` (`polling`, `freeing`).

What the program does not decide is in the `Action`: which thread moves, whether a new process
starts and where its struct is allocated, the scores, and when processes die.  Structs are
allocated and freed in `State.heap`; an address may be used again after it was freed.
`State.fault` is set by a step that touches a struct that is not allocated.
-/
import HdfStream.Lib.Machine
import HdfStream.Lib.Counting

namespace HdfStream.Pool

/-! ## 1. Worker processes -/

/-- The child process behind a worker: alive, alive with a signal on its way to it, dead but not
waited for, waited for. -/
inductive Child where
  | running
  | killed
  | zombie
  | reaped
deriving DecidableEq

/-- `struct worker_process`, as far as the pool reads it. -/
structure WorkerProcess where
  isDead : Bool
  child : Child
deriving DecidableEq

/-- Addresses of worker structs. -/
abbrev Ptr := Nat

/-- `worker_process_is_alive`: the answer, and the struct it leaves. -/
def workerProcessIsAlive (w : WorkerProcess) : Bool × WorkerProcess :=
  if w.isDead then (false, w)
  else
    match w.child with
    | .zombie => (false, { isDead := true, child := .reaped })
    | _ => (true, w)

/-- `kill(pid, SIGKILL)`, as `worker_process_kill` sends it.  The process dies some time later. -/
def workerProcessKill (w : WorkerProcess) : WorkerProcess :=
  match w.child with
  | .running => { w with child := .killed }
  | _ => w

/-! ## 2. The pool and its threads -/

/-- `worker_state_t`. -/
inductive WorkerState where
  | idle
  | busy
  | stopped
deriving DecidableEq

/-- `struct process_pool`.  The semaphore is its value. -/
structure ProcessPool where
  nrProcessesRunning : Int
  worker : Nat → Option Ptr
  workerState : Nat → WorkerState
  sem : Nat
  next : Nat
  stop : Bool

/-- Control points of a client thread.  `i` is the try of
`process_pool_get_worker_by_score`. -/
inductive ThreadPc where
  /-- In no call and without a worker. -/
  | outside
  /-- `sem_getvalue`. -/
  | getValue (i : Nat)
  /-- `process_pool_start_worker`. -/
  | startWorker (i : Nat)
  /-- `sem_wait` in `process_pool_wait_and_lock`. -/
  | wait (i : Nat)
  /-- The wait has returned; the critical section up to the unlock. -/
  | lock (i : Nat)
  /-- `sem_post` because no worker was found. -/
  | repost
  /-- `worker_process_is_alive` on the worker found. -/
  | check (i : Nat) (worker : Ptr)
  /-- The worker found is dead: the critical section that discards it. -/
  | discard (i : Nat) (worker : Ptr)
  /-- The call has returned this worker. -/
  | holding (worker : Ptr)
  /-- `sem_post` at the end of a release. -/
  | post
  /-- In `process_pool_free`, waiting until no worker is busy. -/
  | polling
  /-- In `process_pool_free`, at slot `j` of the last loop. -/
  | freeing (j : Nat)
deriving DecidableEq

/-- `max_nr_processes`, and how many threads use the pool. -/
structure Config where
  maxNrProcesses : Nat
  nrThreads : Nat

/-- The whole system. -/
structure State where
  pool : ProcessPool
  heap : Ptr → Option WorkerProcess
  thread : Nat → ThreadPc
  fault : Bool

/-- Move one thread. -/
def State.setThread (s : State) (t : Nat) (pc : ThreadPc) : State :=
  { s with thread := Function.update s.thread t pc }

@[simp] theorem State.setThread_pool (s : State) (t : Nat) (pc : ThreadPc) :
    (s.setThread t pc).pool = s.pool := rfl

@[simp] theorem State.setThread_heap (s : State) (t : Nat) (pc : ThreadPc) :
    (s.setThread t pc).heap = s.heap := rfl

@[simp] theorem State.setThread_fault (s : State) (t : Nat) (pc : ThreadPc) :
    (s.setThread t pc).fault = s.fault := rfl

@[simp] theorem State.setThread_thread (s : State) (t : Nat) (pc : ThreadPc) :
    (s.setThread t pc).thread = Function.update s.thread t pc := rfl

/-! ## 3. The critical sections -/

/-- `process_pool_start_worker`.  `new` is what `worker_process_new` returns if it is called; a
new struct goes to an address that is not in use. -/
def processPoolStartWorker (n : Nat) (s : State) (new : Option Ptr) : Option State :=
  let p := s.pool
  if p.nrProcessesRunning < n ∧ p.stop = false then
    match (List.range n).find? (fun i => p.workerState i == .stopped) with
    | some i =>
      match new with
      | some a =>
        if (s.heap a).isSome then none
        else
          some { s with
            pool := { p with
              worker := Function.update p.worker i (some a)
              workerState := Function.update p.workerState i .idle
              nrProcessesRunning := p.nrProcessesRunning + 1
              sem := p.sem + 1 }
            heap := Function.update s.heap a (some { isDead := false, child := .running }) }
      | none =>
        some { s with
          pool := { p with
            worker := Function.update p.worker i none
            workerState := Function.update p.workerState i .stopped } }
    | none => some s
  else some s

/-- The order in which `try_process_pool_get_worker_by_score` looks at the slots. -/
def searchOrder (n next : Nat) : List Nat := (List.range n).map (fun i => (i + next) % n)

/-- One pass of the search loop with a callback: the best slot so far and its score. -/
def scoreStep (p : ProcessPool) (cb : Option Ptr → Nat) (best : Option Nat × Int) (j : Nat) :
    Option Nat × Int :=
  if p.workerState j = .idle then
    if (cb (p.worker j) : Int) > best.2 then (some j, cb (p.worker j)) else best
  else best

/-- `high_score_index` at the end of the search loop. -/
def highScoreIndex (n : Nat) (p : ProcessPool) : Option (Option Ptr → Nat) → Option Nat
  | none => (searchOrder n p.next).find? (fun j => p.workerState j == .idle)
  | some cb => ((searchOrder n p.next).foldl (scoreStep p cb) (none, -1)).1

/-- The callback reads the struct of every idle worker. -/
def scoresDead (n : Nat) (s : State) : Bool :=
  (List.range n).any fun j =>
    s.pool.workerState j == .idle && ((s.pool.worker j).bind s.heap).isNone

/-- `worker_process_free`, as far as memory goes. -/
def workerProcessFree (s : State) (w : Ptr) : State :=
  { s with
    heap := Function.update s.heap w none
    fault := s.fault || (s.heap w).isNone }

/-- The body of the loop that discards a dead worker. -/
def discardSlot (w : Ptr) (s : State) (j : Nat) : State :=
  if s.pool.worker j = some w then
    let s := workerProcessFree s w
    { s with
      pool := { s.pool with
        worker := Function.update s.pool.worker j none
        workerState := Function.update s.pool.workerState j .stopped
        nrProcessesRunning := s.pool.nrProcessesRunning - 1 } }
  else s

/-- The slot a release finds. -/
def slotOf (n : Nat) (p : ProcessPool) (w : Ptr) : Option Nat :=
  (List.range n).find? (fun i => p.worker i == some w)

/-- `process_pool_release_worker` up to the unlock: the state, and whether to post. -/
def processPoolReleaseWorker (n : Nat) (s : State) (w : Ptr) : State × Bool :=
  match slotOf n s.pool w with
  | none => (s, false)
  | some i =>
    match s.heap w with
    | none => ({ s with fault := true }, false)
    | some wp =>
      let (alive, wp) := workerProcessIsAlive wp
      if alive then
        ({ s with
          pool := { s.pool with workerState := Function.update s.pool.workerState i .idle }
          heap := Function.update s.heap w (some wp) }, true)
      else (discardSlot w { s with heap := Function.update s.heap w (some wp) } i, false)

/-- `process_pool_free` up to the first unlock. -/
def processPoolStop (n : Nat) (s : State) : State :=
  { s with
    pool := { s.pool with stop := true, sem := s.pool.sem + 1 }
    heap := fun a =>
      if (List.range n).any (fun i =>
          s.pool.worker i == some a && s.pool.workerState i != .stopped) then
        (s.heap a).map workerProcessKill
      else s.heap a }

/-- One pass of the last loop of `process_pool_free`. -/
def freeSlot (s : State) (j : Nat) : State :=
  match s.pool.worker j with
  | some w =>
    let s := workerProcessFree s w
    { s with pool := { s.pool with worker := Function.update s.pool.worker j none } }
  | none => s

/-! ## 4. The machine -/

/-- What may happen next.  `t` is the thread that moves. -/
inductive Action where
  /-- `process_pool_get_worker_by_score` is called. -/
  | call (t : Nat)
  | getValue (t : Nat)
  /-- `process_pool_start_worker`, in a get or called by itself. -/
  | startWorker (t : Nat) (new : Option Ptr)
  | semWait (t : Nat)
  /-- The critical section of a get.  `cb` is the callback with its data. -/
  | assign (t : Nat) (cb : Option (Option Ptr → Nat))
  | check (t : Nat)
  | discard (t : Nat)
  /-- The critical section of a release. -/
  | release (t : Nat)
  /-- The `sem_post` of a release, or of a get that found nothing. -/
  | post (t : Nat)
  /-- The holder of a worker finds it dead, in a send, a receive or a wait. -/
  | notice (t : Nat)
  /-- `process_pool_free` is called. -/
  | stop (t : Nat)
  | poll (t : Nat)
  | freeNext (t : Nat)
  /-- A process dies. -/
  | die (w : Ptr)

/-- The next try of a get, or its end. -/
def nextTry (n i : Nat) : ThreadPc := if i + 1 < n + 1 then .getValue (i + 1) else .outside

/-- Where a get goes on after `process_pool_start_worker`. -/
def afterStart (nrRunning : Int) (i : Nat) : ThreadPc :=
  if nrRunning = 0 then .outside else .wait i

/-- A step of thread `t`. -/
def threadStep (n : Nat) (s : State) (t : Nat) : Action → Option State
  | .call _ =>
    match s.thread t with
    | .outside => some (s.setThread t (.getValue 0))
    | _ => none
  | .getValue _ =>
    match s.thread t with
    | .getValue i => some (s.setThread t (if s.pool.sem ≤ 0 then .startWorker i else .wait i))
    | _ => none
  | .startWorker _ new =>
    match s.thread t with
    | .startWorker i =>
      (processPoolStartWorker n s new).map fun s' =>
        s'.setThread t (afterStart s'.pool.nrProcessesRunning i)
    | .outside => processPoolStartWorker n s new
    | _ => none
  | .semWait _ =>
    match s.thread t with
    | .wait i =>
      if 0 < s.pool.sem then
        some ({ s with pool := { s.pool with sem := s.pool.sem - 1 } }.setThread t (.lock i))
      else none
    | _ => none
  | .assign _ cb =>
    match s.thread t with
    | .lock i =>
      if s.pool.stop then
        some ({ s with pool := { s.pool with sem := s.pool.sem + 1 } }.setThread t .outside)
      else
        let s := { s with fault := s.fault || (cb.isSome && scoresDead n s) }
        match highScoreIndex n s.pool cb with
        | none => some (s.setThread t .repost)
        | some j =>
          some ({ s with
            pool := { s.pool with
              workerState := Function.update s.pool.workerState j .busy
              next := (s.pool.next + 1) % n } }.setThread t
            (match s.pool.worker j with
              | some w => .check i w
              | none => .repost))
    | _ => none
  | .check _ =>
    match s.thread t with
    | .check i w =>
      match s.heap w with
      | none => some { s with fault := true }
      | some wp =>
        let (alive, wp) := workerProcessIsAlive wp
        some ({ s with heap := Function.update s.heap w (some wp) }.setThread t
          (if alive then .holding w else .discard i w))
    | _ => none
  | .discard _ =>
    match s.thread t with
    | .discard i w =>
      some (((List.range n).foldl (discardSlot w) s).setThread t (nextTry n i))
    | _ => none
  | .release _ =>
    match s.thread t with
    | .holding w =>
      let (s, running) := processPoolReleaseWorker n s w
      some (s.setThread t (if running then .post else .outside))
    | _ => none
  | .post _ =>
    match s.thread t with
    | .post | .repost =>
      some ({ s with pool := { s.pool with sem := s.pool.sem + 1 } }.setThread t .outside)
    | _ => none
  | .notice _ =>
    match s.thread t with
    | .holding w =>
      match s.heap w with
      | none => some { s with fault := true }
      | some wp =>
        some { s with heap := Function.update s.heap w (some (workerProcessIsAlive wp).2) }
    | _ => none
  | .stop _ =>
    match s.thread t with
    | .outside => some ((processPoolStop n s).setThread t .polling)
    | _ => none
  | .poll _ =>
    match s.thread t with
    | .polling =>
      if (List.range n).any (fun i => s.pool.workerState i == .busy) then some s
      else some (s.setThread t (.freeing 0))
    | _ => none
  | .freeNext _ =>
    match s.thread t with
    | .freeing j =>
      if j < n then some ((freeSlot s j).setThread t (.freeing (j + 1)))
      else some (s.setThread t .outside)
    | _ => none
  | .die _ => none

/-- The thread an action belongs to. -/
def Action.thread? : Action → Option Nat
  | .call t | .getValue t | .startWorker t _ | .semWait t | .assign t _ | .check t | .discard t
  | .release t | .post t | .notice t | .stop t | .poll t | .freeNext t => some t
  | .die _ => none

/-- The step function. -/
def exec (cfg : Config) (s : State) (a : Action) : Option State :=
  match a.thread? with
  | some t => if t < cfg.nrThreads then threadStep cfg.maxNrProcesses s t a else none
  | none =>
    match a with
    | .die w =>
      match s.heap w with
      | some wp =>
        if wp.child = .running ∨ wp.child = .killed then
          some { s with heap := Function.update s.heap w (some { wp with child := .zombie }) }
        else none
      | none => none
    | _ => none

/-- `process_pool_new`: every slot is stopped, no thread is in a call. -/
def start : State where
  pool :=
    { nrProcessesRunning := 0, worker := fun _ => none, workerState := fun _ => .stopped
      sem := 0, next := 0, stop := false }
  heap := fun _ => none
  thread := fun _ => .outside
  fault := false

/-- One pool and its threads. -/
def machine (cfg : Config) : Machine State Action where
  init := start
  exec := exec cfg

end HdfStream.Pool
