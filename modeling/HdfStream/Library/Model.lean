/-
# Requests, workers and caches together

A request for a dataset or for an object takes a worker from the pool, and which one is decided by
what the workers have open: `cache_score` asks the shadow of each idle worker.  The worker carries
out the command on its own cache and answers with a code, and only then the shadow is updated.

This is the model of `hdfstream_dataset_multi_slice_open` and `hdfstream_object_open`, of which it
keeps what concerns the pool and the caches, over the machines of `Pool.Model` and `Cache.Model`.
The shadows are read and written without a lock, by the thread that has the worker; the callback
reads those of idle workers in the critical section of the pool.

Between the answer of the worker and the update there may be any steps of others, and
either process may be late: the worker can be back in its loop, and files in its cache expire,
before the library has received the code (`Stage.answered`).

A send or a receive may fail, and then the worker is given back with the command half sent or the
answer not received (`Action.abandon`).  If it lives, what it has opened is not in the shadow, and
what is left in its pipes is not in step with the next command; the results are about runs in
which a worker is only abandoned dead (`State.Completes`).
-/
import HdfStream.Pool.Recovery
import HdfStream.Cache.Mirror

namespace HdfStream.Library

open Pool Cache

/-! ## 1. The score -/

/-- `struct callback_data`.  For an object there is no dataset name. -/
structure CallbackData where
  fileName : Name
  datasetName : Option Name

/-- `cache_score`, for a worker with this shadow. -/
def cacheScore (shadow : FileCache) (cbd : CallbackData) : Nat :=
  let found := fileCacheQuery shadow cbd.fileName cbd.datasetName
  (if found.1 ≠ 0 then 1 else 0) + (if found.2 ≠ 0 then 1 else 0)

/-! ## 2. A command -/

/-- `do_read_dataset` or `do_read_object` up to the answer: the reader, and the answer. -/
def carryOut (c : Cache.State) (cbd : CallbackData) (env : Cache.Env) : Option (Reader × Nat) :=
  match cbd.datasetName with
  | some datasetName => doReadDataset c.reader cbd.fileName datasetName env
  | none => doReadObject c.reader cbd.fileName env

/-- The shadow after the answer. -/
def updateShadow (c : Cache.State) (cbd : CallbackData) (retcode : Nat) (now : Int) :
    Option FileCache :=
  match cbd.datasetName with
  | some datasetName => updateShadowDataset c.shadow cbd.fileName datasetName retcode now
  | none => updateShadowObject c.shadow cbd.fileName retcode now

/-- How far a request has got. -/
inductive Stage where
  /-- The worker has not answered. -/
  | asked
  /-- The code is in the pipe. -/
  | answered (retcode : Nat)
  /-- The code has been received, and the shadow updated. -/
  | done
deriving DecidableEq

/-- A call of `hdfstream_dataset_multi_slice_open` or `hdfstream_object_open`, and the stream it
returns. -/
structure Request where
  cbd : CallbackData
  stage : Stage

/-! ## 3. The machine -/

/-- `struct hdfstream`. -/
structure Config extends Pool.Config where
  maxOpenFiles : Int
  maxOpenDatasets : Int

/-- The whole system.  `caches` has what belongs to a worker besides its struct: the shadow in
`worker->data`, and the cache of the process. -/
structure State where
  pool : Pool.State
  caches : Ptr → Cache.State
  request : Nat → Option Request

/-- The score of a slot. -/
def State.score (s : State) (cbd : CallbackData) : Option Ptr → Nat
  | some w => cacheScore (s.caches w).shadow cbd
  | none => 0

/-- The process of a worker can still do something. -/
def State.alive (s : State) (w : Ptr) : Bool :=
  match s.pool.heap w with
  | some wp => (workerProcessIsAlive wp).1
  | none => false

/-- What may happen next. -/
inductive Action where
  /-- A call for an object, or for slices of a dataset. -/
  | request (t : Nat) (cbd : CallbackData)
  /-- The critical section of a get, with `cache_score`. -/
  | assign (t : Nat)
  /-- The worker of a thread has received the command, carries it out, and answers. -/
  | work (t : Nat) (env : Cache.Env)
  /-- A thread receives the answer. -/
  | receive (t : Nat) (now : Int)
  /-- A thread gives its worker back after the answer, at once or when the stream is closed. -/
  | release (t : Nat)
  /-- A thread gives its worker back because a send or the receive has failed. -/
  | abandon (t : Nat)
  /-- A worker has waited long enough for a command. -/
  | expire (w : Ptr) (maxAge now : Int)
  /-- Any other step of the pool. -/
  | pool (a : Pool.Action)

/-- Steps of the pool that are made by a request. -/
def ofRequest : Pool.Action → Bool
  | .call _ | .assign _ _ | .release _ => true
  | _ => false

/-- A step of the pool.  A worker that has been started has empty caches, and a thread outside the
pool has no request. -/
def poolStep (cfg : Config) (s : State) (a : Pool.Action) : Option State :=
  (Pool.exec cfg.toConfig s.pool a).map fun p =>
    { pool := p
      caches := fun w =>
        if (s.pool.heap w).isNone && (p.heap w).isSome then
          Cache.start cfg.maxOpenFiles cfg.maxOpenDatasets
        else s.caches w
      request := fun t => if p.thread t = .outside then none else s.request t }

/-- The step function. -/
def exec (cfg : Config) (s : State) : Action → Option State
  | .request t cbd =>
    (poolStep cfg s (.call t)).map fun s' =>
      { s' with request := Function.update s'.request t (some { cbd := cbd, stage := .asked }) }
  | .assign t =>
    match s.request t with
    | some r => poolStep cfg s (.assign t (some (s.score r.cbd)))
    | none => none
  | .work t env =>
    match s.pool.thread t, s.request t with
    | .holding w, some ⟨cbd, .asked⟩ =>
      if t < cfg.nrThreads ∧ s.alive w then
        (carryOut (s.caches w) cbd env).map fun answer =>
          { s with
            caches := Function.update s.caches w { s.caches w with reader := answer.1 }
            request := Function.update s.request t (some ⟨cbd, .answered answer.2⟩) }
      else none
    | _, _ => none
  | .receive t now =>
    match s.pool.thread t, s.request t with
    | .holding w, some ⟨cbd, .answered retcode⟩ =>
      (updateShadow (s.caches w) cbd retcode now).map fun shadow =>
        { s with
          caches := Function.update s.caches w { s.caches w with shadow := shadow }
          request := Function.update s.request t (some ⟨cbd, .done⟩) }
    | _, _ => none
  | .release t =>
    match s.pool.thread t, s.request t with
    | .holding _, some ⟨_, .done⟩ => poolStep cfg s (.release t)
    | _, _ => none
  | .abandon t =>
    match s.pool.thread t, s.request t with
    | .holding _, some r => if r.stage = .done then none else poolStep cfg s (.release t)
    | _, _ => none
  | .expire w maxAge now =>
    if s.alive w then
      some { s with
        caches := Function.update s.caches w { s.caches w with
          reader := { (s.caches w).reader with
            fc := (fileCacheExpireEntries (s.caches w).reader.fc maxAge now).1 } } }
    else none
  | .pool a => if ofRequest a then none else poolStep cfg s a

/-- `hdfstream_new`. -/
def start (cfg : Config) : State where
  pool := Pool.start
  caches := fun _ => Cache.start cfg.maxOpenFiles cfg.maxOpenDatasets
  request := fun _ => none

/-- The library, its threads and its workers. -/
def machine (cfg : Config) : Machine State Action where
  init := start cfg
  exec := exec cfg

/-- Every exchange with a worker that lives completes: one is only abandoned when its worker is
dead. -/
def State.Completes (s : State) : Action → Prop
  | .abandon t => ∀ w, s.pool.thread t = .holding w → s.alive w = false
  | _ => True

/-- A worker is abandoned. -/
def Action.isAbandon : Action → Bool
  | .abandon _ => true
  | _ => false

theorem completes_of_none {cfg : Config} {tr : List Action}
    (h : ∀ a ∈ tr, a.isAbandon = false) : (machine cfg).StepsMeet State.Completes tr := by
  rintro tr₁ a tr₂ s rfl _
  have ha := h a (List.mem_append_right _ List.mem_cons_self)
  cases a with
  | abandon t => cases ha
  | _ => trivial

/-- Files expire in a worker. -/
def Action.isExpire : Action → Bool
  | .expire _ _ _ => true
  | _ => false

end HdfStream.Library
