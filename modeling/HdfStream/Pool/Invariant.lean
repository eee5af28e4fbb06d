/-
# The invariant of the pool, up to a shutdown

`Inv` says, while `stop` is not set, what ties the slots, the structs on the heap, the threads
and the two counters together:

* every slot that is not stopped has a struct of its own, every busy slot exactly one thread
  that has it, and every thread that has a struct a busy slot;
* `nr_processes_running` counts the slots that are not stopped;
* the semaphore counts the idle slots, less the threads that have taken a permit and not yet
  assigned a worker, less the releases that have not yet posted.

The counts are over all slots and all threads (`Nat.count`), and a step changes one slot and
one thread, so each step of a counter is a case of `Counting.count_update`.
-/
import HdfStream.Pool.Model

namespace HdfStream.Pool

open Counting

/-! ## 1. Reading the control points -/

namespace ThreadPc

/-- The worker a thread has taken and not given back. -/
def worker : ThreadPc → Option Ptr
  | .check _ w | .discard _ w | .holding w => some w
  | _ => none

/-- It has taken a permit and not yet assigned a worker. -/
def inTransit : ThreadPc → Bool
  | .lock _ => true
  | _ => false

/-- It has made a slot idle and not yet posted. -/
def posting : ThreadPc → Bool
  | .post => true
  | _ => false

/-- Control points nothing leads to before a shutdown. -/
def excluded : ThreadPc → Bool
  | .repost | .polling | .freeing _ => true
  | _ => false

end ThreadPc

/-! ## 2. The invariant -/

/-- Slots in the idle state. -/
def nrIdle (workerState : Nat → WorkerState) (n : Nat) : Nat :=
  Nat.count (fun i => workerState i = .idle) n

/-- Slots whose process counts as running. -/
def nrNotStopped (workerState : Nat → WorkerState) (n : Nat) : Nat :=
  Nat.count (fun i => workerState i ≠ .stopped) n

/-- Threads that have taken a permit and not yet assigned a worker. -/
def nrInTransit (thread : Nat → ThreadPc) (m : Nat) : Nat :=
  Nat.count (fun t => (thread t).inTransit = true) m

/-- Releases that have not yet posted. -/
def nrPosting (thread : Nat → ThreadPc) (m : Nat) : Nat :=
  Nat.count (fun t => (thread t).posting = true) m

/-- The slots and the structs they point to. -/
structure SlotsInv (n : Nat) (p : ProcessPool) (heap : Ptr → Option WorkerProcess) : Prop where
  stopped : ∀ i, i < n → (p.workerState i = .stopped ↔ p.worker i = none)
  inj : ∀ i j a, i < n → j < n → p.worker i = some a → p.worker j = some a → i = j
  live : ∀ i a, i < n → p.worker i = some a → (heap a).isSome = true

/-- The threads and the slots of the workers they have. -/
structure HoldersInv (cfg : Config) (p : ProcessPool) (thread : Nat → ThreadPc) : Prop where
  slot : ∀ t a, t < cfg.nrThreads → (thread t).worker = some a →
    ∃ i, i < cfg.maxNrProcesses ∧ p.worker i = some a ∧ p.workerState i = .busy
  excl : ∀ t t' a, t < cfg.nrThreads → t' < cfg.nrThreads → (thread t).worker = some a →
    (thread t').worker = some a → t = t'
  busy : ∀ i, i < cfg.maxNrProcesses → p.workerState i = .busy →
    ∃ t a, t < cfg.nrThreads ∧ p.worker i = some a ∧ (thread t).worker = some a

/-- The invariant while the pool is not stopped. -/
structure Inv (cfg : Config) (s : State) : Prop where
  slots : SlotsInv cfg.maxNrProcesses s.pool s.heap
  holders : HoldersInv cfg s.pool s.thread
  running : s.pool.nrProcessesRunning = nrNotStopped s.pool.workerState cfg.maxNrProcesses
  permits : s.pool.sem + nrInTransit s.thread cfg.nrThreads + nrPosting s.thread cfg.nrThreads =
    nrIdle s.pool.workerState cfg.maxNrProcesses
  excluded : ∀ t, t < cfg.nrThreads → (s.thread t).excluded = false
  fault : s.fault = false

variable {cfg : Config} {s s' : State} {t : Nat} {pc : ThreadPc}

/-! ## 3. The counts under one assignment -/

section Counts

variable {workerState : Nat → WorkerState} {thread : Nat → ThreadPc} {i n : Nat}
  {st : WorkerState}

theorem nrIdle_same (hi : i < n) (h : st = .idle ↔ workerState i = .idle) :
    nrIdle (Function.update workerState i st) n = nrIdle workerState n :=
  count_update_same (q := fun st => st = WorkerState.idle) hi h

theorem nrIdle_gain (hi : i < n) (h : workerState i ≠ .idle) (hst : st = .idle) :
    nrIdle (Function.update workerState i st) n = nrIdle workerState n + 1 :=
  count_update_gain (q := fun st => st = WorkerState.idle) hi h hst

theorem nrIdle_lose (workerState : Nat → WorkerState) (st : WorkerState) (hi : i < n)
    (h : workerState i = .idle) (hst : st ≠ .idle) :
    nrIdle (Function.update workerState i st) n + 1 = nrIdle workerState n :=
  count_update_lose (q := fun st => st = WorkerState.idle) hi h hst

theorem nrNotStopped_same (hi : i < n) (h : st ≠ .stopped ↔ workerState i ≠ .stopped) :
    nrNotStopped (Function.update workerState i st) n = nrNotStopped workerState n :=
  count_update_same (q := fun st => st ≠ WorkerState.stopped) hi h

theorem nrNotStopped_gain (hi : i < n) (h : workerState i = .stopped) (hst : st ≠ .stopped) :
    nrNotStopped (Function.update workerState i st) n = nrNotStopped workerState n + 1 :=
  count_update_gain (q := fun st => st ≠ WorkerState.stopped) hi (not_not_intro h) hst

theorem nrNotStopped_lose (workerState : Nat → WorkerState) (st : WorkerState) (hi : i < n)
    (h : workerState i ≠ .stopped) (hst : st = .stopped) :
    nrNotStopped (Function.update workerState i st) n + 1 = nrNotStopped workerState n :=
  count_update_lose (q := fun st => st ≠ WorkerState.stopped) hi h (not_not_intro hst)

theorem nrInTransit_same (ht : t < n) (h : pc.inTransit = (thread t).inTransit) :
    nrInTransit (Function.update thread t pc) n = nrInTransit thread n :=
  count_update_same (q := fun pc : ThreadPc => pc.inTransit = true) ht (by rw [h])

theorem nrInTransit_gain (ht : t < n) (h : (thread t).inTransit = false)
    (hpc : pc.inTransit = true) :
    nrInTransit (Function.update thread t pc) n = nrInTransit thread n + 1 :=
  count_update_gain (q := fun pc : ThreadPc => pc.inTransit = true) ht (by simp [h]) hpc

theorem nrInTransit_lose (thread : Nat → ThreadPc) (pc : ThreadPc) (ht : t < n)
    (h : (thread t).inTransit = true)
    (hpc : pc.inTransit = false) :
    nrInTransit (Function.update thread t pc) n + 1 = nrInTransit thread n :=
  count_update_lose (q := fun pc : ThreadPc => pc.inTransit = true) ht h (by simp [hpc])

theorem nrPosting_same (ht : t < n) (h : pc.posting = (thread t).posting) :
    nrPosting (Function.update thread t pc) n = nrPosting thread n :=
  count_update_same (q := fun pc : ThreadPc => pc.posting = true) ht (by rw [h])

theorem nrPosting_gain (ht : t < n) (h : (thread t).posting = false) (hpc : pc.posting = true) :
    nrPosting (Function.update thread t pc) n = nrPosting thread n + 1 :=
  count_update_gain (q := fun pc : ThreadPc => pc.posting = true) ht (by simp [h]) hpc

theorem nrPosting_lose (thread : Nat → ThreadPc) (pc : ThreadPc) (ht : t < n)
    (h : (thread t).posting = true) (hpc : pc.posting = false) :
    nrPosting (Function.update thread t pc) n + 1 = nrPosting thread n :=
  count_update_lose (q := fun pc : ThreadPc => pc.posting = true) ht h (by simp [hpc])

end Counts

/-! ## 4. Moves of one thread -/

theorem HoldersInv.move {p : ProcessPool} {thread : Nat → ThreadPc} (h : HoldersInv cfg p thread)
    (pc : ThreadPc) (hw : pc.worker = (thread t).worker) : HoldersInv cfg p
      (Function.update thread t pc) := by
  -- no thread has another worker than before
  have hsame : ∀ t', (Function.update thread t pc t').worker = (thread t').worker := by
    intro t'
    by_cases ht : t' = t
    · subst ht
      rw [Function.update_self, hw]
    · rw [Function.update_of_ne ht]
  refine ⟨?_, ?_, ?_⟩
  · intro t' a ht' hta
    rw [hsame] at hta
    exact h.slot t' a ht' hta
  · intro t' t'' a ht' ht'' hta hta'
    rw [hsame] at hta hta'
    exact h.excl t' t'' a ht' ht'' hta hta'
  · intro i hi hb
    obtain ⟨t', a, ht', ha, hta⟩ := h.busy i hi hb
    exact ⟨t', a, ht', ha, by rw [hsame, hta]⟩

theorem Inv.excluded_update (h : Inv cfg s) (hpc : pc.excluded = false) :
    ∀ t', t' < cfg.nrThreads → (Function.update s.thread t pc t').excluded = false := by
  intro t' ht'
  by_cases e : t' = t
  · subst e
    rw [Function.update_self, hpc]
  · rw [Function.update_of_ne e]
    exact h.excluded t' ht'

/-- **A thread moves without changing what it has**: neither a worker, nor a permit. -/
theorem Inv.setThread (h : Inv cfg s) (ht : t < cfg.nrThreads)
    (hw : pc.worker = (s.thread t).worker) (htr : pc.inTransit = (s.thread t).inTransit)
    (hpo : pc.posting = (s.thread t).posting) (hpc : pc.excluded = false) :
    Inv cfg (s.setThread t pc) where
  slots := h.slots
  holders := h.holders.move pc hw
  running := h.running
  permits := by
    rw [State.setThread_thread, State.setThread_pool, nrInTransit_same ht htr,
      nrPosting_same ht hpo]
    exact h.permits
  excluded := h.excluded_update hpc
  fault := h.fault

end HdfStream.Pool
