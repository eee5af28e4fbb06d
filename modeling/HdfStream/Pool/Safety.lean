/-
# What the pool guarantees before a shutdown

`pool_safety` reads the guarantees off the invariant: no worker is handed out twice, the number
of running processes is right and bounded, a thread with a permit finds a worker, and no struct
is freed twice or while a thread has it.
-/
import HdfStream.Pool.Steps

namespace HdfStream.Pool

open Counting

variable {cfg : Config} {s : State}

/-- A thread in transit never runs into the branch that finds no worker. -/
theorem Inv.highScoreIndex (h : Inv cfg s) {t i : Nat} (ht : t < cfg.nrThreads)
    (hpc : s.thread t = .lock i) (cb : Option (Option Ptr → Nat)) :
    highScoreIndex cfg.maxNrProcesses s.pool cb ≠ none := by
  obtain ⟨j, hj, -, -⟩ := highScoreIndex_spec s.pool cb (h.idle_of_lock ht hpc)
  rw [hj]
  exact Option.some_ne_none j

/-- What a thread has is allocated. -/
theorem Inv.held_live (h : Inv cfg s) {t : Nat} {a : Ptr} (ht : t < cfg.nrThreads)
    (hw : (s.thread t).worker = some a) : (s.heap a).isSome = true := by
  obtain ⟨j, wp, -, -, -, hwp, -⟩ := h.holder ht hw
  rw [hwp]
  rfl

/-- **Safety of the pool**, after every run that does not shut it down:

* no two threads have the same worker;
* `nr_processes_running` is the number of slots that are not stopped, at most
  `max_nr_processes`, and a slot is stopped if and only if its pointer is NULL;
* the permits, the threads in transit and the posts due add up to the idle slots, and no
  thread gets to the branch that finds no worker;
* no step has freed or read a struct that was not allocated, and what a thread has is
  allocated. -/
theorem pool_safety (cfg : Config) (tr : List Action) (s : State)
    (h : (machine cfg).run tr = some s) (hstop : s.pool.stop = false) :
    (∀ t t' a, t < cfg.nrThreads → t' < cfg.nrThreads → (s.thread t).worker = some a →
      (s.thread t').worker = some a → t = t') ∧
    (s.pool.nrProcessesRunning = nrNotStopped s.pool.workerState cfg.maxNrProcesses ∧
      s.pool.nrProcessesRunning ≤ cfg.maxNrProcesses ∧
      ∀ i, i < cfg.maxNrProcesses → (s.pool.worker i = none ↔ s.pool.workerState i = .stopped)) ∧
    (s.pool.sem + nrInTransit s.thread cfg.nrThreads + nrPosting s.thread cfg.nrThreads =
        nrIdle s.pool.workerState cfg.maxNrProcesses ∧
      (∀ t i cb, t < cfg.nrThreads → s.thread t = .lock i →
        highScoreIndex cfg.maxNrProcesses s.pool cb ≠ none) ∧
      ∀ t, t < cfg.nrThreads → s.thread t ≠ .repost) ∧
    s.fault = false ∧
    ∀ t a, t < cfg.nrThreads → (s.thread t).worker = some a → (s.heap a).isSome = true := by
  have hi : Inv cfg s := inv_reachable ⟨tr, h⟩ hstop
  refine ⟨hi.holders.excl, ⟨hi.running, ?_, fun i hi' => (hi.slots.stopped i hi').symm⟩,
    ⟨hi.permits, fun t i cb ht hpc => hi.highScoreIndex ht hpc cb, ?_⟩, hi.fault,
    fun t a ht hw => hi.held_live ht hw⟩
  · have hle : nrNotStopped s.pool.workerState cfg.maxNrProcesses ≤ cfg.maxNrProcesses :=
      Nat.count_le _
    rw [hi.running]
    omega
  · intro t ht hpc
    have := hi.excluded t ht
    rw [hpc] at this
    exact absurd this (by simp [ThreadPc.excluded])

/-- One slot, two threads. -/
def oneSlot : Config := { maxNrProcesses := 1, nrThreads := 2 }

/-- Thread 0 starts a worker and gets it, thread 1 waits for it. -/
def getAndWait : List Action :=
  [.call 0, .getValue 0, .startWorker 0 (some 0), .semWait 0, .assign 0 none, .check 0,
    .call 1, .getValue 1, .startWorker 1 none]

theorem getAndWait_end : ((machine oneSlot).run getAndWait).map
    (fun s => (s.thread 0, s.thread 1, s.pool.stop)) =
      some (.holding 0, .wait 0, false) := by
  decide +kernel

theorem pool_safety_getAndWait : ∃ s, (machine oneSlot).run getAndWait = some s ∧
    s.thread 0 = .holding 0 ∧ s.fault = false ∧ (s.heap 0).isSome = true := by
  obtain ⟨s, hrun, hs⟩ := Option.map_eq_some_iff.mp getAndWait_end
  simp only [Prod.mk.injEq] at hs
  obtain ⟨hpc, -, hstop⟩ := hs
  obtain ⟨-, -, -, hfault, hlive⟩ := pool_safety oneSlot getAndWait s hrun hstop
  exact ⟨s, hrun, hpc, hfault, hlive 0 0 (by decide) (by rw [hpc]; rfl)⟩

end HdfStream.Pool
