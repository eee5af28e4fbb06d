/-
# What a step of the pool can do

`exec` is a function.  This module reads its steps off it once, as relations with one constructor
for each way a step can go and the guards of that way as hypotheses: `Started` and `Released` for
the two critical sections with several ends, `ThreadStep` for a thread, `Step` for the machine.  A
proof about steps splits over these and does not unfold `threadStep` or `exec`.
-/
import HdfStream.Pool.Model

namespace HdfStream.Pool

variable {cfg : Config} {n : Nat} {s s' : State} {t : Nat} {a : Action}

/-! ## 1. The critical sections -/

/-- The ends of `process_pool_start_worker`. -/
inductive Started (n : Nat) (s : State) : Option Ptr → State → Prop where
  /-- The pool is stopped, or as many workers run as may. -/
  | full {new : Option Ptr} (hfull : ¬ (s.pool.nrProcessesRunning < n ∧ s.pool.stop = false)) :
      Started n s new s
  | noSlot {new : Option Ptr} (hlt : s.pool.nrProcessesRunning < n)
      (hslot : ∀ i, i < n → s.pool.workerState i ≠ .stopped) : Started n s new s
  /-- `worker_process_new` has failed. -/
  | failed {i : Nat} (hup : s.pool.stop = false) (hi : i < n)
      (hslot : s.pool.workerState i = .stopped) :
      Started n s none { s with
        pool := { s.pool with
          worker := Function.update s.pool.worker i none
          workerState := Function.update s.pool.workerState i .stopped } }
  | started {i : Nat} {a : Ptr} (hup : s.pool.stop = false) (hi : i < n)
      (hslot : s.pool.workerState i = .stopped) (hfree : s.heap a = none) :
      Started n s (some a) { s with
        pool := { s.pool with
          worker := Function.update s.pool.worker i (some a)
          workerState := Function.update s.pool.workerState i .idle
          nrProcessesRunning := s.pool.nrProcessesRunning + 1
          sem := s.pool.sem + 1 }
        heap := Function.update s.heap a (some { isDead := false, child := .running }) }

/-- `Started` says all that `process_pool_start_worker` does. -/
theorem processPoolStartWorker_cases {new : Option Ptr}
    (h : processPoolStartWorker n s new = some s') : Started n s new s' := by
  simp only [processPoolStartWorker] at h
  split at h
  · rename_i hcond
    split at h
    · rename_i i hfind
      have hi : i < n := List.mem_range.mp (List.mem_of_find?_eq_some hfind)
      have hslot : s.pool.workerState i = .stopped := by simpa using List.find?_some hfind
      split at h
      · split at h
        · cases h
        · rename_i hfree
          cases h
          exact .started hcond.2 hi hslot (Option.not_isSome_iff_eq_none.mp hfree)
      · cases h
        exact .failed hcond.2 hi hslot
    · rename_i hfind
      cases h
      refine .noSlot hcond.1 fun i hi hslot => ?_
      exact List.find?_eq_none.mp hfind i (List.mem_range.mpr hi) (by rw [hslot]; rfl)
  · rename_i hcond
    cases h
    exact .full hcond

/-- The ends of the critical section of `process_pool_release_worker`, and whether to post. -/
inductive Released (n : Nat) (s : State) (w : Ptr) : State × Bool → Prop where
  | notFound (hslot : slotOf n s.pool w = none) : Released n s w (s, false)
  | freed {i : Nat} (hslot : slotOf n s.pool w = some i) (hw : s.heap w = none) :
      Released n s w ({ s with fault := true }, false)
  /-- The worker is alive and goes back to its slot. -/
  | alive {i : Nat} {wp : WorkerProcess} (hslot : slotOf n s.pool w = some i)
      (hw : s.heap w = some wp) (halive : (workerProcessIsAlive wp).1 = true) :
      Released n s w
        ({ s with
          pool := { s.pool with workerState := Function.update s.pool.workerState i .idle }
          heap := Function.update s.heap w (some (workerProcessIsAlive wp).2) }, true)
  | dead {i : Nat} {wp : WorkerProcess} (hslot : slotOf n s.pool w = some i)
      (hw : s.heap w = some wp) (halive : (workerProcessIsAlive wp).1 = false) :
      Released n s w
        (discardSlot w
          { s with heap := Function.update s.heap w (some (workerProcessIsAlive wp).2) } i, false)

/-- `Released` says all that `process_pool_release_worker` does. -/
theorem processPoolReleaseWorker_cases (n : Nat) (s : State) (w : Ptr) :
    Released n s w (processPoolReleaseWorker n s w) := by
  unfold processPoolReleaseWorker
  split
  · rename_i hslot
    exact .notFound hslot
  · rename_i i hslot
    split
    · rename_i hw
      exact .freed hslot hw
    · rename_i wp hw
      cases halive : (workerProcessIsAlive wp).1 with
      | true =>
        simp only [halive, if_pos]
        exact .alive hslot hw halive
      | false =>
        simp only [halive, Bool.false_eq_true, if_false]
        exact .dead hslot hw halive

/-! ## 2. The threads -/

/-- What a step of thread `t` can do. -/
inductive ThreadStep (n : Nat) (s : State) (t : Nat) : Action → State → Prop where
  | call {t' : Nat} (hpc : s.thread t = .outside) :
      ThreadStep n s t (.call t') (s.setThread t (.getValue 0))
  | getValue {t' i : Nat} (hpc : s.thread t = .getValue i) :
      ThreadStep n s t (.getValue t')
        (s.setThread t (if s.pool.sem ≤ 0 then .startWorker i else .wait i))
  /-- `process_pool_start_worker` in a get. -/
  | startWorker {t' i : Nat} {new : Option Ptr} {s₁ : State} (hpc : s.thread t = .startWorker i)
      (hstart : Started n s new s₁) :
      ThreadStep n s t (.startWorker t' new)
        (s₁.setThread t (afterStart s₁.pool.nrProcessesRunning i))
  /-- `process_pool_start_worker` by itself. -/
  | startAlone {t' : Nat} {new : Option Ptr} {s₁ : State} (hpc : s.thread t = .outside)
      (hstart : Started n s new s₁) :
      ThreadStep n s t (.startWorker t' new) s₁
  | semWait {t' i : Nat} (hpc : s.thread t = .wait i) (hsem : 0 < s.pool.sem) :
      ThreadStep n s t (.semWait t')
        ({ s with pool := { s.pool with sem := s.pool.sem - 1 } }.setThread t (.lock i))
  /-- A get that finds the pool stopped. -/
  | assignStopped {t' i : Nat} {cb : Option (Option Ptr → Nat)} (hpc : s.thread t = .lock i)
      (hstop : s.pool.stop = true) :
      ThreadStep n s t (.assign t' cb)
        ({ s with pool := { s.pool with sem := s.pool.sem + 1 } }.setThread t .outside)
  /-- A get that finds no idle slot. -/
  | assignNone {t' i : Nat} {cb : Option (Option Ptr → Nat)} (hpc : s.thread t = .lock i)
      (hstop : s.pool.stop = false) (hsearch : highScoreIndex n s.pool cb = none) :
      ThreadStep n s t (.assign t' cb)
        ({ s with fault := s.fault || (cb.isSome && scoresDead n s) }.setThread t .repost)
  /-- A get that takes slot `j`. -/
  | assign {t' i j : Nat} {cb : Option (Option Ptr → Nat)} {w : Ptr} (hpc : s.thread t = .lock i)
      (hstop : s.pool.stop = false) (hsearch : highScoreIndex n s.pool cb = some j)
      (hw : s.pool.worker j = some w) :
      ThreadStep n s t (.assign t' cb)
        ({ s with
          pool := { s.pool with
            workerState := Function.update s.pool.workerState j .busy
            next := (s.pool.next + 1) % n }
          fault := s.fault || (cb.isSome && scoresDead n s) }.setThread t (.check i w))
  /-- An idle slot without a worker. -/
  | assignEmpty {t' i j : Nat} {cb : Option (Option Ptr → Nat)} (hpc : s.thread t = .lock i)
      (hstop : s.pool.stop = false) (hsearch : highScoreIndex n s.pool cb = some j)
      (hw : s.pool.worker j = none) :
      ThreadStep n s t (.assign t' cb)
        ({ s with
          pool := { s.pool with
            workerState := Function.update s.pool.workerState j .busy
            next := (s.pool.next + 1) % n }
          fault := s.fault || (cb.isSome && scoresDead n s) }.setThread t .repost)
  | checkFreed {t' i : Nat} {w : Ptr} (hpc : s.thread t = .check i w) (hw : s.heap w = none) :
      ThreadStep n s t (.check t') { s with fault := true }
  | check {t' i : Nat} {w : Ptr} {wp : WorkerProcess} (hpc : s.thread t = .check i w)
      (hw : s.heap w = some wp) :
      ThreadStep n s t (.check t')
        ({ s with
          heap := Function.update s.heap w (some (workerProcessIsAlive wp).2) }.setThread t
            (if (workerProcessIsAlive wp).1 then .holding w else .discard i w))
  | discard {t' i : Nat} {w : Ptr} (hpc : s.thread t = .discard i w) :
      ThreadStep n s t (.discard t')
        (((List.range n).foldl (discardSlot w) s).setThread t (nextTry n i))
  | release {t' : Nat} {w : Ptr} {r : State × Bool} (hpc : s.thread t = .holding w)
      (hr : Released n s w r) :
      ThreadStep n s t (.release t') (r.1.setThread t (if r.2 then .post else .outside))
  | post {t' : Nat} (hpc : s.thread t = .post ∨ s.thread t = .repost) :
      ThreadStep n s t (.post t')
        ({ s with pool := { s.pool with sem := s.pool.sem + 1 } }.setThread t .outside)
  | noticeFreed {t' : Nat} {w : Ptr} (hpc : s.thread t = .holding w) (hw : s.heap w = none) :
      ThreadStep n s t (.notice t') { s with fault := true }
  | notice {t' : Nat} {w : Ptr} {wp : WorkerProcess} (hpc : s.thread t = .holding w)
      (hw : s.heap w = some wp) :
      ThreadStep n s t (.notice t')
        { s with heap := Function.update s.heap w (some (workerProcessIsAlive wp).2) }
  | stop {t' : Nat} (hpc : s.thread t = .outside) :
      ThreadStep n s t (.stop t') ((processPoolStop n s).setThread t .polling)
  /-- `process_pool_free` sleeps. -/
  | pollBusy {t' : Nat} (hpc : s.thread t = .polling)
      (hbusy : (List.range n).any (fun i => s.pool.workerState i == .busy) = true) :
      ThreadStep n s t (.poll t') s
  | poll {t' : Nat} (hpc : s.thread t = .polling)
      (hbusy : (List.range n).any (fun i => s.pool.workerState i == .busy) = false) :
      ThreadStep n s t (.poll t') (s.setThread t (.freeing 0))
  | freeNext {t' j : Nat} (hpc : s.thread t = .freeing j) (hj : j < n) :
      ThreadStep n s t (.freeNext t') ((freeSlot s j).setThread t (.freeing (j + 1)))
  | freeEnd {t' j : Nat} (hpc : s.thread t = .freeing j) (hj : ¬ j < n) :
      ThreadStep n s t (.freeNext t') (s.setThread t .outside)

/-- `ThreadStep` says all that `threadStep` does. -/
theorem threadStep_cases (h : threadStep n s t a = some s') : ThreadStep n s t a s' := by
  cases a with
  | call =>
    simp only [threadStep] at h
    split at h
    · rename_i hpc
      cases h
      exact .call hpc
    · cases h
  | getValue =>
    simp only [threadStep] at h
    split at h
    · rename_i hpc
      cases h
      exact .getValue hpc
    · cases h
  | startWorker =>
    simp only [threadStep] at h
    split at h
    · rename_i hpc
      obtain ⟨s₁, hs₁, rfl⟩ := Option.map_eq_some_iff.mp h
      exact .startWorker hpc (processPoolStartWorker_cases hs₁)
    · rename_i hpc
      exact .startAlone hpc (processPoolStartWorker_cases h)
    · cases h
  | semWait =>
    simp only [threadStep] at h
    split at h
    · rename_i hpc
      split at h
      · rename_i hsem
        cases h
        exact .semWait hpc hsem
      · cases h
    · cases h
  | assign =>
    simp only [threadStep] at h
    split at h
    · rename_i hpc
      split at h
      · rename_i hstop
        cases h
        exact .assignStopped hpc hstop
      · rename_i hstop
        have hup := Bool.eq_false_of_not_eq_true hstop
        split at h
        · rename_i hsearch
          cases h
          exact .assignNone hpc hup hsearch
        · rename_i j hsearch
          cases h
          cases hw : s.pool.worker j with
          | none => exact .assignEmpty hpc hup hsearch hw
          | some w => exact .assign hpc hup hsearch hw
    · cases h
  | check =>
    simp only [threadStep] at h
    split at h
    · rename_i hpc
      split at h
      · rename_i hw
        cases h
        exact .checkFreed hpc hw
      · rename_i hw
        cases h
        exact .check hpc hw
    · cases h
  | discard =>
    simp only [threadStep] at h
    split at h
    · rename_i hpc
      cases h
      exact .discard hpc
    · cases h
  | release =>
    simp only [threadStep] at h
    split at h
    · rename_i hpc
      cases h
      exact .release hpc (processPoolReleaseWorker_cases n s _)
    · cases h
  | post =>
    simp only [threadStep] at h
    split at h
    · rename_i hpc
      cases h
      exact .post (.inl hpc)
    · rename_i hpc
      cases h
      exact .post (.inr hpc)
    · cases h
  | notice =>
    simp only [threadStep] at h
    split at h
    · rename_i hpc
      split at h
      · rename_i hw
        cases h
        exact .noticeFreed hpc hw
      · rename_i hw
        cases h
        exact .notice hpc hw
    · cases h
  | stop =>
    simp only [threadStep] at h
    split at h
    · rename_i hpc
      cases h
      exact .stop hpc
    · cases h
  | poll =>
    simp only [threadStep] at h
    split at h
    · rename_i hpc
      split at h
      · rename_i hbusy
        cases h
        exact .pollBusy hpc hbusy
      · rename_i hbusy
        cases h
        exact .poll hpc (Bool.eq_false_of_not_eq_true hbusy)
    · cases h
  | freeNext =>
    simp only [threadStep] at h
    split at h
    · rename_i hpc
      split at h
      · rename_i hj
        cases h
        exact .freeNext hpc hj
      · rename_i hj
        cases h
        exact .freeEnd hpc hj
    · cases h
  | die => cases h

/-! ## 3. The machine -/

/-- What a step of the machine can do. -/
inductive Step (cfg : Config) (s : State) : Action → State → Prop where
  | thread {t : Nat} {a : Action} {s' : State} (ht : t < cfg.nrThreads)
      (hthread : a.thread? = some t) (h : ThreadStep cfg.maxNrProcesses s t a s') : Step cfg s a s'
  | die {w : Ptr} {wp : WorkerProcess} (hw : s.heap w = some wp)
      (hchild : wp.child = .running ∨ wp.child = .killed) :
      Step cfg s (.die w)
        { s with heap := Function.update s.heap w (some { wp with child := .zombie }) }

/-- `Step` says all that `exec` does. -/
theorem exec_cases (h : exec cfg s a = some s') : Step cfg s a s' := by
  unfold exec at h
  split at h
  · rename_i t hthread
    split at h
    · rename_i ht
      exact .thread ht hthread (threadStep_cases h)
    · cases h
  · split at h
    · split at h
      · rename_i wp hw
        split at h
        · rename_i hchild
          cases h
          exact .die hw hchild
        · cases h
      · cases h
    · cases h

end HdfStream.Pool
