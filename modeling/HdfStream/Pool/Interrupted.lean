/-
# The pool when waits are interrupted

`process_pool_wait_and_lock` has the same loop as `semaphore_wait` of the ring, with an assertion
behind it.  With assertions an interrupted wait aborts the program.  Without them the thread goes
on into the critical section of a get, and the semaphore counts a worker that it may take.

Here is the pool with this loop: a wait is one step, with the outcomes of its calls of `sem_wait`.
`took` says of a thread whether its last wait has decremented the semaphore.

`interrupted_waits` is the end of this file: what the two loops do for each number of
interruptions, and what holds in all runs of the ring and of the pool without them.
-/
import HdfStream.Pool.Safety
import HdfStream.Pool.Shutdown
import HdfStream.Ring.Fifo
import HdfStream.Ring.Interrupted

namespace HdfStream.Pool

open Semaphore

/-! ## 1. The loop -/

/-- The end of `process_pool_wait_and_lock` up to the lock. -/
inductive WaitAndLock where
  /-- It does not return. -/
  | waiting
  /-- The assertion has failed. -/
  | aborted
  /-- It goes on to the lock, with so many permits. -/
  | passed (permits : Nat)
deriving DecidableEq

/-- `process_pool_wait_and_lock`.  `ndebug` says that assertions are compiled out. -/
def processPoolWaitAndLock (ndebug : Bool) (outcomes : List Outcome) : WaitAndLock :=
  match waitLoop (fun err _ => err == eintr) 0 0 outcomes with
  | none => .waiting
  | some w => if ndebug = false ∧ w.err ≠ 0 then .aborted else .passed w.permits

/-! ## 2. The machine -/

/-- The pool, and the threads whose last wait has taken a permit. -/
structure Waiting where
  pool : State
  took : Nat → Bool
  aborted : Bool

/-- A step of the pool, or a wait of thread `t`. -/
inductive WaitAction where
  | step (a : Action)
  | wait (t : Nat) (outcomes : List Outcome)

/-- `sem_wait` is called. -/
def Action.isWait : Action → Bool
  | .semWait _ => true
  | _ => false

/-- A wait of thread `t` that has passed with so many permits. -/
def pass (s : Waiting) (t i permits : Nat) : Waiting :=
  { s with
    pool := { s.pool with
      pool := { s.pool.pool with sem := s.pool.pool.sem - permits } }.setThread t (.lock i)
    took := Function.update s.took t (permits = 1) }

/-- The step function. -/
def Waiting.exec (cfg : Config) (ndebug : Bool) (s : Waiting) (a : WaitAction) : Option Waiting :=
  if s.aborted then none
  else
    match a with
    | .step a =>
      if a.isWait then none else (Pool.exec cfg s.pool a).map fun pool => { s with pool := pool }
    | .wait t outcomes =>
      match s.pool.thread t, processPoolWaitAndLock ndebug outcomes with
      | .wait _, .aborted => if t < cfg.nrThreads then some { s with aborted := true } else none
      | .wait i, .passed permits =>
        if t < cfg.nrThreads ∧ permits ≤ s.pool.pool.sem then some (pass s t i permits) else none
      | _, _ => none

/-- One pool and its threads. -/
def waitMachine (cfg : Config) (ndebug : Bool) : Machine Waiting WaitAction where
  init := { pool := start, took := fun _ => false, aborted := false }
  exec := Waiting.exec cfg ndebug

/-- The first call of `sem_wait` takes a permit. -/
def WaitAction.Uninterrupted : WaitAction → Prop
  | .step _ => True
  | .wait _ outcomes => outcomes.head? = some .taken

/-- Every thread in the critical section of a get has decremented the semaphore. -/
def EntersWithPermit (s : Waiting) : Prop :=
  s.aborted = false → ∀ t i, s.pool.thread t = .lock i → s.took t = true

variable {cfg : Config} {n : Nat} {s s' : State}

/-! ## 3. The threads after a step -/

theorem lock_update {thread : Nat → ThreadPc} {t t' : Nat} {pc : ThreadPc}
    (hpc : ∀ i, pc ≠ .lock i) {i : Nat} (h : Function.update thread t' pc t = .lock i) :
    thread t = .lock i := by
  by_cases e : t = t'
  · rw [e, Function.update_self] at h
    exact absurd h (hpc i)
  · rwa [Function.update_of_ne e] at h

theorem processPoolStartWorker_thread {new : Option Ptr}
    (h' : processPoolStartWorker n s new = some s') : s'.thread = s.thread := by
  simp only [processPoolStartWorker] at h'
  repeat' split at h'
  all_goals cases h'
  all_goals rfl

theorem foldl_discardSlot_thread (a : Ptr) (l : List Nat) :
    ∀ s : State, (l.foldl (discardSlot a) s).thread = s.thread := by
  induction l with
  | nil => intro s; rfl
  | cons j l ih =>
    intro s
    rw [List.foldl_cons, ih, (discardSlot_later a s j).1]

theorem processPoolReleaseWorker_thread (s : State) (a : Ptr) :
    (processPoolReleaseWorker n s a).1.thread = s.thread := by
  unfold processPoolReleaseWorker
  split
  · rfl
  · split
    · rfl
    · simp only
      split
      · rfl
      · rw [(discardSlot_later _ _ _).1]

theorem afterStart_ne_lock (nr : Int) (i j : Nat) : afterStart nr i ≠ .lock j := by
  unfold afterStart
  split <;> exact fun h => by cases h

theorem nextTry_ne_lock (n i j : Nat) : nextTry n i ≠ .lock j := by
  unfold nextTry
  split <;> exact fun h => by cases h

/-- Only a wait leads into the critical section of a get. -/
theorem exec_lock {a : Action} (ha : a.isWait = false) (h' : exec cfg s a = some s') {t i : Nat}
    (hlock : s'.thread t = .lock i) : s.thread t = .lock i := by
  cases a with
  | semWait t => cases ha
  | startWorker t' new =>
    simp only [exec, Action.thread?, threadStep] at h'
    repeat' split at h'
    · obtain ⟨s₁, hs₁, rfl⟩ := Option.map_eq_some_iff.mp h'
      rw [State.setThread_thread] at hlock
      rw [← processPoolStartWorker_thread hs₁]
      exact lock_update (afterStart_ne_lock _ _) hlock
    · rwa [processPoolStartWorker_thread h'] at hlock
    all_goals cases h'
  | discard t' =>
    simp only [exec, Action.thread?, threadStep] at h'
    repeat' split at h'
    all_goals cases h'
    rw [State.setThread_thread, foldl_discardSlot_thread] at hlock
    exact lock_update (nextTry_ne_lock _ _) hlock
  | release t' =>
    simp only [exec, Action.thread?, threadStep] at h'
    split at h'
    · split at h'
      · cases h'
        rw [State.setThread_thread, processPoolReleaseWorker_thread] at hlock
        refine lock_update (fun i => ?_) hlock
        split <;> exact fun h => by cases h
      · cases h'
    · cases h'
  | freeNext t' =>
    simp only [exec, Action.thread?, threadStep] at h'
    repeat' split at h'
    all_goals cases h'
    · rw [State.setThread_thread, (freeSlot_later _ _).1] at hlock
      exact lock_update (fun _ h => by cases h) hlock
    · exact lock_update (fun _ h => by cases h) hlock
  | _ =>
    simp only [exec, Action.thread?, threadStep] at h'
    repeat' split at h'
    all_goals cases h'
    all_goals first
      | exact hlock
      | exact lock_update (fun _ h => by cases h) hlock

/-! ## 4. Runs -/

variable {ndebug : Bool} {w w' : Waiting}

theorem processPoolWaitAndLock_taken (ndebug : Bool) (outcomes : List Outcome) :
    processPoolWaitAndLock ndebug (.taken :: outcomes) = .passed 1 := by
  rw [processPoolWaitAndLock, waitLoop_taken fun _ => rfl]
  exact if_neg fun h => h.2 rfl

theorem processPoolWaitAndLock_interrupted (ndebug : Bool) (outcomes : List Outcome) :
    processPoolWaitAndLock ndebug (.interrupted :: outcomes) =
      if ndebug then .passed 0 else .aborted := by
  rw [processPoolWaitAndLock, waitLoop_giveUp rfl]
  cases ndebug with
  | false => rfl
  | true => rfl

/-- With assertions, or without interruptions, a wait that passes has taken a permit. -/
theorem permits_of_passed {outcomes : List Outcome} {permits : Nat}
    (hok : ndebug = true → outcomes.head? = some .taken)
    (h : processPoolWaitAndLock ndebug outcomes = .passed permits) : permits = 1 := by
  rcases outcomes with _ | ⟨_ | _, outcomes⟩
  · cases h
  · rw [processPoolWaitAndLock_taken] at h
    cases h
    rfl
  · rw [processPoolWaitAndLock_interrupted] at h
    cases ndebug with
    | false => cases h
    | true => cases hok rfl

/-- A wait that takes a permit is the pool's. -/
theorem exec_semWait {t i : Nat} (hpc : w.pool.thread t = .wait i)
    (h : t < cfg.nrThreads ∧ 1 ≤ w.pool.pool.sem) :
    Pool.exec cfg w.pool (.semWait t) = some (pass w t i 1).pool := by
  simp only [Pool.exec, Action.thread?, if_pos h.1, threadStep, hpc,
    if_pos (show 0 < w.pool.pool.sem from h.2), pass]

/-- One step. -/
theorem EntersWithPermit.exec (h : EntersWithPermit w) {a : WaitAction}
    (ha : ndebug = true → a.Uninterrupted) (hstep : w.exec cfg ndebug a = some w') :
    EntersWithPermit w' ∧ (w'.pool = w.pool ∨ ∃ b, Pool.exec cfg w.pool b = some w'.pool) := by
  unfold Waiting.exec at hstep
  split at hstep
  · cases hstep
  · rename_i hrunning
    rw [Bool.not_eq_true] at hrunning
    cases a with
    | step a =>
      dsimp only at hstep
      split at hstep
      · cases hstep
      · rename_i hwait
        obtain ⟨pool, hpool, rfl⟩ := Option.map_eq_some_iff.mp hstep
        refine ⟨fun _ t i hlock => ?_, .inr ⟨a, hpool⟩⟩
        exact h hrunning t i (exec_lock (Bool.eq_false_iff.mpr hwait) hpool hlock)
    | wait t outcomes =>
      dsimp only at hstep
      split at hstep
      · split at hstep
        · cases hstep
          exact ⟨fun haborted => (by cases haborted), .inl rfl⟩
        · cases hstep
      · rename_i i permits hpc hpassed
        split at hstep
        · rename_i hfree
          cases hstep
          have hone := permits_of_passed ha hpassed
          rw [hone] at hfree
          refine ⟨fun _ t' i' hlock => ?_, .inr ⟨.semWait t, ?_⟩⟩
          rotate_left
          · rw [hone]
            exact exec_semWait hpc hfree
          simp only [pass]
          by_cases e : t' = t
          · rw [e, Function.update_self, hone]
            rfl
          · rw [Function.update_of_ne e]
            simp only [pass, State.setThread_thread, Function.update_of_ne e] at hlock
            exact h hrunning t' i' hlock
        · cases hstep
      · cases hstep

/-- **The pool**: with assertions, or without interruptions, a thread enters the critical section
of a get only with a permit. -/
theorem entersWithPermit_of_run {tr : List WaitAction}
    (h : (waitMachine cfg ndebug).run tr = some w)
    (htr : ndebug = true → ∀ a ∈ tr, a.Uninterrupted) :
    EntersWithPermit w ∧ (machine cfg).Reachable w.pool := by
  have hinv : (ndebug = true → ∀ a ∈ tr, a.Uninterrupted) →
      EntersWithPermit w ∧ (machine cfg).Reachable w.pool := by
    refine (waitMachine cfg ndebug).run_induction (I := fun tr w =>
      (ndebug = true → ∀ a ∈ tr, a.Uninterrupted) →
        EntersWithPermit w ∧ (machine cfg).Reachable w.pool) ?_ ?_ tr w h
    · exact fun _ => ⟨fun _ t i hlock => (by cases hlock), Machine.reachable_init _⟩
    · intro tr w a w' _ ih hstep htr
      obtain ⟨henters, hreach⟩ := ih fun hn b hb => htr hn b (List.mem_append_left _ hb)
      obtain ⟨henters', hpool⟩ := henters.exec
        (fun hn => htr hn a (List.mem_append_right _ (List.mem_singleton_self a))) hstep
      refine ⟨henters', ?_⟩
      rcases hpool with hpool | ⟨b, hb⟩
      · rw [hpool]
        exact hreach
      · exact hreach.step hb
  exact hinv htr

/-! ## 5. Both loops -/

/-- **Waits and interruptions.**  A loop returns only with a permit if and only if it was not
interrupted, or an assertion fails.  In a run without interruptions the worker stores only into a
buffer whose permit it holds, and a thread is in the critical section of a get only with a
permit. -/
theorem interrupted_waits (n : Nat) (ndebug : Bool) {ring : Ring.Config} {status : Int}
    {mem : Nat → UInt8} {ringRun : List Ring.WaitAction} {r : Ring.Waiting}
    (hring : (Ring.waitMachine ring status mem).run ringRun = some r)
    {poolRun : List WaitAction} (hpool : (waitMachine cfg ndebug).run poolRun = some w) :
    ((∀ permits, Ring.semaphoreWait (interruptions n) = some permits → permits = 1) ↔ n = 0) ∧
    ((∀ permits, processPoolWaitAndLock ndebug (interruptions n) = .passed permits →
      permits = 1) ↔ n = 0 ∨ ndebug = false) ∧
    ((∀ a ∈ ringRun, a.Uninterrupted) → Ring.StoresHeld r) ∧
    ((ndebug = true → ∀ a ∈ poolRun, a.Uninterrupted) → EntersWithPermit w) := by
  refine ⟨⟨fun h => ?_, fun h permits hp => ?_⟩, ⟨fun h => ?_, ?_⟩,
    fun htr => (Ring.storesHeld_of_uninterrupted hring htr).1,
    fun htr => (entersWithPermit_of_run hpool htr).1⟩
  · cases n with
    | zero => rfl
    | succ n => cases h 0 (Ring.semaphoreWait_interrupted _)
  · subst h
    have htaken : Ring.semaphoreWait (interruptions 0) = some 1 := Ring.semaphoreWait_taken []
    rw [htaken] at hp
    cases hp
    rfl
  · cases n with
    | zero => exact .inl rfl
    | succ n =>
      cases ndebug with
      | false => exact .inr rfl
      | true => cases h 0 (processPoolWaitAndLock_interrupted true _)
  · rintro h permits hp
    refine permits_of_passed (fun hn => ?_) hp
    rcases h with rfl | h
    · rfl
    · rw [h] at hn
      cases hn

/-- The worker writes a byte, and waits for the client, which does not read it; this wait has the
given outcomes.  Then it writes another byte. -/
def writeTwice (outcomes : List Outcome) : List Ring.WaitAction :=
  [.step (.open 2), .step .client, .step .client, .step .accept, .step (.write [1]),
    .wait [.taken], .step .worker, .step .worker, .step .worker, .step .worker, .step .worker,
    .wait outcomes, .step .worker, .step (.write [2])]

/-- A thread has the worker, and another one waits with the given outcomes. -/
def secondGet (outcomes : List Outcome) : List WaitAction :=
  [.step (.call 0), .step (.getValue 0), .step (.startWorker 0 (some 0)), .wait 0 [.taken],
    .step (.assign 0 none), .step (.check 0), .step (.call 1), .step (.getValue 1),
    .step (.startWorker 1 none), .wait 1 outcomes]

/-- The worker has written its first byte; with assertions the second thread aborts the program. -/
theorem interrupted_waits_secondGet :
    ∃ r w, (Ring.waitMachine Ring.oneBuffer 0 fun _ => 0).run ((writeTwice []).take 8) = some r ∧
      (waitMachine oneSlot false).run (secondGet [.interrupted]) = some w ∧
      Ring.StoresHeld r ∧ EntersWithPermit w := by
  have hring : ((Ring.waitMachine Ring.oneBuffer 0 fun _ => 0).run
      ((writeTwice []).take 8)).isSome := by decide +kernel
  have hpool : ((waitMachine oneSlot false).run (secondGet [.interrupted])).isSome := by
    decide +kernel
  obtain ⟨r, hr⟩ := Option.isSome_iff_exists.mp hring
  obtain ⟨w, hw⟩ := Option.isSome_iff_exists.mp hpool
  obtain ⟨-, -, hstores, henters⟩ := interrupted_waits 1 false hr hw
  refine ⟨r, w, hr, hw, hstores fun a ha => ?_, henters fun h => by cases h⟩
  simp only [writeTwice, List.take_succ_cons, List.take_zero, List.mem_cons, List.not_mem_nil,
    or_false] at ha
  rcases ha with rfl | rfl | rfl | rfl | rfl | rfl | rfl | rfl <;> trivial

/-- The loops return without a permit; the worker writes into a buffer that the client has not
read, and a thread is in the critical section although there is no idle worker. -/
theorem interrupted_waits_pass :
    Ring.semaphoreWait (interruptions 1) = some 0 ∧
    processPoolWaitAndLock true (interruptions 1) = .passed 0 ∧
    (∃ s, (Ring.waitMachine Ring.oneBuffer 0 fun _ => 0).run (writeTwice (interruptions 1)) =
      some s ∧
      ¬ Ring.StoresHeld s) ∧
    ∃ w, (waitMachine oneSlot true).run (secondGet (interruptions 1)) = some w ∧
      ¬ EntersWithPermit w := by
  have hring : ((Ring.waitMachine Ring.oneBuffer 0 fun _ => 0).run
      (writeTwice (interruptions 1))).map (fun s => (s.ring.worker.dead, s.ring.worker.pc.stores,
        s.ring.worker.bufferNr, s.held)) = some (false, true, some 0, none) := by decide +kernel
  have hpool : ((waitMachine oneSlot true).run (secondGet (interruptions 1))).map
      (fun w => (w.aborted, w.pool.thread 1, w.took 1)) = some (false, .lock 0, false) := by
    decide +kernel
  obtain ⟨s, hs, hstores⟩ := Option.map_eq_some_iff.mp hring
  obtain ⟨w, hw, hlock⟩ := Option.map_eq_some_iff.mp hpool
  simp only [Prod.mk.injEq] at hstores hlock
  refine ⟨by decide, by decide, ⟨s, hs, fun h => ?_⟩, w, hw, fun h => ?_⟩
  · have hheld := h hstores.1 hstores.2.1 0 hstores.2.2.1
    rw [hstores.2.2.2] at hheld
    cases hheld
  · have htook := h hlock.1 1 0 hlock.2.1
    rw [hlock.2.2] at htook
    cases htook

end HdfStream.Pool
