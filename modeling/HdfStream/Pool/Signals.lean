/-
# The signals the pool sends

A process id may be used again once `waitpid` has returned the status of its process.  So no
signal may be sent to a child that was reaped.

Here is the pool with its calls of `kill`: `signalled` has the child of each of them, as it was at
that moment.  The calls of a thread that has a worker find it dead in two steps, which other
threads may come between (`Half`): `worker_process_send` and `worker_process_recv` set `is_dead`
and wait for the child after that, `worker_process_is_alive` waits first and sets `is_dead` then.

`worker_process_free` looks at `is_dead`, and is safe.  `worker_process_kill` does not:
`process_pool_free` kills the workers of all busy slots, also those that were reaped by the threads
that have them.  `signals_iff` says that this is the only way.  The signals of
`worker_process_free` in a start-up whose `init` fails are not modelled: no other thread has the
worker yet, so its `is_dead` is up to date.
-/
import HdfStream.Pool.Shutdown

namespace HdfStream.Pool

/-! ## 1. Signals -/

/-- The passes of the loop in `worker_process_free` that waits for the child. -/
def maxWaited : Nat := 200

/-- `waitpid` returns the id of the child; `exited` says that it has exited by now. -/
def Child.returned (c : Child) (exited : Bool) : Bool :=
  match c with
  | .reaped => false
  | .zombie => true
  | .running | .killed => exited

/-- `worker_process_free`: the child at `SIGTERM`, and at `SIGKILL` if it has not exited in any of
the passes of the loop. -/
def workerProcessFreeSignals (w : WorkerProcess) (exited : Nat → Bool) : List Child :=
  if w.isDead then []
  else if (List.range maxWaited).any fun waited => w.child.returned (exited waited) then [w.child]
  else [w.child, w.child]

/-- The same for a worker of the pool. -/
def freeSignals (s : State) (exited : Nat → Bool) (w : Ptr) : List Child :=
  match s.heap w with
  | none => []
  | some wp => workerProcessFreeSignals wp exited

/-- `worker_process_kill` of a slot, in `process_pool_free`. -/
def killSignals (s : State) (i : Nat) : List Child :=
  if s.pool.workerState i = .stopped then []
  else
    match s.pool.worker i with
    | none => []
    | some w =>
      match s.heap w with
      | none => []
      | some wp => [wp.child]

/-- The signals of a step. -/
def signals (n : Nat) (s : State) (exited : Nat → Bool) : Action → List Child
  | .stop t =>
    match s.thread t with
    | .outside => (List.range n).flatMap (killSignals s)
    | _ => []
  | .discard t =>
    match s.thread t with
    | .discard _ w =>
      (List.range n).flatMap fun j =>
        if s.pool.worker j = some w then freeSignals s exited w else []
    | _ => []
  | .release t =>
    match s.thread t with
    | .holding w =>
      match slotOf n s.pool w, s.heap w with
      | some _, some wp =>
        let (alive, wp) := workerProcessIsAlive wp
        if alive then [] else workerProcessFreeSignals wp exited
      | _, _ => []
    | _ => []
  | .freeNext t =>
    match s.thread t with
    | .freeing j =>
      match s.pool.worker j with
      | some w => if j < n then freeSignals s exited w else []
      | none => []
    | _ => []
  | _ => []

/-! ## 2. The machine -/

/-- What a thread has still to do when it has found its worker dead. -/
inductive Half where
  /-- `waitpid`, after `is_dead` was set. -/
  | reaping
  /-- To set `is_dead`, after `waitpid`. -/
  | marking
deriving DecidableEq

/-- The pool, and the signals it has sent. -/
structure Watched where
  pool : State
  half : Nat → Option Half
  signalled : List Child

/-- What may happen next. -/
inductive WatchedAction where
  /-- A step of the pool. -/
  | pool (a : Action) (exited : Nat → Bool)
  /-- A pipe is broken, in `worker_process_send` or `worker_process_recv`. -/
  | endOfFile (t : Nat)
  /-- `waitpid` returns, in one of these. -/
  | reap (t : Nat)
  /-- `waitpid` finds the child dead, in `worker_process_is_alive`. -/
  | waitNoHang (t : Nat)
  | markDead (t : Nat)

/-- It may call `worker_process_is_alive` without the lock. -/
def ThreadPc.mayAsk : ThreadPc → Bool
  | .check _ _ | .holding _ => true
  | _ => false

/-- It may call `worker_process_send` and `worker_process_recv`. -/
def ThreadPc.maySend : ThreadPc → Bool
  | .holding _ => true
  | _ => false

/-- A thread changes the struct of its worker. -/
def Watched.change (s : Watched) (t : Nat) (half : Option Half) (ok : WorkerProcess → Bool)
    (f : WorkerProcess → WorkerProcess) : Option Watched :=
  match (s.pool.thread t).worker with
  | none => none
  | some w =>
    match s.pool.heap w with
    | none => none
    | some wp =>
      if ok wp then
        some { s with
          pool := { s.pool with heap := Function.update s.pool.heap w (some (f wp)) }
          half := Function.update s.half t half }
      else none

/-- The step function. -/
def Watched.exec (cfg : Config) (s : Watched) : WatchedAction → Option Watched
  | .pool a exited =>
    if (a.thread?.bind s.half).isSome then none
    else
      (Pool.exec cfg s.pool a).map fun pool =>
        { s with
          pool := pool
          signalled := s.signalled ++ signals cfg.maxNrProcesses s.pool exited a }
  | .endOfFile t =>
    if t < cfg.nrThreads ∧ (s.pool.thread t).maySend ∧ s.half t = none then
      s.change t (some .reaping) (fun w => !w.isDead) fun w => { w with isDead := true }
    else none
  | .reap t =>
    if t < cfg.nrThreads ∧ s.half t = some .reaping then
      s.change t none (fun w => w.child = .zombie) fun w => { w with child := .reaped }
    else none
  | .waitNoHang t =>
    if t < cfg.nrThreads ∧ (s.pool.thread t).mayAsk ∧ s.half t = none then
      s.change t (some .marking) (fun w => !w.isDead && w.child = .zombie) fun w =>
        { w with child := .reaped }
    else none
  | .markDead t =>
    if t < cfg.nrThreads ∧ s.half t = some .marking then
      s.change t none (fun _ => true) fun w => { w with isDead := true }
    else none

/-- One pool and its threads. -/
def watchedMachine (cfg : Config) : Machine Watched WatchedAction where
  init := { pool := start, half := fun _ => none, signalled := [] }
  exec := Watched.exec cfg

/-! ## 3. The property, and the condition -/

/-- No signal was sent to a child that was reaped. -/
def NoneReaped (s : Watched) : Prop := ∀ c ∈ s.signalled, c ≠ .reaped

/-- When `process_pool_free` is called, no worker in a busy slot has been reaped. -/
def StopsInTime (cfg : Config) (s : Watched) : WatchedAction → Prop
  | .pool (.stop _) _ =>
    ∀ i, i < cfg.maxNrProcesses → s.pool.pool.workerState i = .busy →
      ∀ w wp, s.pool.pool.worker i = some w → s.pool.heap w = some wp → wp.child ≠ .reaped
  | _ => True

instance (cfg : Config) (s : Watched) : ∀ a, Decidable (StopsInTime cfg s a)
  | .pool (.stop _) _ =>
    decidable_of_iff (∀ i, i < cfg.maxNrProcesses → s.pool.pool.workerState i = .busy →
        ((s.pool.pool.worker i).bind s.pool.heap).map WorkerProcess.child ≠ some .reaped)
      (forall_congr' fun i => imp_congr_right fun _ => imp_congr_right fun _ =>
        ⟨fun h w wp hw hwp hc => h (by rw [hw, Option.bind_some, hwp, Option.map_some, hc]),
          fun h hc => by
            obtain ⟨wp, hwp, hc⟩ := Option.map_eq_some_iff.mp hc
            obtain ⟨w, hw, hwp⟩ := Option.bind_eq_some_iff.mp hwp
            exact h w wp hw hwp hc⟩)
  | .pool (.call _) _ | .pool (.getValue _) _ | .pool (.startWorker _ _) _ | .pool (.semWait _) _
  | .pool (.assign _ _) _ | .pool (.check _) _ | .pool (.discard _) _ | .pool (.release _) _
  | .pool (.post _) _ | .pool (.notice _) _ | .pool (.poll _) _ | .pool (.freeNext _) _
  | .pool (.die _) _ | .endOfFile _ | .reap _ | .waitNoHang _ | .markDead _ => isTrue trivial

/-- A call of `process_pool_free`. -/
def WatchedAction.isStop : WatchedAction → Bool
  | .pool a _ => a.isStop
  | _ => false

/-- The steps of the pool in a run. -/
def poolActions (tr : List WatchedAction) : List Action :=
  tr.filterMap fun a =>
    match a with
    | .pool a _ => some a
    | _ => none

variable {cfg : Config} {s s' : State} {t : Nat} {half : Nat → Option Half}

/-! ## 4. The invariant -/

/-- What holds of the slots and the threads in every state. -/
structure Facts (cfg : Config) (s : State) : Prop where
  inj : ∀ i j a, i < cfg.maxNrProcesses → j < cfg.maxNrProcesses → s.pool.worker i = some a →
    s.pool.worker j = some a → i = j
  live : ∀ i a, i < cfg.maxNrProcesses → s.pool.worker i = some a → (s.heap a).isSome = true
  holders : HoldersInv cfg s.pool s.thread

theorem RunInv.facts {tr : List Action} (h : RunInv cfg tr s) : Facts cfg s := by
  cases hstop : s.pool.stop with
  | false =>
    have hinv := h.up hstop
    exact ⟨hinv.slots.inj, hinv.slots.live, hinv.holders⟩
  | true =>
    have hdown := (h.down hstop).1
    exact ⟨hdown.inj, hdown.live, hdown.holders⟩

/-- `is_dead` says who was reaped, but for a thread that is about to set it; and a worker in an
idle slot is not marked as dead. -/
structure Clean (cfg : Config) (s : State) (half : Nat → Option Half) : Prop where
  reaped : ∀ w wp, s.heap w = some wp → wp.child = .reaped → wp.isDead = true ∨
    ∃ t, t < cfg.nrThreads ∧ (s.thread t).worker = some w ∧ half t = some .marking
  reaping : ∀ t w wp, t < cfg.nrThreads → half t = some .reaping →
    (s.thread t).worker = some w → s.heap w = some wp → wp.isDead = true
  idle : ∀ i w wp, i < cfg.maxNrProcesses → s.pool.workerState i = .idle →
    s.pool.worker i = some w → s.heap w = some wp → wp.isDead = false

/-- A worker that its thread is done with. -/
theorem Clean.owned (h : Clean cfg s half) (hf : Facts cfg s) (ht : t < cfg.nrThreads) {w : Ptr}
    (hw : (s.thread t).worker = some w) (hhalf : half t = none) {wp : WorkerProcess}
    (hwp : s.heap w = some wp) (hreaped : wp.child = .reaped) : wp.isDead = true := by
  rcases h.reaped w wp hwp hreaped with hdead | ⟨t', ht', hw', hmarking⟩
  · exact hdead
  · rw [hf.holders.excl t' t w ht' ht hw' hw, hhalf] at hmarking
    cases hmarking

/-- A worker in a slot that is not busy. -/
theorem Clean.unused (h : Clean cfg s half) (hf : Facts cfg s) {i : Nat}
    (hi : i < cfg.maxNrProcesses) (hbusy : s.pool.workerState i ≠ .busy) {w : Ptr}
    (hw : s.pool.worker i = some w) {wp : WorkerProcess} (hwp : s.heap w = some wp)
    (hreaped : wp.child = .reaped) : wp.isDead = true := by
  rcases h.reaped w wp hwp hreaped with hdead | ⟨t, ht, hw', -⟩
  · exact hdead
  · obtain ⟨j, hj, hwj, hbusyj⟩ := hf.holders.slot t w ht hw'
    rw [hf.inj j i w hj hi hwj hw] at hbusyj
    exact absurd hbusyj hbusy

/-- The worker of a thread is in no idle slot. -/
theorem Facts.not_idle (hf : Facts cfg s) (ht : t < cfg.nrThreads) {w : Ptr}
    (hw : (s.thread t).worker = some w) {i : Nat} (hi : i < cfg.maxNrProcesses)
    (hwi : s.pool.worker i = some w) : s.pool.workerState i ≠ .idle := by
  obtain ⟨j, hj, hwj, hbusy⟩ := hf.holders.slot t w ht hw
  rw [hf.inj i j w hi hj hwi hwj, hbusy]
  exact fun h => by cases h

/-- No struct is new or marked, no child is reaped, and no slot is idle that was not. -/
theorem Clean.move (h : Clean cfg s half)
    (hheap : ∀ w wp', s'.heap w = some wp' → ∃ wp, s.heap w = some wp ∧ wp'.isDead = wp.isDead ∧
      (wp'.child = .reaped → wp.child = .reaped))
    (hidle : ∀ i w, s'.pool.workerState i = .idle → s'.pool.worker i = some w →
      s.pool.workerState i = .idle ∧ s.pool.worker i = some w)
    (hthread : ∀ t, (half t).isSome = true → s'.thread t = s.thread t) : Clean cfg s' half where
  reaped w wp' hwp' hreaped := by
    obtain ⟨wp, hwp, hdead, hchild⟩ := hheap w wp' hwp'
    rw [hdead]
    rcases h.reaped w wp hwp (hchild hreaped) with hdead | ⟨t, ht, hw, hmarking⟩
    · exact .inl hdead
    · rw [← hthread t (by rw [hmarking]; rfl)] at hw
      exact .inr ⟨t, ht, hw, hmarking⟩
  reaping t w wp' ht hhalf hw hwp' := by
    obtain ⟨wp, hwp, hdead, -⟩ := hheap w wp' hwp'
    rw [hthread t (by rw [hhalf]; rfl)] at hw
    rw [hdead]
    exact h.reaping t w wp ht hhalf hw hwp
  idle i w wp' hi hst hw hwp' := by
    obtain ⟨wp, hwp, hdead, -⟩ := hheap w wp' hwp'
    obtain ⟨hst, hw⟩ := hidle i w hst hw
    rw [hdead]
    exact h.idle i w wp hi hst hw hwp

/-- One thread moves. -/
theorem thread_update {thread : Nat → ThreadPc} (hhalf : half t = none) (pc : ThreadPc) :
    ∀ t', (half t').isSome = true → Function.update thread t pc t' = thread t' := by
  intro t' ht'
  have hne : t' ≠ t := by
    rintro rfl
    rw [hhalf] at ht'
    cases ht'
  exact Function.update_of_ne hne _ _

theorem Clean.setThread (h : Clean cfg s half) (hhalf : half t = none) (pc : ThreadPc) :
    Clean cfg (s.setThread t pc) half :=
  h.move (fun _ wp hwp => ⟨wp, hwp, rfl, id⟩) (fun _ _ hst hw => ⟨hst, hw⟩) (thread_update hhalf pc)

/-- A struct changes. -/
theorem Clean.setStruct (h : Clean cfg s half) {w : Ptr} {old wp : WorkerProcess}
    (hold : s.heap w = some old) (hdead : old.isDead = true → wp.isDead = true)
    (hreaped : wp.child = .reaped → wp.isDead = true ∨
      ∃ t, t < cfg.nrThreads ∧ (s.thread t).worker = some w ∧ half t = some .marking)
    (hidle : ∀ i, i < cfg.maxNrProcesses → s.pool.workerState i = .idle →
      s.pool.worker i = some w → wp.isDead = false) :
    Clean cfg { s with heap := Function.update s.heap w (some wp) } half where
  reaped w' wp' hwp' hreaped' := by
    dsimp only at hwp'
    by_cases e : w' = w
    · subst e
      rw [Function.update_self] at hwp'
      cases hwp'
      exact hreaped hreaped'
    · rw [Function.update_of_ne e] at hwp'
      exact h.reaped w' wp' hwp' hreaped'
  reaping t w' wp' ht hhalf hw' hwp' := by
    dsimp only at hwp'
    by_cases e : w' = w
    · subst e
      rw [Function.update_self] at hwp'
      cases hwp'
      exact hdead (h.reaping t w' old ht hhalf hw' hold)
    · rw [Function.update_of_ne e] at hwp'
      exact h.reaping t w' wp' ht hhalf hw' hwp'
  idle i w' wp' hi hst hw' hwp' := by
    dsimp only at hwp'
    by_cases e : w' = w
    · subst e
      rw [Function.update_self] at hwp'
      cases hwp'
      exact hidle i hi hst hw'
    · rw [Function.update_of_ne e] at hwp'
      exact h.idle i w' wp' hi hst hw' hwp'

/-- `worker_process_is_alive` on the worker of a thread. -/
theorem Clean.isAlive (h : Clean cfg s half) (hf : Facts cfg s) (ht : t < cfg.nrThreads) {w : Ptr}
    (hw : (s.thread t).worker = some w) (hhalf : half t = none) {wp : WorkerProcess}
    (hwp : s.heap w = some wp) :
    Clean cfg { s with heap := Function.update s.heap w (some (workerProcessIsAlive wp).2) }
      half := by
  have hreaped := h.owned hf ht hw hhalf hwp
  refine h.setStruct hwp ?_ ?_ fun i hi hst hwi => absurd hst (hf.not_idle ht hw hi hwi)
  · intro hdead
    rw [workerProcessIsAlive, if_pos hdead]
    exact hdead
  · rw [workerProcessIsAlive]
    split
    · exact fun _ => .inl (by assumption)
    · split
      · exact fun _ => .inl rfl
      · exact fun hr => .inl (hreaped hr)

/-- A worker that is alive is not marked as dead, and was not reaped. -/
theorem isAlive_true {wp : WorkerProcess} (h : (workerProcessIsAlive wp).1 = true) :
    (workerProcessIsAlive wp).2.isDead = false := by
  rw [workerProcessIsAlive] at h ⊢
  split at h
  · cases h
  · rename_i hdead
    rw [if_neg hdead]
    split at h
    · cases h
    · exact Bool.not_eq_true _ ▸ hdead

theorem isAlive_false {wp : WorkerProcess} (h : (workerProcessIsAlive wp).1 = false) :
    (workerProcessIsAlive wp).2.isDead = true := by
  rw [workerProcessIsAlive] at h ⊢
  split at h
  · rename_i hdead
    rw [if_pos hdead]
    exact hdead
  · rename_i hdead
    rw [if_neg hdead]
    split at h
    · rfl
    · cases h

/-! ## 5. The steps of the pool -/

/-- A struct is freed. -/
theorem heap_freed {w : Ptr} (b : Ptr) (wp : WorkerProcess)
    (h : Function.update s.heap w none b = some wp) : s.heap b = some wp := by
  by_cases e : b = w
  · rw [e, Function.update_self] at h
    cases h
  · rwa [Function.update_of_ne e] at h

/-- A slot that is given up is not idle. -/
theorem idle_update {p : ProcessPool} {j : Nat} (st : WorkerState) (hst : st ≠ .idle)
    (w' : Option Ptr) (i : Nat) (w : Ptr) (hi : Function.update p.workerState j st i = .idle)
    (hw : Function.update p.worker j w' i = some w) :
    p.workerState i = .idle ∧ p.worker i = some w := by
  by_cases e : i = j
  · rw [e, Function.update_self] at hi
    exact absurd hi hst
  · rw [Function.update_of_ne e] at hi hw
    exact ⟨hi, hw⟩

/-- The slot and the struct of a worker are given up. -/
theorem Clean.discardSlot (h : Clean cfg s half) (w : Ptr) (j : Nat) :
    Clean cfg (discardSlot w s j) half := by
  unfold Pool.discardSlot
  split
  · exact h.move (fun b wp hwp => ⟨wp, heap_freed b wp hwp, rfl, id⟩)
      (idle_update .stopped (fun hn => by cases hn) none) fun _ _ => rfl
  · exact h

theorem Clean.foldl_discardSlot (w : Ptr) (l : List Nat) :
    ∀ s : State, Clean cfg s half → Clean cfg (l.foldl (Pool.discardSlot w) s) half := by
  induction l with
  | nil => exact fun _ h => h
  | cons j l ih => exact fun s h => ih _ (h.discardSlot w j)

/-- `process_pool_start_worker`. -/
theorem Clean.startWorker (h : Clean cfg s half) (hf : Facts cfg s) {new : Option Ptr}
    (h' : processPoolStartWorker cfg.maxNrProcesses s new = some s') : Clean cfg s' half := by
  unfold processPoolStartWorker at h'
  dsimp only at h'
  split at h'
  · split at h'
    · rename_i i _
      split at h'
      · rename_i a
        split at h'
        · cases h'
        · rename_i hfree
          cases h'
          -- nobody has the new struct yet
          have hnone : s.heap a = none := Option.not_isSome_iff_eq_none.mp hfree
          have hslot : ∀ j, j < cfg.maxNrProcesses → s.pool.worker j ≠ some a := by
            intro j hj hja
            have hlive := hf.live j a hj hja
            rw [hnone] at hlive
            cases hlive
          refine ⟨fun b wp hwp hreaped => ?_, fun t b wp ht hhalf hb hwp => ?_,
            fun j b wp hj hst hb hwp => ?_⟩
          · dsimp only at hwp
            by_cases e : b = a
            · rw [e, Function.update_self] at hwp
              cases hwp
              cases hreaped
            · rw [Function.update_of_ne e] at hwp
              exact h.reaped b wp hwp hreaped
          · dsimp only at hwp
            by_cases e : b = a
            · subst e
              obtain ⟨j, hj, hja, -⟩ := hf.holders.slot t b ht hb
              exact absurd hja (hslot j hj)
            · rw [Function.update_of_ne e] at hwp
              exact h.reaping t b wp ht hhalf hb hwp
          · dsimp only at hst hb hwp
            by_cases e : b = a
            · rw [e, Function.update_self] at hwp
              cases hwp
              rfl
            · rw [Function.update_of_ne e] at hwp
              have hne : j ≠ i := by
                rintro rfl
                rw [Function.update_self] at hb
                cases hb
                exact e rfl
              rw [Function.update_of_ne hne] at hst hb
              exact h.idle j b wp hj hst hb hwp
      · cases h'
        exact h.move (fun _ wp hwp => ⟨wp, hwp, rfl, id⟩)
          (idle_update .stopped (fun hn => by cases hn) none) fun _ _ => rfl
    · cases h'
      exact h
  · cases h'
    exact h

theorem workerProcessKill_isDead (wp : WorkerProcess) :
    (workerProcessKill wp).isDead = wp.isDead := by
  unfold workerProcessKill
  split <;> rfl

theorem workerProcessKill_reaped {wp : WorkerProcess} (h : (workerProcessKill wp).child = .reaped) :
    wp.child = .reaped := by
  unfold workerProcessKill at h
  split at h
  · cases h
  · exact h

/-- The kills of `process_pool_free`. -/
theorem Clean.stop (h : Clean cfg s half) (n : Nat) : Clean cfg (processPoolStop n s) half := by
  refine h.move (fun w wp' hwp' => ?_) (fun _ _ hst hw => ⟨hst, hw⟩) fun _ _ => rfl
  dsimp only [processPoolStop] at hwp'
  split at hwp'
  · obtain ⟨wp, hwp, rfl⟩ := Option.map_eq_some_iff.mp hwp'
    exact ⟨wp, hwp, workerProcessKill_isDead wp, workerProcessKill_reaped⟩
  · exact ⟨wp', hwp', rfl, id⟩

/-- A worker that is alive goes back to its slot. -/
theorem Clean.giveBack (h : Clean cfg s half) {i : Nat} {w : Ptr} {wp : WorkerProcess}
    (hw : s.pool.worker i = some w) (hwp : s.heap w = some wp) (halive : wp.isDead = false) :
    Clean cfg { s with pool := { s.pool with
      workerState := Function.update s.pool.workerState i .idle } } half where
  reaped := h.reaped
  reaping := h.reaping
  idle j b wp' hj hst hb hwp' := by
    dsimp only at hst
    by_cases e : j = i
    · subst e
      rw [hw] at hb
      cases hb
      rw [hwp] at hwp'
      cases hwp'
      exact halive
    · rw [Function.update_of_ne e] at hst
      exact h.idle j b wp' hj hst hb hwp'

/-- The slot of a thread's worker, and its struct. -/
theorem Facts.holder (hf : Facts cfg s) (ht : t < cfg.nrThreads) {w : Ptr}
    (hw : (s.thread t).worker = some w) :
    ∃ j wp, j < cfg.maxNrProcesses ∧ s.pool.worker j = some w ∧ s.heap w = some wp ∧
      slotOf cfg.maxNrProcesses s.pool w = some j := by
  obtain ⟨j, hj, hwj, -⟩ := hf.holders.slot t w ht hw
  obtain ⟨wp, hwp⟩ := Option.isSome_iff_exists.mp (hf.live j w hj hwj)
  exact ⟨j, wp, hj, hwj, hwp, slotOf_eq hj hwj fun i hi hwi => hf.inj i j w hi hj hwi hwj⟩

/-- The critical section of a release. -/
theorem Clean.release (h : Clean cfg s half) (hf : Facts cfg s) (ht : t < cfg.nrThreads) {w : Ptr}
    (hpc : s.thread t = .holding w) (hhalf : half t = none) :
    Clean cfg (processPoolReleaseWorker cfg.maxNrProcesses s w).1 half := by
  have hw : (s.thread t).worker = some w := by rw [hpc]; rfl
  obtain ⟨j, wp, hj, hwj, hwp, hslot⟩ := hf.holder ht hw
  have halive := h.isAlive hf ht hw hhalf hwp
  simp only [processPoolReleaseWorker, hslot, hwp]
  cases hanswer : (workerProcessIsAlive wp).1 with
  | true => exact halive.giveBack hwj (Function.update_self ..) (isAlive_true hanswer)
  | false => exact halive.discardSlot w j

/-- A step of a thread that leaves the workers as they are. -/
theorem Clean.waitStep (h : Clean cfg s half) {a : Action}
    (ha : a = .call t ∨ a = .getValue t ∨ a = .poll t ∨ a = .semWait t ∨ a = .post t)
    (hhalf : half t = none) (h' : Pool.exec cfg s a = some s') : Clean cfg s' half := by
  rcases ha with rfl | rfl | rfl | rfl | rfl
  all_goals
    simp only [Pool.exec, Action.thread?, threadStep] at h'
    repeat' split at h'
  all_goals cases h'
  all_goals first
    | exact h
    | exact h.setThread hhalf _
    | exact h.move (fun _ wp hwp => ⟨wp, hwp, rfl, id⟩) (fun _ _ hst hw => ⟨hst, hw⟩)
        (thread_update hhalf _)

theorem Clean.startStep (h : Clean cfg s half) (hf : Facts cfg s) {new : Option Ptr}
    (hhalf : half t = none) (h' : Pool.exec cfg s (.startWorker t new) = some s') :
    Clean cfg s' half := by
  simp only [Pool.exec, Action.thread?, threadStep] at h'
  repeat' split at h'
  · obtain ⟨s₁, hs₁, rfl⟩ := Option.map_eq_some_iff.mp h'
    exact (h.startWorker hf hs₁).setThread hhalf _
  · exact h.startWorker hf h'
  all_goals cases h'

theorem Clean.assign (h : Clean cfg s half) {cb : Option (Option Ptr → Nat)} (hhalf : half t = none)
    (h' : Pool.exec cfg s (.assign t cb) = some s') : Clean cfg s' half := by
  have hsame : ∀ w wp', s.heap w = some wp' → ∃ wp, s.heap w = some wp ∧
      wp'.isDead = wp.isDead ∧ (wp'.child = .reaped → wp.child = .reaped) :=
    fun _ wp hwp => ⟨wp, hwp, rfl, id⟩
  simp only [Pool.exec, Action.thread?, threadStep] at h'
  split at h'
  · split at h'
    · split at h'
      · cases h'
        exact h.move hsame (fun _ _ hst hw => ⟨hst, hw⟩) (thread_update hhalf _)
      · split at h'
        · cases h'
          exact h.move hsame (fun _ _ hst hw => ⟨hst, hw⟩) (thread_update hhalf _)
        · rename_i j _
          cases h'
          refine h.move hsame (fun i w hst hw => ?_) (thread_update hhalf _)
          dsimp only [State.setThread] at hst hw
          by_cases e : i = j
          · rw [e, Function.update_self] at hst
            cases hst
          · rw [Function.update_of_ne e] at hst
            exact ⟨hst, hw⟩
    · cases h'
  · cases h'

/-- `worker_process_is_alive`, after an assignment or a failed exchange. -/
theorem Clean.checkStep (h : Clean cfg s half) (hf : Facts cfg s) {a : Action}
    (ha : a = .check t ∨ a = .notice t) (hhalf : half t = none)
    (h' : Pool.exec cfg s a = some s') : Clean cfg s' half := by
  have hsame : ∀ w wp', s.heap w = some wp' → ∃ wp, s.heap w = some wp ∧
      wp'.isDead = wp.isDead ∧ (wp'.child = .reaped → wp.child = .reaped) :=
    fun _ wp hwp => ⟨wp, hwp, rfl, id⟩
  rcases ha with rfl | rfl
  · simp only [Pool.exec, Action.thread?, threadStep] at h'
    split at h'
    · rename_i ht
      split at h'
      · rename_i i w hpc
        split at h'
        · cases h'
          exact h.move hsame (fun _ _ hst hw => ⟨hst, hw⟩) fun _ _ => rfl
        · rename_i wp hwp
          cases h'
          exact (h.isAlive hf ht (by rw [hpc]; rfl) hhalf hwp).setThread hhalf _
      · cases h'
    · cases h'
  · simp only [Pool.exec, Action.thread?, threadStep] at h'
    split at h'
    · rename_i ht
      split at h'
      · rename_i w hpc
        split at h'
        · cases h'
          exact h.move hsame (fun _ _ hst hw => ⟨hst, hw⟩) fun _ _ => rfl
        · rename_i wp hwp
          cases h'
          exact h.isAlive hf ht (by rw [hpc]; rfl) hhalf hwp
      · cases h'
    · cases h'

/-- A worker is given back, or the dead workers are discarded. -/
theorem Clean.releaseStep (h : Clean cfg s half) (hf : Facts cfg s) {a : Action}
    (ha : a = .discard t ∨ a = .release t) (hhalf : half t = none)
    (h' : Pool.exec cfg s a = some s') : Clean cfg s' half := by
  rcases ha with rfl | rfl
  · simp only [Pool.exec, Action.thread?, threadStep] at h'
    repeat' split at h'
    all_goals cases h'
    exact (Clean.foldl_discardSlot _ _ _ h).setThread hhalf _
  · simp only [Pool.exec, Action.thread?, threadStep] at h'
    split at h'
    · rename_i ht
      split at h'
      · rename_i w hpc
        cases h'
        exact (h.release hf ht hpc hhalf).setThread hhalf _
      · cases h'
    · cases h'

/-- `process_pool_free` frees the next worker. -/
theorem Clean.freeNext (h : Clean cfg s half) (hhalf : half t = none)
    (h' : Pool.exec cfg s (.freeNext t) = some s') : Clean cfg s' half := by
  simp only [Pool.exec, Action.thread?, threadStep] at h'
  split at h'
  · split at h'
    · rename_i j hpc
      split at h'
      · cases h'
        refine Clean.setThread ?_ hhalf _
        unfold freeSlot
        split
        · refine h.move (fun b wp hwp => ⟨wp, heap_freed b wp hwp, rfl, id⟩)
            (fun i w hst hw => ⟨hst, ?_⟩) fun _ _ => rfl
          dsimp only at hw
          by_cases e : i = j
          · rw [e, Function.update_self] at hw
            cases hw
          · rwa [Function.update_of_ne e] at hw
        · exact h
      · cases h'
        exact h.setThread hhalf _
    · cases h'
  · cases h'

/-- A worker dies. -/
theorem Clean.die (h : Clean cfg s half) {w : Ptr} (h' : Pool.exec cfg s (.die w) = some s') :
    Clean cfg s' half := by
  simp only [Pool.exec, Action.thread?] at h'
  split at h'
  · rename_i wp hwp
    split at h'
    · cases h'
      refine h.move (fun b wp' hwp' => ?_) (fun _ _ hst hw => ⟨hst, hw⟩) fun _ _ => rfl
      dsimp only at hwp'
      by_cases e : b = w
      · rw [e, Function.update_self] at hwp'
        cases hwp'
        exact ⟨wp, e ▸ hwp, rfl, fun hn => by cases hn⟩
      · rw [Function.update_of_ne e] at hwp'
        exact ⟨wp', hwp', rfl, id⟩
    · cases h'
  · cases h'

/-- **A step of the pool.** -/
theorem Clean.exec (h : Clean cfg s half) (hf : Facts cfg s) {a : Action}
    (hhalf : ∀ t, a.thread? = some t → half t = none) (h' : Pool.exec cfg s a = some s') :
    Clean cfg s' half := by
  cases a with
  | call t => exact h.waitStep (.inl rfl) (hhalf t rfl) h'
  | getValue t => exact h.waitStep (.inr (.inl rfl)) (hhalf t rfl) h'
  | poll t => exact h.waitStep (.inr (.inr (.inl rfl))) (hhalf t rfl) h'
  | semWait t => exact h.waitStep (.inr (.inr (.inr (.inl rfl)))) (hhalf t rfl) h'
  | post t => exact h.waitStep (.inr (.inr (.inr (.inr rfl)))) (hhalf t rfl) h'
  | startWorker t new => exact h.startStep hf (hhalf t rfl) h'
  | assign t cb => exact h.assign (hhalf t rfl) h'
  | check t => exact h.checkStep hf (.inl rfl) (hhalf t rfl) h'
  | notice t => exact h.checkStep hf (.inr rfl) (hhalf t rfl) h'
  | discard t => exact h.releaseStep hf (.inl rfl) (hhalf t rfl) h'
  | release t => exact h.releaseStep hf (.inr rfl) (hhalf t rfl) h'
  | stop t =>
    simp only [Pool.exec, Action.thread?, threadStep] at h'
    repeat' split at h'
    all_goals cases h'
    exact (h.stop _).setThread (hhalf t rfl) _
  | freeNext t => exact h.freeNext (hhalf t rfl) h'
  | die w => exact h.die h'

/-! ## 6. The signals of a step -/

/-- `worker_process_free` sends no signal to a child that was reaped, if that is marked. -/
theorem workerProcessFreeSignals_unreaped {wp : WorkerProcess}
    (h : wp.child = .reaped → wp.isDead = true) (exited : Nat → Bool) :
    ∀ c ∈ workerProcessFreeSignals wp exited, c ≠ .reaped := by
  intro c hc
  unfold workerProcessFreeSignals at hc
  split at hc
  · cases hc
  · rename_i hdead
    have hsame : c = wp.child := by
      split at hc
      · exact List.mem_singleton.mp hc
      · rcases List.mem_cons.mp hc with hc | hc
        · exact hc
        · exact List.mem_singleton.mp hc
    rw [hsame]
    exact fun hreaped => hdead (h hreaped)

theorem freeSignals_unreaped {w : Ptr} (h : ∀ wp, s.heap w = some wp → wp.child = .reaped →
    wp.isDead = true) (exited : Nat → Bool) : ∀ c ∈ freeSignals s exited w, c ≠ .reaped := by
  intro c hc
  unfold freeSignals at hc
  split at hc
  · cases hc
  · rename_i wp hwp
    exact workerProcessFreeSignals_unreaped (h wp hwp) exited c hc

/-- Who is in the last loop of `process_pool_free` finds no busy slot. -/
theorem RunInv.quiet {tr : List Action} (h : RunInv cfg tr s) (ht : t < cfg.nrThreads) {j : Nat}
    (hpc : s.thread t = .freeing j) {i : Nat} (hi : i < cfg.maxNrProcesses) :
    s.pool.workerState i ≠ .busy := by
  cases hstop : s.pool.stop with
  | false =>
    have hexcluded := (h.up hstop).excluded t ht
    rw [hpc] at hexcluded
    cases hexcluded
  | true => exact ((h.down hstop).1.quiet t j ht hpc).1 i hi

/-- A child that gets a signal from `process_pool_free`. -/
theorem mem_killSignals {i : Nat} {c : Child} :
    c ∈ killSignals s i ↔ s.pool.workerState i ≠ .stopped ∧
      ∃ w wp, s.pool.worker i = some w ∧ s.heap w = some wp ∧ c = wp.child := by
  unfold killSignals
  split
  · rename_i hstopped
    exact ⟨fun h => absurd h List.not_mem_nil, fun h => absurd hstopped h.1⟩
  · rename_i hstopped
    constructor
    · intro hc
      split at hc
      · cases hc
      · rename_i w hw
        split at hc
        · cases hc
        · rename_i wp hwp
          exact ⟨hstopped, w, wp, hw, hwp, List.mem_singleton.mp hc⟩
    · rintro ⟨-, w, wp, hw, hwp, rfl⟩
      rw [hw]
      dsimp only
      rw [hwp]
      exact List.mem_singleton_self _

/-- **The signals of a step** that is not the first one of `process_pool_free`. -/
theorem signals_unreaped {tr : List Action} (h : Clean cfg s half) (hr : RunInv cfg tr s)
    {a : Action} (hhalf : ∀ t, a.thread? = some t → half t = none)
    (h' : Pool.exec cfg s a = some s') (hne : a.isStop = false) (exited : Nat → Bool) :
    ∀ c ∈ signals cfg.maxNrProcesses s exited a, c ≠ .reaped := by
  have hf := hr.facts
  intro c hc
  cases a with
  | stop t => cases hne
  | discard t =>
    simp only [Pool.exec, Action.thread?, threadStep] at h'
    split at h'
    · rename_i ht
      split at h'
      · rename_i i w hpc
        simp only [signals, hpc] at hc
        obtain ⟨j, -, hc⟩ := List.mem_flatMap.mp hc
        split at hc
        · exact freeSignals_unreaped
            (fun wp hwp => h.owned hf ht (by rw [hpc]; rfl) (hhalf t rfl) hwp) exited c hc
        · cases hc
      · cases h'
    · cases h'
  | release t =>
    unfold signals at hc
    dsimp only at hc
    split at hc
    · split at hc
      · rename_i wp _ _
        split at hc
        · cases hc
        · rename_i halive
          refine workerProcessFreeSignals_unreaped (fun _ => ?_) exited c hc
          exact isAlive_false (Bool.eq_false_iff.mpr halive)
      · cases hc
    · cases hc
  | freeNext t =>
    simp only [Pool.exec, Action.thread?, threadStep] at h'
    split at h'
    · rename_i ht
      split at h'
      · rename_i j hpc
        simp only [signals, hpc] at hc
        split at hc
        · rename_i w hw
          split at hc
          · rename_i hj
            exact freeSignals_unreaped
              (fun wp hwp => h.unused hf hj (hr.quiet ht hpc hj) hw hwp) exited c hc
          · cases hc
        · cases hc
      · cases h'
    · cases h'
  | _ => cases hc

/-- **The signals of `process_pool_free`.** -/
theorem signals_stop_iff (h : Clean cfg s half) (hf : Facts cfg s)
    (hpc : s.thread t = .outside) (exited : Nat → Bool) :
    (∀ c ∈ signals cfg.maxNrProcesses s exited (.stop t), c ≠ .reaped) ↔
      ∀ i, i < cfg.maxNrProcesses → s.pool.workerState i = .busy →
        ∀ w wp, s.pool.worker i = some w → s.heap w = some wp → wp.child ≠ .reaped := by
  have hsignals : signals cfg.maxNrProcesses s exited (.stop t) =
      (List.range cfg.maxNrProcesses).flatMap (killSignals s) := by
    simp only [signals, hpc]
  rw [hsignals]
  constructor
  · intro hnone i hi hbusy w wp hw hwp
    have hne : s.pool.workerState i ≠ .stopped := by
      rw [hbusy]
      exact fun hn => by cases hn
    refine hnone wp.child (List.mem_flatMap.mpr ⟨i, List.mem_range.mpr hi, ?_⟩)
    exact mem_killSignals.mpr ⟨hne, w, wp, hw, hwp, rfl⟩
  · intro hbusy c hc
    obtain ⟨i, hi, hc⟩ := List.mem_flatMap.mp hc
    have hi := List.mem_range.mp hi
    obtain ⟨hstopped, w, wp, hw, hwp, rfl⟩ := mem_killSignals.mp hc
    cases hst : s.pool.workerState i with
    | stopped => exact absurd hst hstopped
    | busy => exact hbusy i hi hst w wp hw hwp
    | idle =>
      intro hreaped
      have hdead := h.unused hf hi (by rw [hst]; exact fun hn => by cases hn) hw hwp hreaped
      rw [h.idle i w wp hi hst hw hwp] at hdead
      cases hdead

/-! ## 7. Calls that find a worker dead -/

/-- A thread changes the struct of its worker. -/
theorem Clean.change (h : Clean cfg s half) (hf : Facts cfg s) (ht : t < cfg.nrThreads) {w : Ptr}
    (hw : (s.thread t).worker = some w) (wp : WorkerProcess) (x : Option Half)
    (hreaped : wp.child = .reaped → wp.isDead = true ∨ x = some .marking)
    (hreaping : x = some .reaping → wp.isDead = true) :
    Clean cfg { s with heap := Function.update s.heap w (some wp) }
      (Function.update half t x) where
  reaped w' wp' hwp' hreaped' := by
    dsimp only at hwp'
    by_cases e : w' = w
    · subst e
      rw [Function.update_self] at hwp'
      cases hwp'
      rcases hreaped hreaped' with hdead | hx
      · exact .inl hdead
      · exact .inr ⟨t, ht, hw, by rw [Function.update_self, hx]⟩
    · rw [Function.update_of_ne e] at hwp'
      rcases h.reaped w' wp' hwp' hreaped' with hdead | ⟨t', ht', hw', hmarking⟩
      · exact .inl hdead
      · have hne : t' ≠ t := by
          rintro rfl
          rw [hw] at hw'
          cases hw'
          exact e rfl
        exact .inr ⟨t', ht', hw', by rwa [Function.update_of_ne hne]⟩
  reaping t' w' wp' ht' hhalf hw' hwp' := by
    dsimp only at hwp' hw'
    by_cases e : t' = t
    · subst e
      rw [hw] at hw'
      cases hw'
      rw [Function.update_self] at hwp' hhalf
      cases hwp'
      exact hreaping hhalf
    · have hne : w' ≠ w := by
        rintro rfl
        exact e (hf.holders.excl t' t w' ht' ht hw' hw)
      rw [Function.update_of_ne hne] at hwp'
      rw [Function.update_of_ne e] at hhalf
      exact h.reaping t' w' wp' ht' hhalf hw' hwp'
  idle i w' wp' hi hst hw' hwp' := by
    dsimp only at hwp'
    have hne : w' ≠ w := by
      rintro rfl
      exact hf.not_idle ht hw hi hw' hst
    rw [Function.update_of_ne hne] at hwp'
    exact h.idle i w' wp' hi hst hw' hwp'

theorem RunInv.setStruct {tr : List Action} (h : RunInv cfg tr s) {w : Ptr} {old : WorkerProcess}
    (hold : s.heap w = some old) (wp : WorkerProcess) :
    RunInv cfg tr { s with heap := Function.update s.heap w (some wp) } where
  owned := h.owned.heap hold
  up hstop := (h.up hstop).heap w wp
  down hstop := ⟨(h.down hstop).1.heap w wp, (h.down hstop).2⟩

/-- What holds after every run with at most one call of `process_pool_free`. -/
structure WatchedInv (cfg : Config) (tr : List WatchedAction) (s : Watched) : Prop where
  run : RunInv cfg (poolActions tr) s.pool
  clean : Clean cfg s.pool s.half

theorem change_eq {s s' : Watched} {x : Option Half} {ok : WorkerProcess → Bool}
    {f : WorkerProcess → WorkerProcess} (h : s.change t x ok f = some s') :
    ∃ w wp, (s.pool.thread t).worker = some w ∧ s.pool.heap w = some wp ∧ ok wp = true ∧
      s' = { s with
        pool := { s.pool with heap := Function.update s.pool.heap w (some (f wp)) }
        half := Function.update s.half t x } := by
  unfold Watched.change at h
  split at h
  · cases h
  · rename_i w hw
    split at h
    · cases h
    · rename_i wp hwp
      split at h
      · rename_i hok
        cases h
        exact ⟨w, wp, hw, hwp, hok, rfl⟩
      · cases h

/-- One step. -/
theorem WatchedInv.exec {s s' : Watched} {tr : List WatchedAction} (h : WatchedInv cfg tr s)
    {a : WatchedAction} (hone : (poolActions (tr ++ [a])).countP Action.isStop ≤ 1)
    (h' : s.exec cfg a = some s') : WatchedInv cfg (tr ++ [a]) s' := by
  have hf := h.run.facts
  -- the other steps change the struct of the thread's worker
  have hchange : ∀ t x ok f, t < cfg.nrThreads → poolActions (tr ++ [a]) = poolActions tr →
      s.change t x ok f = some s' →
      (∀ w wp, (s.pool.thread t).worker = some w → s.pool.heap w = some wp →
        (f wp).child = .reaped → (f wp).isDead = true ∨ x = some .marking) →
      (∀ wp, x = some .reaping → (f wp).isDead = true) → WatchedInv cfg (tr ++ [a]) s' := by
    intro t x ok f ht hsame hch hreaped hreaping
    obtain ⟨w, wp, hw, hwp, -, rfl⟩ := change_eq hch
    refine ⟨?_, h.clean.change hf ht hw (f wp) x (hreaped w wp hw hwp) (hreaping wp)⟩
    rw [hsame]
    exact h.run.setStruct hwp (f wp)
  cases a with
  | pool a exited =>
    have hsnoc : poolActions (tr ++ [.pool a exited]) = poolActions tr ++ [a] := by
      simp [poolActions]
    rw [hsnoc] at hone
    unfold Watched.exec at h'
    dsimp only at h'
    split at h'
    · cases h'
    · rename_i hfree
      obtain ⟨pool, hpool, rfl⟩ := Option.map_eq_some_iff.mp h'
      have hhalf : ∀ t, a.thread? = some t → s.half t = none := by
        intro t ht
        rw [ht] at hfree
        exact Option.not_isSome_iff_eq_none.mp hfree
      refine ⟨?_, h.clean.exec hf hhalf hpool⟩
      rw [hsnoc]
      exact runInv_step h.run hone hpool
  | endOfFile t =>
    unfold Watched.exec at h'
    dsimp only at h'
    split at h'
    · rename_i hpc
      exact hchange t _ _ _ hpc.1 (by simp [poolActions]) h' (fun _ _ _ _ _ => .inl rfl)
        fun _ _ => rfl
    · cases h'
  | reap t =>
    unfold Watched.exec at h'
    dsimp only at h'
    split at h'
    · rename_i hpc
      exact hchange t _ _ _ hpc.1 (by simp [poolActions]) h'
        (fun w wp hw hwp _ => .inl (h.clean.reaping t w wp hpc.1 hpc.2 hw hwp))
        fun _ hn => by cases hn
    · cases h'
  | waitNoHang t =>
    unfold Watched.exec at h'
    dsimp only at h'
    split at h'
    · rename_i hpc
      exact hchange t _ _ _ hpc.1 (by simp [poolActions]) h' (fun _ _ _ _ _ => .inr rfl)
        fun _ hn => by cases hn
    · cases h'
  | markDead t =>
    unfold Watched.exec at h'
    dsimp only at h'
    split at h'
    · rename_i hpc
      exact hchange t _ _ _ hpc.1 (by simp [poolActions]) h' (fun _ _ _ _ _ => .inl rfl)
        fun _ _ => rfl
    · cases h'

theorem countP_poolActions (tr : List WatchedAction) :
    (poolActions tr).countP Action.isStop = tr.countP WatchedAction.isStop := by
  unfold poolActions
  rw [List.countP_filterMap]
  congr 1
  funext a
  cases a <;> rfl

theorem watchedInv_run {tr : List WatchedAction} {s : Watched}
    (hrun : (watchedMachine cfg).run tr = some s) (hone : tr.countP WatchedAction.isStop ≤ 1) :
    WatchedInv cfg tr s := by
  refine (watchedMachine cfg).run_induction
    (I := fun tr s => tr.countP WatchedAction.isStop ≤ 1 → WatchedInv cfg tr s) ?_ ?_ tr s hrun hone
  · intro hone
    have hrun : (machine cfg).run [] = some start := rfl
    refine ⟨runInv_run hrun (Nat.zero_le 1), fun w wp hwp => ?_, fun t w wp _ hh => ?_,
      fun i w wp _ _ _ hwp => ?_⟩
    · cases hwp
    · cases hh
    · cases hwp
  · intro tr s a s' _ ih h' hone'
    have hprev : tr.countP WatchedAction.isStop ≤ 1 := by
      rw [List.countP_append] at hone'
      omega
    exact (ih hprev).exec (by rw [countP_poolActions]; exact hone') h'

/-! ## 8. Whole runs -/

/-- The signals of one step, after a run. -/
theorem WatchedInv.noneReaped_iff {s s' : Watched} {tr : List WatchedAction}
    (h : WatchedInv cfg tr s) {a : WatchedAction} (h' : s.exec cfg a = some s')
    (hnone : NoneReaped s) : NoneReaped s' ↔ StopsInTime cfg s a := by
  have hchanged : ∀ t x ok f, s.change t x ok f = some s' → NoneReaped s' := by
    intro t x ok f hch
    obtain ⟨w, wp, -, -, -, rfl⟩ := change_eq hch
    exact hnone
  unfold Watched.exec at h'
  cases a with
  | pool a exited =>
    dsimp only at h'
    split at h'
    · cases h'
    · rename_i hfree
      obtain ⟨pool, hpool, rfl⟩ := Option.map_eq_some_iff.mp h'
      have hhalf : ∀ t, a.thread? = some t → s.half t = none := by
        intro t ht
        rw [ht] at hfree
        exact Option.not_isSome_iff_eq_none.mp hfree
      have hsplit : NoneReaped
          { s with
            pool := pool
            signalled := s.signalled ++ signals cfg.maxNrProcesses s.pool exited a } ↔
          ∀ c ∈ signals cfg.maxNrProcesses s.pool exited a, c ≠ .reaped :=
        ⟨fun hall c hc => hall c (List.mem_append_right _ hc), fun hall c hc =>
          (List.mem_append.mp hc).elim (hnone c) (hall c)⟩
      rw [hsplit]
      by_cases hstop : ∃ t, a = .stop t
      · obtain ⟨t, rfl⟩ := hstop
        simp only [Pool.exec, Action.thread?, threadStep] at hpool
        split at hpool
        · split at hpool
          · rename_i hpc
            exact signals_stop_iff h.clean h.run.facts hpc exited
          · cases hpool
        · cases hpool
      · have hne : a.isStop = false := by
          cases a with
          | stop t => exact absurd ⟨t, rfl⟩ hstop
          | _ => rfl
        have htrivial : StopsInTime cfg s (.pool a exited) := by
          cases a with
          | stop t => exact absurd ⟨t, rfl⟩ hstop
          | _ => trivial
        exact ⟨fun _ => htrivial, fun _ =>
          signals_unreaped h.clean h.run hhalf hpool hne exited⟩
  | endOfFile t | reap t | waitNoHang t | markDead t =>
    dsimp only at h'
    split at h'
    · exact ⟨fun _ => trivial, fun _ => hchanged _ _ _ _ h'⟩
    · cases h'

/-- A thread gets a worker, which dies, and finds that out in `worker_process_recv`. -/
def diesInUse : List WatchedAction :=
  [.pool (.call 0) fun _ => false, .pool (.getValue 0) fun _ => false,
    .pool (.startWorker 0 (some 0)) fun _ => false, .pool (.semWait 0) fun _ => false,
    .pool (.assign 0 none) fun _ => false, .pool (.check 0) fun _ => false,
    .pool (.die 0) fun _ => false, .endOfFile 0, .reap 0]

end HdfStream.Pool
