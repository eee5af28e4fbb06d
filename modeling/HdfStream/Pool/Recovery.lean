/-
# A get recovers from workers that died while idle

A worker may die while nobody has it.  The pool does not notice: its slot stays idle, and the
semaphore still counts it.  `process_pool_get_worker_by_score` finds out when it has picked the
worker, discards it, and tries again, at most `max_nr_processes + 1` times.

Here one thread makes a get while every other thread is outside or has a worker, so that the steps
of that thread are all that happens (`getRun`).  `get_recovers` says that the get returns with a
worker that is alive, whatever workers have died and whatever the scores are.  If one of the idle
workers was alive then it is one of these, and the slots of the dead ones that the get has met are
stopped.  Otherwise the get starts a process, which goes to the first slot that is not busy: this
may be the slot of a dead worker (`get_recovers_takes_slot`).
-/
import HdfStream.Pool.Shutdown

namespace HdfStream.Pool

/-! ## 1. A get -/

/-- What a get finds outside the pool. -/
structure Env where
  /-- The address of a new struct. -/
  alloc : (Ptr → Option WorkerProcess) → Ptr
  /-- The callback with its data, if there is one: the scores in each try. -/
  cb : Option (Nat → Option Ptr → Nat)

/-- There is memory for a new struct, at an address that is not in use. -/
def Env.Allocates (env : Env) : Prop :=
  ∀ heap : Ptr → Option WorkerProcess, (∃ a, heap a = none) → heap (env.alloc heap) = none

/-- The next step of a thread in `process_pool_get_worker_by_score`, when every process that it
starts is started. -/
def getAction (env : Env) (t : Nat) (s : State) : Option Action :=
  match s.thread t with
  | .getValue _ => some (.getValue t)
  | .startWorker _ => some (.startWorker t (some (env.alloc s.heap)))
  | .wait _ => some (.semWait t)
  | .lock i => some (.assign t (env.cb.map fun cb => cb i))
  | .repost => some (.post t)
  | .check _ _ => some (.check t)
  | .discard _ _ => some (.discard t)
  | _ => none

/-- The worker a thread has just found dead. -/
def ThreadPc.met : ThreadPc → List Ptr
  | .discard _ w => [w]
  | _ => []

/-- The steps of a thread up to the end of its get: the workers it found dead, and the state then.
There is none if the thread has to wait for another one. -/
def getRun (cfg : Config) (env : Env) (t : Nat) : Nat → State → Option (List Ptr × State)
  | 0, _ => none
  | fuel + 1, s =>
    match getAction env t s with
    | none => some ([], s)
    | some a =>
      match exec cfg s a with
      | none => none
      | some s' => (getRun cfg env t fuel s').map fun r => ((s.thread t).met ++ r.1, r.2)

/-- The worker is in its struct, and its process runs. -/
def State.Live (s : State) (w : Ptr) : Prop :=
  s.heap w = some { isDead := false, child := .running }

/-- Worker `w` waits in slot `j`. -/
def IdleAt (cfg : Config) (s : State) (j : Nat) (w : Ptr) : Prop :=
  j < cfg.maxNrProcesses ∧ s.pool.workerState j = .idle ∧ s.pool.worker j = some w

/-- Some idle worker is alive. -/
def SomeLive (cfg : Config) (s : State) : Prop := ∃ j w, IdleAt cfg s j w ∧ s.Live w

/-- Workers in use. -/
def nrHeld (thread : Nat → ThreadPc) (m : Nat) : Nat :=
  Nat.count (fun t => (thread t).worker.isSome = true) m

/-- What a get that started in `s` at try `i` has done when it returns `w`. -/
structure Recovered (cfg : Config) (env : Env) (s : State) (i : Nat) (met : List Ptr) (w : Ptr)
    (s' : State) : Prop where
  /-- It returns a worker that is alive. -/
  live : s'.Live w
  busy : ∃ j, j < cfg.maxNrProcesses ∧ s'.pool.worker j = some w ∧ s'.pool.workerState j = .busy
  /-- It was one of the idle workers, if one of these was alive. -/
  chosen : SomeLive cfg s → ∃ j, IdleAt cfg s j w ∧ s.Live w
  /-- No other one had a higher score. -/
  best : ∀ cb, env.cb = some cb → ∀ j v, IdleAt cfg s j v → s.Live v →
    cb (i + met.length) (some v) ≤ cb (i + met.length) (some w)
  /-- The workers that were met are freed, and their slots stopped. -/
  dead : ∀ d ∈ met, ∃ j, IdleAt cfg s j d ∧ ¬ s.Live d ∧
    (s'.heap d = none ∨ (d = w ∧ ¬ SomeLive cfg s)) ∧
    (s'.pool.workerState j = .stopped ∨ (s'.pool.worker j = some w ∧ ¬ SomeLive cfg s))
  /-- A worker that was started is in the first slot that was not busy. -/
  first : ¬ SomeLive cfg s → ∀ j, j < cfg.maxNrProcesses → s'.pool.worker j = some w →
    ∀ k, k < j → s.pool.workerState k = .busy
  /-- What was free or stopped stays so. -/
  freed : ∀ a, s.heap a = none → s'.heap a = none ∨ (a = w ∧ ¬ SomeLive cfg s)
  stopped : ∀ j, j < cfg.maxNrProcesses → s.pool.workerState j = .stopped →
    s'.pool.workerState j = .stopped ∨ (s'.pool.worker j = some w ∧ ¬ SomeLive cfg s)

variable {cfg : Config} {env : Env} {s s' : State} {t : Nat}

/-! ## 2. The workers before a shutdown -/

/-- Nobody has killed a worker: it runs, or it is dead, or it was found dead. -/
def Unkilled (s : State) : Prop := ∀ w wp, s.heap w = some wp →
  wp = { isDead := false, child := .running } ∨ wp = { isDead := false, child := .zombie } ∨
    wp = { isDead := true, child := .reaped }

theorem Unkilled.mono (h : Unkilled s)
    (hheap : ∀ w wp, s'.heap w = some wp → s.heap w = some wp) : Unkilled s' :=
  fun w wp hwp => h w wp (hheap w wp hwp)

/-- One struct changes. -/
theorem Unkilled.update (h : Unkilled s) {w : Ptr} {x : Option WorkerProcess}
    (hheap : s'.heap = Function.update s.heap w x)
    (hx : ∀ wp, x = some wp → wp = { isDead := false, child := .running } ∨
      wp = { isDead := false, child := .zombie } ∨ wp = { isDead := true, child := .reaped }) :
    Unkilled s' := by
  intro v wp hwp
  rw [hheap] at hwp
  by_cases e : v = w
  · rw [e, Function.update_self] at hwp
    exact hx wp hwp
  · rw [Function.update_of_ne e] at hwp
    exact h v wp hwp

/-- `worker_process_is_alive` is called. -/
theorem Unkilled.isAlive (h : Unkilled s) {w : Ptr} {wp : WorkerProcess} (hwp : s.heap w = some wp)
    (hheap : s'.heap = Function.update s.heap w (some (workerProcessIsAlive wp).2)) :
    Unkilled s' := by
  refine h.update hheap fun wp' e => ?_
  cases e
  rcases h w wp hwp with rfl | rfl | rfl
  · exact .inl rfl
  · exact .inr (.inr rfl)
  · exact .inr (.inr rfl)

theorem Unkilled.discardSlot (h : Unkilled s) (w : Ptr) (j : Nat) :
    Unkilled (discardSlot w s j) := by
  unfold Pool.discardSlot
  split
  · exact h.update rfl fun _ e => by cases e
  · exact h

theorem Unkilled.foldl_discardSlot (w : Ptr) (l : List Nat) :
    ∀ s, Unkilled s → Unkilled (l.foldl (Pool.discardSlot w) s) := by
  induction l with
  | nil => exact fun _ h => h
  | cons j l ih => exact fun s h => ih _ (h.discardSlot w j)

theorem Unkilled.startWorker (h : Unkilled s) {n : Nat} {new : Option Ptr}
    (h' : processPoolStartWorker n s new = some s') : Unkilled s' := by
  simp only [processPoolStartWorker] at h'
  repeat' split at h'
  all_goals cases h'
  · exact h.update rfl fun wp e => .inl (by cases e; rfl)
  all_goals exact h

theorem Unkilled.release (h : Unkilled s) (n : Nat) (w : Ptr) :
    Unkilled (processPoolReleaseWorker n s w).1 := by
  unfold processPoolReleaseWorker
  split
  · exact h
  · split
    · exact h
    · rename_i wp hwp
      simp only
      split
      · exact h.isAlive hwp rfl
      · have hdead : Unkilled
            { s with heap := Function.update s.heap w (some (workerProcessIsAlive wp).2) } :=
          h.isAlive hwp rfl
        exact hdead.discardSlot w _

/-- Every step but that of `process_pool_free`. -/
theorem Unkilled.exec (h : Unkilled s) {a : Action} (hne : ∀ t, a ≠ .stop t)
    (h' : exec cfg s a = some s') : Unkilled s' := by
  cases a with
  | startWorker t new =>
    simp only [Pool.exec, Action.thread?, Pool.threadStep] at h'
    repeat' split at h'
    · obtain ⟨s₁, hs₁, rfl⟩ := Option.map_eq_some_iff.mp h'
      exact (h.startWorker hs₁).mono fun _ _ hwp => hwp
    · exact h.startWorker h'
    all_goals cases h'
  | check t =>
    simp only [Pool.exec, Action.thread?, Pool.threadStep] at h'
    split at h'
    · split at h'
      · split at h'
        · cases h'
          exact h
        · rename_i hwp
          cases h'
          exact h.isAlive hwp rfl
      · cases h'
    · cases h'
  | discard t =>
    simp only [Pool.exec, Action.thread?, Pool.threadStep] at h'
    repeat' split at h'
    all_goals cases h'
    exact (Unkilled.foldl_discardSlot _ _ s h).mono fun _ _ hwp => hwp
  | release t =>
    simp only [Pool.exec, Action.thread?, Pool.threadStep] at h'
    repeat' split at h'
    all_goals cases h'
    all_goals exact (h.release _ _).mono fun _ _ hwp => hwp
  | notice t =>
    simp only [Pool.exec, Action.thread?, Pool.threadStep] at h'
    repeat' split at h'
    all_goals cases h'
    · exact h
    · rename_i hwp
      exact h.isAlive hwp rfl
  | stop t => exact absurd rfl (hne t)
  | freeNext t =>
    simp only [Pool.exec, Action.thread?, Pool.threadStep] at h'
    repeat' split at h'
    all_goals cases h'
    · unfold freeSlot
      split
      · exact h.update rfl fun _ e => by cases e
      · exact h
    · exact h
  | die w =>
    simp only [Pool.exec, Action.thread?] at h'
    split at h'
    · rename_i wp hwp
      split at h'
      · rename_i hrunning
        cases h'
        refine h.update rfl fun wp' e => ?_
        cases e
        rcases h w wp hwp with rfl | rfl | rfl
        · exact .inr (.inl rfl)
        · exact .inr (.inl rfl)
        · rcases hrunning with e | e <;> cases e
      · cases h'
    · cases h'
  | _ =>
    simp only [Pool.exec, Action.thread?, Pool.threadStep] at h'
    repeat' split at h'
    all_goals cases h'
    all_goals exact h

/-! ## 3. A thread that has the pool for itself -/

/-- A state of a pool that is not stopped, where every thread but `t` is outside or has a
worker. -/
structure Alone (cfg : Config) (t : Nat) (s : State) : Prop where
  inv : Inv cfg s
  up : s.pool.stop = false
  owned : Owned cfg s
  unkilled : Unkilled s
  valid : t < cfg.nrThreads
  others : ∀ t', t' < cfg.nrThreads → t' ≠ t →
    s.thread t' = .outside ∨ ∃ w, s.thread t' = .holding w

/-- The steps of the thread itself. -/
theorem Alone.step (h : Alone cfg t s) {a : Action} (hne : ∀ t, a ≠ .stop t)
    (h' : exec cfg s a = some s') (hthread : ∀ t', t' ≠ t → s'.thread t' = s.thread t') :
    Alone cfg t s' where
  inv := h.inv.step h.up hne h'
  up := by
    rcases exec_stop h' with e | ⟨t', rfl⟩
    · rw [e, h.up]
    · exact absurd rfl (hne t')
  owned := owned_exec h.owned (fun _ i hi => (h.inv.slots.stopped i hi).mp) h'
  unkilled := h.unkilled.exec hne h'
  valid := h.valid
  others t' ht' hne' := by
    rw [hthread t' hne']
    exact h.others t' ht' hne'

/-- **Reachable states.** -/
theorem alone_reachable (hs : (machine cfg).Reachable s) (hup : s.pool.stop = false)
    (ht : t < cfg.nrThreads) (hothers : ∀ t', t' < cfg.nrThreads → t' ≠ t →
      s.thread t' = .outside ∨ ∃ w, s.thread t' = .holding w) : Alone cfg t s := by
  have key : ∀ s, (machine cfg).Reachable s → s.pool.stop = false → Owned cfg s ∧ Unkilled s := by
    refine (machine cfg).reachable_induction
      (I := fun s => s.pool.stop = false → Owned cfg s ∧ Unkilled s) (fun _ => ⟨?_, ?_⟩) ?_
    · intro a ha
      cases ha
    · intro w wp hwp
      cases hwp
    · intro s a s' hs ih h' hup'
      obtain ⟨hup, hne⟩ := not_stopped_before h' hup'
      obtain ⟨howned, hunkilled⟩ := ih hup
      have hinv := inv_reachable hs hup
      exact ⟨owned_exec howned (fun _ i hi => (hinv.slots.stopped i hi).mp) h',
        hunkilled.exec hne h'⟩
  obtain ⟨howned, hunkilled⟩ := key s hs hup
  exact ⟨inv_reachable hs hup, hup, howned, hunkilled, ht, hothers⟩

/-- The semaphore counts the idle workers. -/
theorem Alone.permits (h : Alone cfg t s) (hposting : (s.thread t).posting = false)
    (htransit : (s.thread t).inTransit = false) :
    s.pool.sem = nrIdle s.pool.workerState cfg.maxNrProcesses := by
  have hnone : ∀ t', t' < cfg.nrThreads →
      (s.thread t').posting = false ∧ (s.thread t').inTransit = false := by
    intro t' ht'
    by_cases e : t' = t
    · rw [e]
      exact ⟨hposting, htransit⟩
    · rcases h.others t' ht' e with e' | ⟨w, e'⟩ <;> rw [e'] <;> exact ⟨rfl, rfl⟩
  have hp : nrPosting s.thread cfg.nrThreads = 0 :=
    Nat.count_iff_forall_not.mpr fun t' ht' e => by
      rw [(hnone t' ht').1] at e
      cases e
  have htr : nrInTransit s.thread cfg.nrThreads = 0 :=
    Nat.count_iff_forall_not.mpr fun t' ht' e => by
      rw [(hnone t' ht').2] at e
      cases e
  have hperm := h.inv.permits
  rw [hp, htr] at hperm
  exact hperm

/-- There is room for another struct. -/
theorem Owned.exists_free (h : Owned cfg s) : ∃ a, s.heap a = none := by
  by_contra hfull
  have hslot : ∀ a, ∃ i, i < cfg.maxNrProcesses ∧ s.pool.worker i = some a := by
    intro a
    refine h a ?_
    rw [← Option.ne_none_iff_isSome]
    exact fun e => hfull ⟨a, e⟩
  choose slot hlt hworker using hslot
  obtain ⟨a, -, b, -, hne, heq⟩ := Finset.exists_ne_map_eq_of_card_lt_of_maps_to
    (s := Finset.range (cfg.maxNrProcesses + 1)) (t := Finset.range cfg.maxNrProcesses)
    (by rw [Finset.card_range, Finset.card_range]; exact Nat.lt_succ_self _)
    (fun a _ => Finset.mem_coe.mpr (Finset.mem_range.mpr (hlt a)))
  have hsame := hworker b
  rw [← heq, hworker a, Option.some.injEq] at hsame
  exact hne hsame

/-- **Not every slot is busy** when fewer workers are held than there are slots. -/
theorem Alone.exists_notBusy (h : Alone cfg t s)
    (hheld : nrHeld s.thread cfg.nrThreads < cfg.maxNrProcesses) :
    ∃ j, j < cfg.maxNrProcesses ∧ s.pool.workerState j ≠ .busy := by
  by_contra hbusy
  -- the thread that has the worker of a slot
  have hholder : ∀ j, ∃ t', j < cfg.maxNrProcesses → t' < cfg.nrThreads ∧
      ∃ w, s.pool.worker j = some w ∧ (s.thread t').worker = some w := by
    intro j
    by_cases hj : j < cfg.maxNrProcesses
    · have hb : s.pool.workerState j = .busy := by
        by_contra e
        exact hbusy ⟨j, hj, e⟩
      obtain ⟨t', w, ht', hw, htw⟩ := h.inv.holders.busy j hj hb
      exact ⟨t', fun _ => ⟨ht', w, hw, htw⟩⟩
    · exact ⟨0, fun hj' => absurd hj' hj⟩
  choose holder hspec using hholder
  rw [nrHeld, Nat.count_eq_card_filter_range] at hheld
  have hle := Finset.card_le_card_of_injOn (s := Finset.range cfg.maxNrProcesses)
    (t := (Finset.range cfg.nrThreads).filter fun t => (s.thread t).worker.isSome = true) holder
    (fun j hj => ?_) (fun j hj k hk e => ?_)
  · rw [Finset.card_range] at hle
    omega
  · obtain ⟨ht', w, -, htw⟩ := hspec j (Finset.mem_range.mp hj)
    refine Finset.mem_coe.mpr (Finset.mem_filter.mpr ⟨Finset.mem_range.mpr ht', ?_⟩)
    rw [htw]
    rfl
  · have hj := Finset.mem_range.mp (Finset.mem_coe.mp hj)
    have hk := Finset.mem_range.mp (Finset.mem_coe.mp hk)
    obtain ⟨-, w, hw, htw⟩ := hspec j hj
    obtain ⟨-, w', hw', htw'⟩ := hspec k hk
    rw [← e, htw, Option.some.injEq] at htw'
    subst htw'
    exact h.inv.slots.inj j k w hj hk hw hw'

/-! ## 4. The search -/

/-- What a pass over some slots leaves as the best has the score that is kept with it, and none of
them has a higher one. -/
theorem foldl_scoreStep_max (p : ProcessPool) (cb : Option Ptr → Nat) (l : List Nat) :
    ∀ best : Option Nat × Int, (∀ j, best.1 = some j → best.2 = cb (p.worker j)) →
      (∀ j, (l.foldl (scoreStep p cb) best).1 = some j →
        (l.foldl (scoreStep p cb) best).2 = cb (p.worker j)) ∧
      best.2 ≤ (l.foldl (scoreStep p cb) best).2 ∧
      ∀ j ∈ l, p.workerState j = .idle →
        (cb (p.worker j) : Int) ≤ (l.foldl (scoreStep p cb) best).2 := by
  induction l with
  | nil => exact fun best hbest => ⟨hbest, le_refl _, fun j hj => absurd hj List.not_mem_nil⟩
  | cons k l ih =>
    intro best hbest
    rw [List.foldl_cons]
    -- what one pass keeps
    have hstep : (∀ j, (scoreStep p cb best k).1 = some j →
        (scoreStep p cb best k).2 = cb (p.worker j)) ∧ best.2 ≤ (scoreStep p cb best k).2 ∧
        (p.workerState k = .idle → (cb (p.worker k) : Int) ≤ (scoreStep p cb best k).2) := by
      unfold scoreStep
      split
      · split
        · rename_i hgt
          refine ⟨fun j hj => ?_, le_of_lt hgt, fun _ => le_refl _⟩
          cases hj
          rfl
        · rename_i hgt
          exact ⟨hbest, le_refl _, fun _ => not_lt.mp hgt⟩
      · rename_i hidle
        exact ⟨hbest, le_refl _, fun e => absurd e hidle⟩
    obtain ⟨hscore, hle, hk⟩ := hstep
    obtain ⟨h1, h2, h3⟩ := ih _ hscore
    refine ⟨h1, le_trans hle h2, fun j hj hidle => ?_⟩
    rcases List.mem_cons.mp hj with rfl | hj
    · exact le_trans (hk hidle) h2
    · exact h3 j hj hidle

/-- **No idle worker has a higher score than the one that is found.** -/
theorem highScoreIndex_max {n : Nat} {p : ProcessPool} {cb : Option Ptr → Nat} {j : Nat}
    (h : highScoreIndex n p (some cb) = some j) {k : Nat} (hk : k < n)
    (hidle : p.workerState k = .idle) : cb (p.worker k) ≤ cb (p.worker j) := by
  obtain ⟨hscore, -, hmax⟩ := foldl_scoreStep_max p cb (searchOrder n p.next) (none, -1)
    (fun j hj => by cases hj)
  have hle := hmax k (mem_searchOrder.mpr hk) hidle
  rw [hscore j h] at hle
  exact Int.ofNat_le.mp hle

/-! ## 5. The steps of a try -/

theorem getRun_step {a : Action} {s₁ : State} (hact : getAction env t s = some a)
    (hexec : exec cfg s a = some s₁) (fuel : Nat) : getRun cfg env t (fuel + 1) s =
      (getRun cfg env t fuel s₁).map fun r => ((s.thread t).met ++ r.1, r.2) := by
  rw [getRun, hact]
  dsimp only
  rw [hexec]

/-- A step that finds no dead worker. -/
theorem getRun_silent {a : Action} {s₁ : State} (hact : getAction env t s = some a)
    (hexec : exec cfg s a = some s₁) (hmet : (s.thread t).met = []) (fuel : Nat) :
    getRun cfg env t (fuel + 1) s = getRun cfg env t fuel s₁ := by
  rw [getRun_step hact hexec, hmet]
  exact congrFun Option.map_id _

/-- The get has returned. -/
theorem getRun_holding {w : Ptr} (hpc : s.thread t = .holding w) (fuel : Nat) :
    getRun cfg env t (fuel + 1) s = some ([], s) := by
  rw [getRun, getAction, hpc]

/-- `sem_getvalue`. -/
theorem exec_getValue (ht : t < cfg.nrThreads) {i : Nat} (hpc : s.thread t = .getValue i) :
    exec cfg s (.getValue t) =
      some (s.setThread t (if s.pool.sem ≤ 0 then .startWorker i else .wait i)) := by
  simp only [exec, Action.thread?, if_pos ht, threadStep, hpc]

/-- There is a permit. -/
theorem Alone.getValue (h : Alone cfg t s) (env : Env) {i : Nat} (hpc : s.thread t = .getValue i)
    (hsem : 0 < s.pool.sem) : Alone cfg t (s.setThread t (.wait i)) ∧
      ∀ fuel, getRun cfg env t (fuel + 1) s =
        getRun cfg env t fuel (s.setThread t (.wait i)) := by
  have hexec := exec_getValue h.valid hpc
  rw [if_neg (by omega)] at hexec
  refine ⟨h.step (fun _ e => by cases e) hexec fun t' e => Function.update_of_ne e _ _, ?_⟩
  exact getRun_silent (by rw [getAction, hpc]) hexec (by rw [hpc]; rfl)

/-- A slot is stopped, and no worker is idle. -/
theorem Alone.running_lt (h : Alone cfg t s) {j : Nat} (hj : j < cfg.maxNrProcesses)
    (hstopped : s.pool.workerState j = .stopped) :
    s.pool.nrProcessesRunning < cfg.maxNrProcesses := by
  have hgain : nrNotStopped (Function.update s.pool.workerState j .idle) cfg.maxNrProcesses =
      nrNotStopped s.pool.workerState cfg.maxNrProcesses + 1 :=
    nrNotStopped_gain hj hstopped fun e => by cases e
  have hle : nrNotStopped (Function.update s.pool.workerState j .idle) cfg.maxNrProcesses ≤
      cfg.maxNrProcesses := Nat.count_le _
  rw [h.inv.running]
  omega

/-- **A process is started**, in the first stopped slot. -/
theorem Alone.startWorker (h : Alone cfg t s)
    (halloc : env.Allocates) {i : Nat} (hpc : s.thread t = .getValue i)
    (hsem : s.pool.sem = 0) (hstopped : ∃ j, j < cfg.maxNrProcesses ∧
      s.pool.workerState j = .stopped) :
    ∃ j a s₁, j < cfg.maxNrProcesses ∧ s.pool.workerState j = .stopped ∧
      (∀ k, k < j → s.pool.workerState k ≠ .stopped) ∧ s.heap a = none ∧
      Alone cfg t s₁ ∧ s₁.thread t = .wait i ∧ s₁.pool.sem = 1 ∧
      s₁.pool.worker = Function.update s.pool.worker j (some a) ∧
      s₁.pool.workerState = Function.update s.pool.workerState j .idle ∧
      s₁.heap = Function.update s.heap a (some { isDead := false, child := .running }) ∧
      ∀ fuel, getRun cfg env t (fuel + 2) s = getRun cfg env t fuel s₁ := by
  obtain ⟨k, hk, hkstopped⟩ := hstopped
  have hlt := h.running_lt hk hkstopped
  have hexec := exec_getValue h.valid hpc
  rw [if_pos (by omega)] at hexec
  have hasked : Alone cfg t (s.setThread t (.startWorker i)) :=
    h.step (fun _ e => by cases e) hexec fun t' e => Function.update_of_ne e _ _
  have hfree : s.heap (env.alloc s.heap) = none := halloc _ h.owned.exists_free
  cases hfind : (List.range cfg.maxNrProcesses).find? (fun i => s.pool.workerState i == .stopped)
    with
  | none =>
    have hno := List.find?_eq_none.mp hfind k (List.mem_range.mpr hk)
    rw [hkstopped] at hno
    exact absurd rfl hno
  | some j =>
    obtain ⟨hjstopped, hj, hfirst⟩ := List.find?_range_eq_some.mp hfind
    have hj := List.mem_range.mp hj
    have hjstopped : s.pool.workerState j = .stopped := beq_iff_eq.mp hjstopped
    have hstart : exec cfg (s.setThread t (.startWorker i))
        (.startWorker t (some (env.alloc s.heap))) =
        some (State.setThread
          { s with
            pool := { s.pool with
              worker := Function.update s.pool.worker j (some (env.alloc s.heap))
              workerState := Function.update s.pool.workerState j .idle
              nrProcessesRunning := s.pool.nrProcessesRunning + 1
              sem := s.pool.sem + 1 }
            heap := Function.update s.heap (env.alloc s.heap)
              (some { isDead := false, child := .running })
            thread := Function.update s.thread t (.startWorker i) } t (.wait i)) := by
      have hne : s.pool.nrProcessesRunning + 1 ≠ 0 := by
        rw [h.inv.running]
        omega
      simp only [exec, Action.thread?, if_pos h.valid, threadStep, State.setThread_thread,
        Function.update_self, processPoolStartWorker, State.setThread_pool, State.setThread_heap,
        hlt, h.up, and_self, if_true, hfind, hfree, Option.isSome_none, Bool.false_eq_true,
        if_false, Option.map_some, afterStart, if_neg hne]
      rfl
    refine ⟨j, env.alloc s.heap, _, hj, hjstopped, fun l hl e => ?_, hfree,
      hasked.step (fun _ e => by cases e) hstart fun t' e => ?_, Function.update_self .., ?_,
      rfl, rfl, rfl, fun fuel => ?_⟩
    · have hno := hfirst l hl
      rw [e] at hno
      exact absurd hno (by decide)
    · exact Function.update_of_ne e _ _
    · exact congrArg (· + 1) hsem
    · rw [getRun_silent (by rw [getAction, hpc]) hexec (by rw [hpc]; rfl)]
      refine getRun_silent ?_ hstart ?_ fuel
      · rw [getAction, State.setThread_thread, Function.update_self]
        rfl
      · rw [State.setThread_thread, Function.update_self]
        rfl

/-- The thread takes a permit. -/
theorem Alone.semWait (h : Alone cfg t s) (env : Env) {i : Nat} (hpc : s.thread t = .wait i)
    (hsem : 0 < s.pool.sem) :
    ∃ s₁, Alone cfg t s₁ ∧ s₁.thread t = .lock i ∧ s₁.heap = s.heap ∧
      s₁.pool.worker = s.pool.worker ∧ s₁.pool.workerState = s.pool.workerState ∧
      ∀ fuel, getRun cfg env t (fuel + 1) s = getRun cfg env t fuel s₁ := by
  have hexec : exec cfg s (.semWait t) =
      some ({ s with pool := { s.pool with sem := s.pool.sem - 1 } }.setThread t (.lock i)) := by
    simp only [exec, Action.thread?, if_pos h.valid, threadStep, hpc, if_pos hsem]
  exact ⟨_, h.step (fun _ e => by cases e) hexec fun t' e => Function.update_of_ne e _ _,
    Function.update_self .., rfl, rfl, rfl,
    getRun_silent (by rw [getAction, hpc]) hexec (by rw [hpc]; rfl)⟩

/-- **A worker is picked**: an idle one, and no other one has a higher score. -/
theorem Alone.assign (h : Alone cfg t s) (env : Env) {i : Nat} (hpc : s.thread t = .lock i) :
    ∃ j w s₁, IdleAt cfg s j w ∧
      (∀ cb, env.cb = some cb → ∀ k v, IdleAt cfg s k v → cb i (some v) ≤ cb i (some w)) ∧
      Alone cfg t s₁ ∧ s₁.thread t = .check i w ∧ s₁.heap = s.heap ∧
      s₁.pool.worker = s.pool.worker ∧
      s₁.pool.workerState = Function.update s.pool.workerState j .busy ∧
      ∀ fuel, getRun cfg env t (fuel + 1) s = getRun cfg env t fuel s₁ := by
  -- a thread with a permit finds an idle slot
  obtain ⟨j, hsearch, hj, hidle⟩ := highScoreIndex_spec s.pool (env.cb.map fun cb => cb i)
    (h.inv.idle_of_lock h.valid hpc)
  have hworker : ∃ w, s.pool.worker j = some w := by
    cases hw : s.pool.worker j with
    | none =>
      rw [(h.inv.slots.stopped j hj).mpr hw] at hidle
      cases hidle
    | some w => exact ⟨w, rfl⟩
  obtain ⟨w, hw⟩ := hworker
  have hexec : exec cfg s (.assign t (env.cb.map fun cb => cb i)) =
      some (State.setThread
        { s with
          pool := { s.pool with
            workerState := Function.update s.pool.workerState j .busy
            next := (s.pool.next + 1) % cfg.maxNrProcesses } } t (.check i w)) := by
    simp only [exec, Action.thread?, if_pos h.valid, threadStep, hpc, h.up,
      h.inv.slots.scoresDead, Bool.and_false, Bool.or_false, hsearch, hw, Bool.false_eq_true,
      if_false]
  refine ⟨j, w, _, ⟨hj, hidle, hw⟩, fun cb hcb k v hk => ?_,
    h.step (fun _ e => by cases e) hexec fun t' e => Function.update_of_ne e _ _,
    Function.update_self .., rfl, rfl, rfl,
    getRun_silent (by rw [getAction, hpc]) hexec (by rw [hpc]; rfl)⟩
  rw [hcb, Option.map_some] at hsearch
  have hmax := highScoreIndex_max hsearch hk.1 hk.2.1
  rw [hk.2.2, hw] at hmax
  exact hmax

/-- The two together. -/
theorem Alone.pick (h : Alone cfg t s) (env : Env) {i : Nat} (hpc : s.thread t = .wait i)
    (hsem : 0 < s.pool.sem) :
    ∃ j w s₁, IdleAt cfg s j w ∧
      (∀ cb, env.cb = some cb → ∀ k v, IdleAt cfg s k v → cb i (some v) ≤ cb i (some w)) ∧
      Alone cfg t s₁ ∧ s₁.thread t = .check i w ∧ s₁.heap = s.heap ∧
      s₁.pool.worker = s.pool.worker ∧
      s₁.pool.workerState = Function.update s.pool.workerState j .busy ∧
      ∀ fuel, getRun cfg env t (fuel + 2) s = getRun cfg env t fuel s₁ := by
  obtain ⟨s₁, h₁, hpc₁, hheap₁, hworker₁, hstate₁, hrun₁⟩ := h.semWait env hpc hsem
  obtain ⟨j, w, s₂, hidle, hbest, h₂, hpc₂, hheap₂, hworker₂, hstate₂, hrun₂⟩ :=
    h₁.assign env hpc₁
  unfold IdleAt at hidle hbest ⊢
  rw [hstate₁, hworker₁] at hidle
  rw [hstate₁, hworker₁] at hbest
  exact ⟨j, w, s₂, hidle, hbest, h₂, hpc₂, hheap₂.trans hheap₁, hworker₂.trans hworker₁,
    by rw [hstate₂, hstate₁], fun fuel => (hrun₁ (fuel + 1)).trans (hrun₂ fuel)⟩

/-- The worker that was picked is alive. -/
theorem Alone.check_live (h : Alone cfg t s) (env : Env) {i : Nat} {w : Ptr}
    (hpc : s.thread t = .check i w)
    (hlive : s.Live w) : ∃ s₁, s₁.thread t = .holding w ∧ s₁.pool = s.pool ∧ s₁.heap = s.heap ∧
      ∀ fuel, getRun cfg env t (fuel + 2) s = some ([], s₁) := by
  have hexec : exec cfg s (.check t) = some (s.setThread t (.holding w)) := by
    unfold State.Live at hlive
    simp only [exec, Action.thread?, if_pos h.valid, threadStep, hpc, hlive, workerProcessIsAlive,
      Bool.false_eq_true, if_false, if_true]
    rw [← hlive, Function.update_eq_self]
  have hdone : (s.setThread t (.holding w)).thread t = .holding w := Function.update_self ..
  refine ⟨_, hdone, rfl, rfl, fun fuel => ?_⟩
  rw [getRun_silent (by rw [getAction, hpc]) hexec (by rw [hpc]; rfl)]
  exact getRun_holding hdone fuel

/-- The worker that was picked is dead. -/
theorem Alone.check_dead (h : Alone cfg t s) (env : Env) {i : Nat} {w : Ptr}
    (hpc : s.thread t = .check i w)
    (hdead : ¬ s.Live w) {j : Nat} (hj : j < cfg.maxNrProcesses)
    (hw : s.pool.worker j = some w) :
    ∃ s₁ wp, Alone cfg t s₁ ∧ s₁.thread t = .discard i w ∧
      s₁.heap = Function.update s.heap w (some wp) ∧ s₁.pool = s.pool ∧
      ∀ fuel, getRun cfg env t (fuel + 1) s = getRun cfg env t fuel s₁ := by
  obtain ⟨wp, hwp⟩ := Option.isSome_iff_exists.mp (h.inv.slots.live j w hj hw)
  have hanswer : workerProcessIsAlive wp = (false, { isDead := true, child := .reaped }) := by
    rcases h.unkilled w wp hwp with rfl | rfl | rfl
    · exact absurd hwp hdead
    · rfl
    · rfl
  have hexec : exec cfg s (.check t) =
      some (State.setThread
        { s with
          heap := Function.update s.heap w (some { isDead := true, child := .reaped }) } t
        (.discard i w)) := by
    simp only [exec, Action.thread?, if_pos h.valid, threadStep, hpc, hwp, hanswer,
      Bool.false_eq_true, if_false]
  exact ⟨_, _, h.step (fun _ e => by cases e) hexec fun t' e => Function.update_of_ne e _ _,
    Function.update_self .., rfl, rfl,
    getRun_silent (by rw [getAction, hpc]) hexec (by rw [hpc]; rfl)⟩

/-- **The dead worker is freed, and its slot stopped.** -/
theorem Alone.discard (h : Alone cfg t s) (env : Env) {i : Nat} {w : Ptr}
    (hpc : s.thread t = .discard i w)
    {j : Nat} (hj : j < cfg.maxNrProcesses) (hw : s.pool.worker j = some w)
    (hi : i + 1 < cfg.maxNrProcesses + 1) :
    ∃ s₁, Alone cfg t s₁ ∧ s₁.thread t = .getValue (i + 1) ∧
      s₁.heap = Function.update s.heap w none ∧
      s₁.pool.worker = Function.update s.pool.worker j none ∧
      s₁.pool.workerState = Function.update s.pool.workerState j .stopped ∧
      ∀ fuel, getRun cfg env t (fuel + 1) s =
        (getRun cfg env t fuel s₁).map fun r => (w :: r.1, r.2) := by
  have hloop := foldl_discardSlot hj hw fun k hk hkw => h.inv.slots.inj k j w hk hj hkw hw
  have hexec : exec cfg s (.discard t) =
      some ((discardSlot w s j).setThread t (.getValue (i + 1))) := by
    simp only [exec, Action.thread?, if_pos h.valid, threadStep, hpc, hloop, nextTry, if_pos hi]
  rw [discardSlot, if_pos hw] at hexec
  refine ⟨_, h.step (fun _ e => by cases e) hexec fun t' e => Function.update_of_ne e _ _,
    Function.update_self .., rfl, rfl, rfl, fun fuel => ?_⟩
  rw [getRun_step (by rw [getAction, hpc]) hexec, hpc]
  rfl

/-! ## 6. What a try has done -/

/-- The worker that was picked is returned. -/
theorem Recovered.ofLive {i j : Nat} {w : Ptr} (hw : IdleAt cfg s j w) (hlive : s.Live w)
    (hbest : ∀ cb, env.cb = some cb → ∀ k v, IdleAt cfg s k v → cb i (some v) ≤ cb i (some w))
    (hheap : s'.heap = s.heap) (hworker : s'.pool.worker = s.pool.worker)
    (hstate : s'.pool.workerState = Function.update s.pool.workerState j .busy) :
    Recovered cfg env s i [] w s' where
  live := by
    unfold State.Live
    rw [hheap]
    exact hlive
  busy := ⟨j, hw.1, by rw [hworker, hw.2.2], by rw [hstate, Function.update_self]⟩
  chosen _ := ⟨j, hw, hlive⟩
  best cb hcb k v hk _ := hbest cb hcb k v hk
  dead d hd := absurd hd List.not_mem_nil
  first hno := absurd ⟨j, w, hw, hlive⟩ hno
  freed a ha := .inl (by rw [hheap, ha])
  stopped k _ hstopped := by
    have hne : k ≠ j := by
      rintro rfl
      rw [hw.2.1] at hstopped
      cases hstopped
    exact .inl (by rw [hstate, Function.update_of_ne hne, hstopped])

/-- A process was started. -/
theorem Recovered.ofStarted {i j : Nat} {w : Ptr}
    (hslots : SlotsInv cfg.maxNrProcesses s.pool s.heap)
    (hidle : ∀ k, k < cfg.maxNrProcesses → s.pool.workerState k ≠ .idle)
    (hj : j < cfg.maxNrProcesses) (hfirst : ∀ k, k < j → s.pool.workerState k ≠ .stopped)
    (hfree : s.heap w = none)
    (hheap : s'.heap = Function.update s.heap w (some { isDead := false, child := .running }))
    (hworker : s'.pool.worker = Function.update s.pool.worker j (some w))
    (hstate : s'.pool.workerState = Function.update s.pool.workerState j .busy) :
    Recovered cfg env s i [] w s' where
  live := by
    unfold State.Live
    rw [hheap, Function.update_self]
  busy := ⟨j, hj, by rw [hworker, Function.update_self], by rw [hstate, Function.update_self]⟩
  chosen hsome := by
    obtain ⟨k, v, hk, -⟩ := hsome
    exact absurd hk.2.1 (hidle k hk.1)
  best cb _ k v hk _ := absurd hk.2.1 (hidle k hk.1)
  dead d hd := absurd hd List.not_mem_nil
  first _ k hk hkw l hl := by
    have hkj : k = j := by
      by_contra hne
      rw [hworker, Function.update_of_ne hne] at hkw
      have hlive := hslots.live k w hk hkw
      rw [hfree] at hlive
      cases hlive
    rw [hkj] at hl
    cases hstl : s.pool.workerState l with
    | idle => exact absurd hstl (hidle l (lt_trans hl hj))
    | busy => rfl
    | stopped => exact absurd hstl (hfirst l hl)
  freed a ha := by
    by_cases e : a = w
    · exact .inr ⟨e, fun ⟨k, v, hk, _⟩ => hidle k hk.1 hk.2.1⟩
    · exact .inl (by rw [hheap, Function.update_of_ne e, ha])
  stopped k hk hstopped := by
    by_cases e : k = j
    · exact .inr ⟨by rw [hworker, e, Function.update_self],
        fun ⟨k, v, hk, _⟩ => hidle k hk.1 hk.2.1⟩
    · exact .inl (by rw [hstate, Function.update_of_ne e, hstopped])

section Discarded

variable {s₁ : State} {j : Nat} {d : Ptr} (hslots : SlotsInv cfg.maxNrProcesses s.pool s.heap)
  (hd : IdleAt cfg s j d) (hdead : ¬ s.Live d) (hheap : s₁.heap = Function.update s.heap d none)
  (hworker : s₁.pool.worker = Function.update s.pool.worker j none)
  (hstate : s₁.pool.workerState = Function.update s.pool.workerState j .stopped)

include hslots hd hworker hstate

/-- The idle workers after one was discarded. -/
theorem idleAt_discarded (k : Nat) (v : Ptr) :
    IdleAt cfg s₁ k v ↔ IdleAt cfg s k v ∧ v ≠ d := by
  by_cases hne : k = j
  · subst hne
    constructor
    · intro hk
      have hstopped := hk.2.1
      rw [hstate, Function.update_self] at hstopped
      cases hstopped
    · rintro ⟨hk, hvd⟩
      have hsame := hk.2.2
      rw [hd.2.2, Option.some.injEq] at hsame
      exact absurd hsame.symm hvd
  · unfold IdleAt
    rw [hworker, hstate, Function.update_of_ne hne, Function.update_of_ne hne]
    refine ⟨fun hk => ⟨hk, ?_⟩, fun hk => hk.1⟩
    rintro rfl
    exact hne (hslots.inj k j v hk.1 hd.1 hk.2.2 hd.2.2)

include hdead hheap

/-- Those of them that are alive are the same. -/
theorem idleAt_live_discarded (k : Nat) (v : Ptr) :
    IdleAt cfg s₁ k v ∧ s₁.Live v ↔ IdleAt cfg s k v ∧ s.Live v := by
  have hlive : v ≠ d → (s₁.Live v ↔ s.Live v) := by
    intro hne
    unfold State.Live
    rw [hheap, Function.update_of_ne hne]
  rw [idleAt_discarded hslots hd hworker hstate]
  constructor
  · rintro ⟨⟨hk, hne⟩, hv⟩
    exact ⟨hk, (hlive hne).mp hv⟩
  · rintro ⟨hk, hv⟩
    have hne : v ≠ d := by
      rintro rfl
      exact hdead hv
    exact ⟨⟨hk, hne⟩, (hlive hne).mpr hv⟩

theorem someLive_discarded : SomeLive cfg s₁ ↔ SomeLive cfg s :=
  exists_congr fun k => exists_congr fun v =>
    idleAt_live_discarded hslots hd hdead hheap hworker hstate k v

/-- **A try that found a dead worker**, and what the get did after that. -/
theorem Recovered.discarded {i : Nat} {met : List Ptr} {w : Ptr}
    (h : Recovered cfg env s₁ (i + 1) met w s') : Recovered cfg env s i (d :: met) w s' := by
  have hsome := someLive_discarded hslots hd hdead hheap hworker hstate
  have hfreed : s₁.heap d = none := by rw [hheap, Function.update_self]
  have hstopped : s₁.pool.workerState j = .stopped := by rw [hstate, Function.update_self]
  refine ⟨h.live, h.busy, fun hlive => ?_, fun cb hcb k v hk hv => ?_, fun a ha => ?_,
    fun hno k hk hkw l hl => ?_, fun a ha => ?_, fun k hk hkstopped => ?_⟩
  · obtain ⟨k, hk, hw⟩ := h.chosen (hsome.mpr hlive)
    exact ⟨k, (idleAt_live_discarded hslots hd hdead hheap hworker hstate k w).mp ⟨hk, hw⟩⟩
  · obtain ⟨hk, hv⟩ := (idleAt_live_discarded hslots hd hdead hheap hworker hstate k v).mpr ⟨hk, hv⟩
    have hbest := h.best cb hcb k v hk hv
    rw [Nat.add_right_comm] at hbest
    exact hbest
  · rw [← hsome]
    rcases List.mem_cons.mp ha with rfl | ha
    · exact ⟨j, hd, hdead, h.freed a hfreed, h.stopped j hd.1 hstopped⟩
    · obtain ⟨k, hk, hlive, hheap', hslot⟩ := h.dead a ha
      obtain ⟨hk', hne⟩ := (idleAt_discarded hslots hd hworker hstate k a).mp hk
      refine ⟨k, hk', fun hlive' => hlive ?_, hheap', hslot⟩
      exact ((idleAt_live_discarded hslots hd hdead hheap hworker hstate k a).mpr ⟨hk', hlive'⟩).2
  · have hbusy := h.first (fun hlive => hno (hsome.mp hlive)) k hk hkw l hl
    have hne : l ≠ j := by
      rintro rfl
      rw [hstopped] at hbusy
      cases hbusy
    rw [hstate, Function.update_of_ne hne] at hbusy
    exact hbusy
  · rw [← hsome]
    refine h.freed a ?_
    rw [hheap]
    by_cases e : a = d
    · rw [e, Function.update_self]
    · rw [Function.update_of_ne e, ha]
  · rw [← hsome]
    refine h.stopped k hk ?_
    rw [hstate]
    by_cases e : k = j
    · rw [e, Function.update_self]
    · rw [Function.update_of_ne e, hkstopped]

end Discarded

/-! ## 7. The whole get -/

/-- No worker is idle: a process is started, and its worker returned. -/
theorem Alone.getStarted (h : Alone cfg t s)
    (halloc : env.Allocates) {i : Nat} (hpc : s.thread t = .getValue i)
    (hidle : nrIdle s.pool.workerState cfg.maxNrProcesses = 0)
    (hroom : ∃ j, j < cfg.maxNrProcesses ∧ s.pool.workerState j ≠ .busy) :
    ∃ s' w, (∀ fuel, getRun cfg env t (6 + fuel) s = some ([], s')) ∧
      s'.thread t = .holding w ∧ Recovered cfg env s i [] w s' := by
  have hnone : ∀ k, k < cfg.maxNrProcesses → s.pool.workerState k ≠ .idle :=
    Nat.count_iff_forall_not.mp hidle
  have hsem : s.pool.sem = 0 := by
    rw [h.permits (by rw [hpc]; rfl) (by rw [hpc]; rfl), hidle]
  obtain ⟨k, hk, hkbusy⟩ := hroom
  have hkstopped : s.pool.workerState k = .stopped := by
    cases hst : s.pool.workerState k with
    | idle => exact absurd hst (hnone k hk)
    | busy => exact absurd hst hkbusy
    | stopped => rfl
  obtain ⟨j, a, s₁, hj, hjstopped, hfirst, hfree, h₁, hpc₁, hsem₁, hworker₁, hstate₁, hheap₁,
    hrun₁⟩ :=
    h.startWorker halloc hpc hsem ⟨k, hk, hkstopped⟩
  obtain ⟨l, w, s₂, hl, -, h₂, hpc₂, hheap₂, hworker₂, hstate₂, hrun₂⟩ :=
    h₁.pick env hpc₁ (by omega)
  -- the only idle worker is the new one
  have hlj : l = j := by
    by_contra hne
    have hidle' := hl.2.1
    rw [hstate₁, Function.update_of_ne hne] at hidle'
    exact hnone l hl.1 hidle'
  subst hlj
  have hwa : a = w := by
    have hsame := hl.2.2
    rw [hworker₁, Function.update_self, Option.some.injEq] at hsame
    exact hsame
  subst hwa
  have hlive : s₂.Live a := by
    unfold State.Live
    rw [hheap₂, hheap₁, Function.update_self]
  obtain ⟨s₃, hpc₃, hpool₃, hheap₃, hrun₃⟩ := h₂.check_live env hpc₂ hlive
  refine ⟨s₃, a, fun fuel => ?_, hpc₃, Recovered.ofStarted h.inv.slots hnone hj hfirst hfree
    ?_ ?_ ?_⟩
  · have hfuel : 6 + fuel = fuel + 2 + 2 + 2 := by omega
    rw [hfuel, hrun₁, hrun₂, hrun₃]
  · rw [hheap₃, hheap₂, hheap₁]
  · rw [hpool₃, hworker₂, hworker₁]
  · rw [hpool₃, hstate₂, hstate₁, Function.update_idem]

/-- **A get from try `i` on**, by induction on the number of idle workers: it ends with the first
one that is alive, or with a new one when all were found dead. -/
theorem Alone.get (halloc : env.Allocates) (k : Nat) :
    ∀ (i : Nat) (s : State), Alone cfg t s → s.thread t = .getValue i →
      nrIdle s.pool.workerState cfg.maxNrProcesses = k → i + k ≤ cfg.maxNrProcesses →
      (∃ j, j < cfg.maxNrProcesses ∧ s.pool.workerState j ≠ .busy) →
      ∃ met s' w, (∀ fuel, getRun cfg env t (5 * k + 6 + fuel) s = some (met, s')) ∧
        met.length ≤ k ∧ s'.thread t = .holding w ∧ Recovered cfg env s i met w s' := by
  induction k with
  | zero =>
    intro i s h hpc hidle _ hroom
    obtain ⟨s', w, hrun, hpc', hrec⟩ := h.getStarted halloc hpc hidle hroom
    exact ⟨[], s', w, fun fuel => by rw [Nat.mul_zero, Nat.zero_add, hrun], le_refl _, hpc', hrec⟩
  | succ k ih =>
    intro i s h hpc hidle hi _
    have hsem : 0 < s.pool.sem := by
      rw [h.permits (by rw [hpc]; rfl) (by rw [hpc]; rfl), hidle]
      exact Nat.succ_pos k
    obtain ⟨h₁, hrun₁⟩ := h.getValue env hpc hsem
    obtain ⟨j, w, s₂, hw, hbest, h₂, hpc₂, hheap₂, hworker₂, hstate₂, hrun₂⟩ :=
      h₁.pick env (Function.update_self ..) hsem
    rw [State.setThread_heap] at hheap₂
    rw [State.setThread_pool] at hworker₂ hstate₂
    have hw : IdleAt cfg s j w := hw
    by_cases hlive : s.Live w
    · have hlive₂ : s₂.Live w := by
        unfold State.Live
        rw [hheap₂]
        exact hlive
      obtain ⟨s₃, hpc₃, hpool₃, hheap₃, hrun₃⟩ := h₂.check_live env hpc₂ hlive₂
      refine ⟨[], s₃, w, fun fuel => ?_, Nat.zero_le _, hpc₃,
        Recovered.ofLive hw hlive hbest (by rw [hheap₃, hheap₂]) (by rw [hpool₃, hworker₂])
          (by rw [hpool₃, hstate₂])⟩
      have hfuel : 5 * (k + 1) + 6 + fuel = 5 * k + 6 + fuel + 2 + 2 + 1 := by omega
      rw [hfuel, hrun₁, hrun₂, hrun₃]
    · have hdead₂ : ¬ s₂.Live w := by
        unfold State.Live
        rw [hheap₂]
        exact hlive
      have hslot₂ : s₂.pool.worker j = some w := by rw [hworker₂, hw.2.2]
      obtain ⟨s₃, wp, h₃, hpc₃, hheap₃, hpool₃, hrun₃⟩ :=
        h₂.check_dead env hpc₂ hdead₂ hw.1 hslot₂
      obtain ⟨s₄, h₄, hpc₄, hheap₄, hworker₄, hstate₄, hrun₄⟩ :=
        h₃.discard env hpc₃ hw.1 (by rw [hpool₃, hslot₂]) (by omega)
      rw [hheap₃, hheap₂, Function.update_idem] at hheap₄
      rw [hpool₃, hworker₂] at hworker₄
      rw [hpool₃, hstate₂, Function.update_idem] at hstate₄
      have hlose := nrIdle_lose s.pool.workerState .stopped hw.1 hw.2.1 fun e => by cases e
      have hidle₄ : nrIdle s₄.pool.workerState cfg.maxNrProcesses = k := by
        rw [hstate₄]
        omega
      obtain ⟨met, s', v, hrun, hlen, hpc', hrec⟩ := ih (i + 1) s₄ h₄ hpc₄ hidle₄ (by omega)
        ⟨j, hw.1, by rw [hstate₄, Function.update_self]; exact fun e => by cases e⟩
      refine ⟨w :: met, s', v, fun fuel => ?_, Nat.succ_le_succ hlen, hpc',
        hrec.discarded h.inv.slots hw hlive hheap₄ hworker₄ hstate₄⟩
      have hfuel : 5 * (k + 1) + 6 + fuel = 5 * k + 6 + fuel + 1 + 1 + 2 + 1 := by omega
      rw [hfuel, hrun₁, hrun₂, hrun₃, hrun₄, hrun]
      rfl

/-- **A get recovers from idle workers that died.**  In every reachable state of a pool that is
not stopped and has fewer workers in use than slots, where no other thread is in a call: the get
is not blocked, and returns a worker that is alive after at most `max_nr_processes + 1` tries. -/
theorem get_recovers (cfg : Config) (env : Env) {s : State} {t : Nat}
    (halloc : env.Allocates)
    (hs : (machine cfg).Reachable s) (hup : s.pool.stop = false)
    (hothers : ∀ t', t' < cfg.nrThreads → s.thread t' = .outside ∨ ∃ w, s.thread t' = .holding w)
    (hheld : nrHeld s.thread cfg.nrThreads < cfg.maxNrProcesses)
    (ht : t < cfg.nrThreads) (hpc : s.thread t = .outside) :
    ∃ s₀ met s' w, exec cfg s (.call t) = some s₀ ∧
      getRun cfg env t (5 * cfg.maxNrProcesses + 6) s₀ = some (met, s') ∧
      met.length + 1 ≤ cfg.maxNrProcesses + 1 ∧ s'.thread t = .holding w ∧
      Recovered cfg env s 0 met w s' := by
  have halone := alone_reachable hs hup ht fun t' ht' _ => hothers t' ht'
  have hcall : exec cfg s (.call t) = some (s.setThread t (.getValue 0)) := by
    simp only [exec, Action.thread?, if_pos ht, threadStep, hpc]
  have h₀ := halone.step (fun _ e => by cases e) hcall fun t' e => Function.update_of_ne e _ _
  have hroom := halone.exists_notBusy hheld
  have hk : nrIdle s.pool.workerState cfg.maxNrProcesses ≤ cfg.maxNrProcesses := Nat.count_le _
  obtain ⟨met, s', w, hrun, hlen, hpc', hrec⟩ := Alone.get halloc _ 0 _ h₀
    (Function.update_self ..) rfl (by rw [Nat.zero_add]; exact hk) hroom
  have hfuel : 5 * nrIdle s.pool.workerState cfg.maxNrProcesses + 6 +
      5 * (cfg.maxNrProcesses - nrIdle s.pool.workerState cfg.maxNrProcesses) =
      5 * cfg.maxNrProcesses + 6 := by omega
  have hget := hrun (5 * (cfg.maxNrProcesses - nrIdle s.pool.workerState cfg.maxNrProcesses))
  rw [State.setThread_pool, hfuel] at hget
  exact ⟨_, met, s', w, hcall, hget, Nat.succ_le_succ (le_trans hlen hk), hpc', hrec.live,
    hrec.busy, hrec.chosen, hrec.best, hrec.dead, hrec.first, hrec.freed, hrec.stopped⟩

/-- A thread gets a worker and releases it; then the worker dies. -/
def diesIdle : List Action :=
  [.call 0, .getValue 0, .startWorker 0 (some 0), .semWait 0, .assign 0 none, .check 0,
    .release 0, .post 0, .die 0]

theorem diesIdle_end : ((machine oneSlot).run diesIdle).map
    (fun s => (s.thread 0, s.thread 1, s.pool.stop, s.pool.workerState 0, s.pool.worker 0)) =
      some (.outside, .outside, false, .idle, some 0) := by
  decide +kernel

open Classical in
/-- The first address that is not in use. -/
noncomputable def firstFree (heap : Ptr → Option WorkerProcess) : Ptr :=
  if h : ∃ a, heap a = none then Nat.find h else 0

/-- The only slot has a dead worker. -/
theorem get_recovers_diesIdle :
    ∃ s s₀ met s' w, (machine oneSlot).run diesIdle = some s ∧
      exec oneSlot s (.call 0) = some s₀ ∧
      getRun oneSlot { alloc := firstFree, cb := some fun _ _ => 0 } 0 11 s₀ = some (met, s') ∧
      s'.thread 0 = .holding w ∧ s'.Live w := by
  obtain ⟨s, hrun, hs⟩ := Option.map_eq_some_iff.mp diesIdle_end
  simp only [Prod.mk.injEq] at hs
  obtain ⟨h0, h1, hup, -, -⟩ := hs
  have houtside : ∀ t, t < oneSlot.nrThreads → s.thread t = .outside := by
    intro t ht
    rcases Nat.lt_succ_iff_lt_or_eq.mp ht with ht | rfl
    · rw [Nat.lt_one_iff.mp ht, h0]
    · exact h1
  have hheld : nrHeld s.thread oneSlot.nrThreads = 0 :=
    Nat.count_iff_forall_not.mpr fun t ht e => by
      rw [houtside t ht] at e
      cases e
  obtain ⟨s₀, met, s', w, hcall, hget, -, hpc, hrec⟩ :=
    get_recovers oneSlot { alloc := firstFree, cb := some fun _ _ => 0 }
      (fun heap h => by
        dsimp only
        rw [firstFree, dif_pos h]
        exact Nat.find_spec h)
      ⟨_, hrun⟩ hup (fun t ht => .inl (houtside t ht)) (by rw [hheld]; decide) (by decide) h0
  exact ⟨s, s₀, met, s', w, hrun, hcall, hget, hpc, hrec.live⟩

/-- **The slot of the dead worker is busy again** when the get returns: the new worker has it. -/
theorem get_recovers_takes_slot :
    ∃ s s₀ s', (machine oneSlot).run diesIdle = some s ∧ IdleAt oneSlot s 0 0 ∧
      exec oneSlot s (.call 0) = some s₀ ∧
      getRun oneSlot { alloc := fun _ => 1, cb := none } 0 11 s₀ = some ([0], s') ∧
      s'.thread 0 = .holding 1 ∧ s'.heap 0 = none ∧ s'.pool.workerState 0 = .busy := by
  have hget : ((machine oneSlot).run (diesIdle ++ [.call 0])).bind
      (fun s₀ => (getRun oneSlot { alloc := fun _ => 1, cb := none } 0 11 s₀).map fun r =>
        (r.1, r.2.thread 0, r.2.heap 0, r.2.pool.workerState 0)) =
      some ([0], .holding 1, none, .busy) := by decide +kernel
  obtain ⟨s₀, hrun, hget⟩ := Option.bind_eq_some_iff.mp hget
  obtain ⟨s, hs, hcall⟩ := ((machine oneSlot).run_snoc_eq_some).mp hrun
  obtain ⟨⟨met, s'⟩, hget, hend⟩ := Option.map_eq_some_iff.mp hget
  obtain ⟨s₁, hs₁, hidle⟩ := Option.map_eq_some_iff.mp diesIdle_end
  rw [hs, Option.some.injEq] at hs₁
  subst hs₁
  simp only [Prod.mk.injEq] at hidle hend
  obtain ⟨rfl, hpc, hheap, hbusy⟩ := hend
  exact ⟨s, s₀, s', hs, ⟨by decide, hidle.2.2.2.1, hidle.2.2.2.2⟩, hcall, hget, hpc, hheap, hbusy⟩

end HdfStream.Pool
