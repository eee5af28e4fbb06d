/-
# Threads left waiting for nobody

A dead worker's permit is not given back, and whether a replacement is started is decided
before the wait only.  So a thread that waits relies on others: on a permit, on a busy worker
that will be released, or on a thread that is on its way to take or start one
(`State.NotStranded`).  This can fail, and `strandedRun` is a run on which it does.

Given the invariant, a thread is stranded exactly when no process runs and no other thread is
on its way (`notStranded_iff`), so only a step that ends with no running process can strand
one.  There are three (`Strands`): the release of the last running worker, found dead; the
discarding of the last running worker on the last try; and a failed start with none running.
`notStranded_run` says that a run is free of stranded threads exactly when it takes none of
these steps while another thread waits and no other one is on its way.
-/
import HdfStream.Pool.Safety

namespace HdfStream.Pool

open Counting

variable {cfg : Config} {s s' : State} {t : Nat}

/-! ## 1. The property -/

/-- Between taking or starting a worker, or giving one back, and finishing that step. -/
def ThreadPc.onTheWay : ThreadPc → Bool
  | .getValue _ | .startWorker _ | .lock _ | .repost | .check _ _ | .discard _ _ | .post => true
  | _ => false

/-- Every thread that waits for a permit has something to wait for. -/
def State.NotStranded (cfg : Config) (s : State) : Prop :=
  ∀ t i, t < cfg.nrThreads → s.thread t = .wait i →
    0 < s.pool.sem ∨ (∃ j, j < cfg.maxNrProcesses ∧ s.pool.workerState j = .busy) ∨
      ∃ t', t' < cfg.nrThreads ∧ t' ≠ t ∧ (s.thread t').onTheWay = true

/-- Another thread waits, and no other thread is on its way. -/
def State.OthersWait (cfg : Config) (s : State) (t : Nat) : Prop :=
  (∃ t' i, t' < cfg.nrThreads ∧ t' ≠ t ∧ s.thread t' = .wait i) ∧
    ∀ t', t' < cfg.nrThreads → t' ≠ t → (s.thread t').onTheWay = false

/-- The steps that leave others waiting for nobody. -/
def Strands (cfg : Config) (s : State) : Action → Prop
  | .release t => ∃ w wp, s.thread t = .holding w ∧ s.heap w = some wp ∧
      (workerProcessIsAlive wp).1 = false ∧ s.pool.nrProcessesRunning = 1 ∧ s.OthersWait cfg t
  | .discard t => ∃ i w, s.thread t = .discard i w ∧ cfg.maxNrProcesses ≤ i ∧
      s.pool.nrProcessesRunning = 1 ∧ s.OthersWait cfg t
  | .startWorker t new => ∃ i, s.thread t = .startWorker i ∧
      (new = none ∨ cfg.maxNrProcesses = 0) ∧ s.pool.nrProcessesRunning = 0 ∧ s.OthersWait cfg t
  | _ => False

/-- No process runs if and only if every slot is stopped. -/
theorem Inv.running_eq_zero (h : Inv cfg s) :
    s.pool.nrProcessesRunning = 0 ↔
      ∀ j, j < cfg.maxNrProcesses → s.pool.workerState j = .stopped := by
  rw [h.running]
  unfold nrNotStopped
  rw [Int.natCast_eq_zero, Nat.count_iff_forall_not]
  simp only [ne_eq, not_not]

/-- **Stranded means that no process runs.**  A process that runs is busy, or its permit is
there, on the way, or about to be posted. -/
theorem Inv.notStranded_iff (h : Inv cfg s) :
    s.NotStranded cfg ↔ ∀ t i, t < cfg.nrThreads → s.thread t = .wait i →
      s.pool.nrProcessesRunning ≠ 0 ∨
        ∃ t', t' < cfg.nrThreads ∧ t' ≠ t ∧ (s.thread t').onTheWay = true := by
  have hperm := h.permits
  constructor
  · intro hns t i ht hpc
    rcases hns t i ht hpc with hsem | ⟨j, hj, hbusy⟩ | hway
    · left
      intro h0
      have hall := h.running_eq_zero.mp h0
      have hidle : nrIdle s.pool.workerState cfg.maxNrProcesses = 0 :=
        (Nat.count_iff_forall_not).mpr fun j hj => by rw [hall j hj]; simp
      omega
    · left
      intro h0
      rw [h.running_eq_zero.mp h0 j hj] at hbusy
      exact absurd hbusy (by simp)
    · exact Or.inr hway
  · intro hns t i ht hpc
    rcases hns t i ht hpc with hrun | hway
    · -- some slot is not stopped
      have hslot : ∃ j, j < cfg.maxNrProcesses ∧ s.pool.workerState j ≠ .stopped := by
        by_contra hno
        push Not at hno
        exact hrun (h.running_eq_zero.mpr hno)
      obtain ⟨j, hj, hne⟩ := hslot
      cases hst : s.pool.workerState j with
      | stopped => exact absurd hst hne
      | busy => exact Or.inr (Or.inl ⟨j, hj, hst⟩)
      | idle =>
        have hidle : nrIdle s.pool.workerState cfg.maxNrProcesses ≠ 0 :=
          Nat.count_ne_iff_exists.mpr ⟨j, hj, hst⟩
        -- where the permit of the idle slot is
        by_cases htr : nrInTransit s.thread cfg.nrThreads = 0
        · by_cases hpo : nrPosting s.thread cfg.nrThreads = 0
          · left
            omega
          · obtain ⟨t', ht', hpost⟩ := Nat.count_ne_iff_exists.mp hpo
            refine Or.inr (Or.inr ⟨t', ht', ?_, ?_⟩)
            · rintro rfl
              rw [hpc] at hpost
              exact absurd hpost (by simp [ThreadPc.posting])
            · cases hp : s.thread t' <;> rw [hp] at hpost <;>
                simp_all [ThreadPc.posting, ThreadPc.onTheWay]
        · obtain ⟨t', ht', hlock⟩ := Nat.count_ne_iff_exists.mp htr
          refine Or.inr (Or.inr ⟨t', ht', ?_, ?_⟩)
          · rintro rfl
            rw [hpc] at hlock
            exact absurd hlock (by simp [ThreadPc.inTransit])
          · cases hp : s.thread t' <;> rw [hp] at hlock <;>
              simp_all [ThreadPc.inTransit, ThreadPc.onTheWay]
    · exact Or.inr (Or.inr hway)

/-! ## 2. Which steps strand a thread -/

theorem notStranded_of_onTheWay (ht : t < cfg.nrThreads) (h : (s.thread t).onTheWay = true) :
    s.NotStranded cfg := by
  intro t' i _ hpc
  refine Or.inr (Or.inr ⟨t, ht, ?_, h⟩)
  rintro rfl
  rw [hpc] at h
  exact absurd h (by simp [ThreadPc.onTheWay])

theorem Inv.notStranded_of_running (h : Inv cfg s) (hrun : s.pool.nrProcessesRunning ≠ 0) :
    s.NotStranded cfg :=
  h.notStranded_iff.mpr fun _ _ _ _ => Or.inl hrun

/-- **A thread leaves, and no process runs.**  Then the others are stranded exactly if one of
them waits and none is on its way. -/
theorem Inv.notStranded_leave (h' : Inv cfg s')
    (hthread : s'.thread = Function.update s.thread t .outside)
    (hrun : s'.pool.nrProcessesRunning = 0) : s'.NotStranded cfg ↔ ¬ s.OthersWait cfg t := by
  rw [h'.notStranded_iff, hthread]
  constructor
  · rintro hns ⟨⟨t', i, ht', hne, hpc⟩, hnone⟩
    rcases hns t' i ht' (by rw [Function.update_of_ne hne, hpc]) with hr | ⟨t'', ht'', -, hway⟩
    · exact hr hrun
    · by_cases e : t'' = t
      · subst e
        rw [Function.update_self] at hway
        exact absurd hway (by simp [ThreadPc.onTheWay])
      · rw [Function.update_of_ne e, hnone t'' ht'' e] at hway
        exact absurd hway (by simp)
  · intro hno t' i ht' hpc
    right
    have hne : t' ≠ t := by
      rintro rfl
      rw [Function.update_self] at hpc
      exact absurd hpc (by simp)
    rw [Function.update_of_ne hne] at hpc
    by_contra hway
    refine hno ⟨⟨t', i, ht', hne, hpc⟩, fun t'' ht'' hne' => ?_⟩
    by_contra hw
    refine hway ⟨t'', ht'', ?_, ?_⟩
    · rintro rfl
      rw [hpc] at hw
      exact hw rfl
    · rw [Function.update_of_ne hne']
      simpa using hw

/-- When `process_pool_start_worker` returns 0. -/
theorem Inv.startWorker_running (h : Inv cfg s) (hstop : s.pool.stop = false) {new : Option Ptr}
    (h' : processPoolStartWorker cfg.maxNrProcesses s new = some s') :
    s'.pool.nrProcessesRunning = 0 ↔
      s.pool.nrProcessesRunning = 0 ∧ (new = none ∨ cfg.maxNrProcesses = 0) := by
  have hrun := h.running
  simp only [processPoolStartWorker] at h'
  split at h'
  · rename_i hlt
    split at h'
    · cases new with
      | none =>
        cases h'
        simp
      | some a =>
        simp only at h'
        split at h'
        · exact absurd h' (by simp)
        · cases h'
          simp only [reduceCtorEq, false_or]
          omega
    · -- every slot is in use although fewer than the maximum run
      rename_i hf
      have hall : nrNotStopped s.pool.workerState cfg.maxNrProcesses = cfg.maxNrProcesses := by
        refine (Nat.count_iff_forall).mpr fun j hj => ?_
        have := List.find?_eq_none.mp hf j (List.mem_range.mpr hj)
        simpa using this
      omega
  · rename_i hge
    cases h'
    constructor
    · intro h0
      refine ⟨h0, Or.inr ?_⟩
      by_contra hn
      exact hge ⟨by omega, hstop⟩
    · exact fun h0 => h0.1

/-- What a discarded slot leaves of the count and of the threads. -/
theorem discardSlot_running {j : Nat} {a : Ptr} (ha : s.pool.worker j = some a) :
    (discardSlot a s j).pool.nrProcessesRunning = s.pool.nrProcessesRunning - 1 ∧
      (discardSlot a s j).thread = s.thread := by
  simp only [discardSlot, if_pos ha, workerProcessFree, and_self]

/-- **A release strands others** if it finds the last running worker dead. -/
theorem Inv.release_iff (h : Inv cfg s) (ht : t < cfg.nrThreads)
    (h' : Pool.threadStep cfg.maxNrProcesses s t (.release t) = some s') (hi' : Inv cfg s') :
    s'.NotStranded cfg ↔ ¬ Strands cfg s (.release t) := by
  simp only [Pool.threadStep] at h'
  split at h'
  · rename_i a hpc
    obtain ⟨j, wp, hj, ha, hbusy, hwp, hinj⟩ := h.holder ht (a := a) (by rw [hpc]; rfl)
    have hfound := slotOf_eq hj ha hinj
    have hheap := h.heap a (workerProcessIsAlive wp).2
    simp only [processPoolReleaseWorker, hfound, hwp] at h'
    cases halive : (workerProcessIsAlive wp).1 with
    | true =>
      rw [halive] at h'
      cases h'
      refine iff_of_true (notStranded_of_onTheWay ht ?_) ?_
      · simp [ThreadPc.onTheWay]
      · rintro ⟨w, wp', hpc', hwp', hdead, -⟩
        rw [hpc] at hpc'
        cases hpc'
        rw [hwp, Option.some.injEq] at hwp'
        subst hwp'
        rw [halive] at hdead
        exact absurd hdead (by simp)
    | false =>
      rw [halive] at h'
      cases h'
      obtain ⟨hrun, hthread⟩ := discardSlot_running
        (s := { s with heap := Function.update s.heap a (some (workerProcessIsAlive wp).2) }) ha
      by_cases h1 : s.pool.nrProcessesRunning = 1
      · have h0 : s.pool.nrProcessesRunning - 1 = 0 := by omega
        have hmove := congrArg (fun f => Function.update f t ThreadPc.outside) hthread
        rw [hi'.notStranded_leave hmove (hrun.trans h0)]
        refine not_congr ⟨fun ho => ⟨a, wp, hpc, hwp, halive, h1, ho⟩, ?_⟩
        rintro ⟨w, wp', -, -, -, -, ho⟩
        exact ho
      · refine iff_of_true (hi'.notStranded_of_running ?_) ?_
        · intro h0
          have := hrun.symm.trans h0
          simp only at this
          omega
        · rintro ⟨w, wp', -, -, -, h1', -⟩
          exact h1 h1'
  · exact absurd h' (by simp)

/-- **A discard strands others** if it is the last try and no other worker runs. -/
theorem Inv.discard_iff (h : Inv cfg s) (ht : t < cfg.nrThreads)
    (h' : Pool.threadStep cfg.maxNrProcesses s t (.discard t) = some s') (hi' : Inv cfg s') :
    s'.NotStranded cfg ↔ ¬ Strands cfg s (.discard t) := by
  simp only [Pool.threadStep] at h'
  split at h'
  · rename_i i a hpc
    obtain ⟨j, wp, hj, ha, hbusy, -, hinj⟩ := h.holder ht (a := a) (by rw [hpc]; rfl)
    rw [foldl_discardSlot hj ha hinj] at h'
    cases h'
    obtain ⟨hrun, hthread⟩ := discardSlot_running ha
    by_cases hi : i < cfg.maxNrProcesses
    · -- another try follows
      refine iff_of_true (notStranded_of_onTheWay ht ?_) ?_
      · simp [nextTry, hi, ThreadPc.onTheWay]
      · rintro ⟨i', w, hpc', hle, -⟩
        rw [hpc] at hpc'
        cases hpc'
        omega
    · have hnext : nextTry cfg.maxNrProcesses i = .outside := by
        simp [nextTry, hi]
      by_cases h1 : s.pool.nrProcessesRunning = 1
      · have h0 : s.pool.nrProcessesRunning - 1 = 0 := by omega
        have hmove : ((Pool.discardSlot a s j).setThread t (nextTry cfg.maxNrProcesses i)).thread =
            Function.update s.thread t .outside := by
          rw [State.setThread_thread, hthread, hnext]
        rw [hi'.notStranded_leave hmove (hrun.trans h0)]
        refine not_congr ⟨fun ho => ⟨i, a, hpc, by omega, h1, ho⟩, ?_⟩
        rintro ⟨i', w, -, -, -, ho⟩
        exact ho
      · refine iff_of_true (hi'.notStranded_of_running ?_) ?_
        · intro h0
          have := hrun.symm.trans h0
          omega
        · rintro ⟨i', w, -, -, h1', -⟩
          exact h1 h1'
  · exact absurd h' (by simp)

/-- **A start strands others** if it fails and no worker runs. -/
theorem Inv.startWorker_iff (h : Inv cfg s) (hstop : s.pool.stop = false)
    {new : Option Ptr} (h' : Pool.threadStep cfg.maxNrProcesses s t (.startWorker t new) = some s')
    (hi' : Inv cfg s') (hns : s.NotStranded cfg) :
    s'.NotStranded cfg ↔ ¬ Strands cfg s (.startWorker t new) := by
  simp only [Pool.threadStep] at h'
  split at h'
  · rename_i i hpc
    obtain ⟨s₁, hs₁, rfl⟩ := Option.map_eq_some_iff.mp h'
    have hthread := (h.startWorker hs₁).2
    have hzero := h.startWorker_running hstop hs₁
    by_cases h0 : s₁.pool.nrProcessesRunning = 0
    · obtain ⟨hrun, hnew⟩ := hzero.mp h0
      have hafter : Pool.afterStart s₁.pool.nrProcessesRunning i = .outside := if_pos h0
      have hmove : (s₁.setThread t (Pool.afterStart s₁.pool.nrProcessesRunning i)).thread =
          Function.update s.thread t .outside := by
        rw [State.setThread_thread, hthread, hafter]
      rw [hi'.notStranded_leave hmove h0]
      refine not_congr ⟨fun ho => ⟨i, hpc, hnew, hrun, ho⟩, ?_⟩
      rintro ⟨i', -, -, -, ho⟩
      exact ho
    · refine iff_of_true (hi'.notStranded_of_running h0) ?_
      rintro ⟨i', -, hnew, hrun, -⟩
      exact h0 (hzero.mpr ⟨hrun, hnew⟩)
  · -- called by itself: nobody moves
    rename_i hpc
    have hthread := (h.startWorker h').2
    have hzero := h.startWorker_running hstop h'
    refine iff_of_true (hi'.notStranded_iff.mpr fun t' i ht' hpc' => ?_) ?_
    · rw [hthread] at hpc' ⊢
      exact (h.notStranded_iff.mp hns t' i ht' hpc').imp_left fun hr h0 => hr (hzero.mp h0).1
    · rintro ⟨i', hpc', -⟩
      rw [hpc] at hpc'
      exact absurd hpc' (by simp)
  · exact absurd h' (by simp)

/-- Steps of a thread that cannot strand another one. -/
def Action.harmless : Action → Bool
  | .call _ | .getValue _ | .semWait _ | .assign _ _ | .check _ | .post _ | .notice _ => true
  | _ => false

/-- They end on the way, with a permit, or with a busy worker. -/
theorem Inv.notStranded_step (h : Inv cfg s) (ht : t < cfg.nrThreads) {a : Action}
    (hns : s.NotStranded cfg) (hi' : Inv cfg s') (ha : a.harmless = true)
    (h' : Pool.threadStep cfg.maxNrProcesses s t a = some s') : s'.NotStranded cfg := by
  cases a with
  | call =>
    simp only [Pool.threadStep] at h'
    split at h'
    · cases h'
      exact notStranded_of_onTheWay ht (by simp [ThreadPc.onTheWay])
    · exact absurd h' (by simp)
  | getValue =>
    simp only [Pool.threadStep] at h'
    split at h'
    · cases h'
      split
      · exact notStranded_of_onTheWay ht (by simp [ThreadPc.onTheWay])
      · -- it goes to wait, and there is a permit
        rename_i hsem
        exact fun _ _ _ _ => Or.inl (Nat.pos_of_ne_zero fun e => hsem e.le)
    · exact absurd h' (by simp)
  | semWait =>
    simp only [Pool.threadStep] at h'
    repeat' split at h'
    all_goals cases h'
    exact notStranded_of_onTheWay ht (by simp [ThreadPc.onTheWay])
  | assign t' cb =>
    simp only [Pool.threadStep] at h'
    split at h'
    · split at h'
      · cases h'
        exact fun _ _ _ _ => Or.inl (Nat.succ_pos _)
      · split at h'
        · cases h'
          exact notStranded_of_onTheWay ht (by simp [ThreadPc.onTheWay])
        · cases h'
          refine notStranded_of_onTheWay ht ?_
          simp only [State.setThread_thread, Function.update_self]
          split <;> rfl
    · exact absurd h' (by simp)
  | check =>
    simp only [Pool.threadStep] at h'
    split at h'
    · rename_i i a hpc
      obtain ⟨j, wp, -, -, -, hwp, -⟩ := h.holder ht (a := a) (by rw [hpc]; rfl)
      simp only [hwp, Option.some.injEq] at h'
      subst h'
      cases halive : (workerProcessIsAlive wp).1 with
      | false => exact notStranded_of_onTheWay ht (by simp [ThreadPc.onTheWay])
      | true =>
        -- the worker it now holds is busy
        obtain ⟨j, hj, -, hbusy⟩ := hi'.holders.slot t a ht (by simp [halive, ThreadPc.worker])
        exact fun _ _ _ _ => Or.inr (Or.inl ⟨j, hj, hbusy⟩)
    · exact absurd h' (by simp)
  | post =>
    simp only [Pool.threadStep] at h'
    split at h'
    · cases h'
      exact fun _ _ _ _ => Or.inl (Nat.succ_pos _)
    · cases h'
      exact fun _ _ _ _ => Or.inl (Nat.succ_pos _)
    · exact absurd h' (by simp)
  | notice =>
    simp only [Pool.threadStep] at h'
    repeat' split at h'
    all_goals cases h'
    all_goals exact hns
  | _ => exact absurd ha (by simp [Action.harmless])

/-- **One step.**  Before a shutdown, a step from a state with nobody stranded strands a thread
exactly when it is one of the three. -/
theorem Inv.notStranded_step_iff (h : Inv cfg s) (hstop : s.pool.stop = false) {a : Action}
    (hne : ∀ t, a ≠ .stop t) (h' : exec cfg s a = some s') (hns : s.NotStranded cfg) :
    s'.NotStranded cfg ↔ ¬ Strands cfg s a := by
  have hi' := h.step hstop hne h'
  unfold exec at h'
  split at h'
  · split at h'
    · rename_i t hthread ht
      have hallowed := h.excluded t ht
      cases a with
      | startWorker t' new =>
        cases hthread
        exact h.startWorker_iff hstop h' hi' hns
      | discard t' =>
        cases hthread
        exact h.discard_iff ht h' hi'
      | release t' =>
        cases hthread
        exact h.release_iff ht h' hi'
      | call | getValue | semWait | assign | check | post | notice =>
        exact iff_of_true (h.notStranded_step ht hns hi' rfl h') id
      | stop t' => exact absurd rfl (hne t')
      | poll | freeNext =>
        -- nobody is in `process_pool_free`
        simp only [Pool.threadStep] at h'
        split at h'
        · rename_i hpc
          rw [hpc] at hallowed
          exact absurd hallowed (by simp [ThreadPc.excluded])
        · exact absurd h' (by simp)
      | die w => exact absurd hthread (by simp [Action.thread?])
    · exact absurd h' (by simp)
  · repeat' split at h'
    all_goals cases h'
    exact iff_of_true hns id

/-! ## 3. Runs -/

/-- A pool that is not stopped at the end of a run never was. -/
theorem not_stopped_runFrom : ∀ (tr : List Action) (s : State),
    (machine cfg).runFrom s tr = some s' → s'.pool.stop = false → s.pool.stop = false
  | [], s, h, hstop => by
    cases h
    exact hstop
  | a :: tr, s, h, hstop => by
    rw [Machine.runFrom_cons, Option.bind_eq_some_iff] at h
    obtain ⟨s₁, hs₁, hrest⟩ := h
    exact (not_stopped_before hs₁ (not_stopped_runFrom tr s₁ hrest hstop)).1

/-- **Runs that strand nobody.**  Of a run that does not shut the pool down: every state it
goes through leaves each waiting thread something to wait for, if and only if none of its
steps is one of the three. -/
theorem notStranded_run (cfg : Config) (tr : List Action) (s : State)
    (h : (machine cfg).run tr = some s) (hstop : s.pool.stop = false) :
    (machine cfg).Throughout (State.NotStranded cfg) tr ↔
      (machine cfg).StepsMeet (fun s a => ¬ Strands cfg s a) tr := by
  refine Machine.throughout_iff_stepsMeet h ?_ ?_
  · intro t i _ hpc
    exact absurd hpc (by simp [machine, start])
  · intro tr₁ a tr₂ s₁ s₂ htr hs₁ ha hns
    -- the rest of the run shows that the pool was not stopped here
    have hrun : (machine cfg).run ((tr₁ ++ [a]) ++ tr₂) = some s := by
      rw [List.append_assoc, List.singleton_append, ← htr, h]
    obtain ⟨s₂', hs₂', hrest⟩ := (machine cfg).run_split hrun
    have hs₂ : (machine cfg).run (tr₁ ++ [a]) = some s₂ :=
      ((machine cfg).run_snoc_eq_some).mpr ⟨s₁, hs₁, ha⟩
    rw [hs₂, Option.some.injEq] at hs₂'
    subst hs₂'
    obtain ⟨hstop₁, hne⟩ := not_stopped_before ha (not_stopped_runFrom tr₂ s₂ hrest hstop)
    have hi : Inv cfg s₁ := inv_reachable ⟨tr₁, hs₁⟩ hstop₁
    exact hi.notStranded_step_iff hstop₁ hne ha hns

/-- **A run that strands a thread.**  One slot: thread 0 holds the worker, thread 1 waits for
it, the worker dies and thread 0 releases it. -/
def strandedRun : List Action := getAndWait ++ [.die 0, .release 0]

theorem strandedRun_end : ((machine oneSlot).run strandedRun).map
    (fun s => (s.thread 0, s.thread 1, s.pool.sem, s.pool.workerState 0, s.pool.stop)) =
      some (.outside, .wait 0, 0, .stopped, false) := by
  decide +kernel

theorem strandedRun_stranded : ∃ s, (machine oneSlot).run strandedRun = some s ∧
    s.pool.stop = false ∧ s.thread 1 = .wait 0 ∧ ¬ s.NotStranded oneSlot := by
  obtain ⟨s, hrun, hs⟩ := Option.map_eq_some_iff.mp strandedRun_end
  simp only [Prod.mk.injEq] at hs
  obtain ⟨h0, h1, hsem, hslot, hstop⟩ := hs
  refine ⟨s, hrun, hstop, h1, fun hns => ?_⟩
  rcases hns 1 0 (by decide) h1 with hp | ⟨j, hj, hbusy⟩ | ⟨t', ht', hne, hway⟩
  · omega
  · have hj0 : j = 0 := Nat.lt_one_iff.mp hj
    rw [hj0, hslot] at hbusy
    exact absurd hbusy (by decide)
  · -- the only other thread is thread 0
    have ht0 : t' = 0 := by
      have : t' < 2 := ht'
      omega
    rw [ht0, h0] at hway
    exact absurd hway (by decide)

/-- The rule for the run up to that point, where thread 1 still waits for thread 0. -/
theorem notStranded_run_getAndWait :
    ∃ s, (machine oneSlot).run getAndWait = some s ∧
      ((machine oneSlot).Throughout (State.NotStranded oneSlot) getAndWait ↔
        (machine oneSlot).StepsMeet (fun s a => ¬ Strands oneSlot s a) getAndWait) := by
  obtain ⟨s, hrun, hs⟩ := Option.map_eq_some_iff.mp getAndWait_end
  simp only [Prod.mk.injEq] at hs
  obtain ⟨-, -, hstop⟩ := hs
  exact ⟨s, hrun, notStranded_run oneSlot getAndWait s hrun hstop⟩

end HdfStream.Pool
