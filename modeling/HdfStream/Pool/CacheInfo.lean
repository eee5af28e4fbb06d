/-
# `hdfstream_cache_info` takes no lock

The status page asks for the counters of each worker.  `hdfstream_cache_info` reads the state of the
slot, its worker and what the worker points to, one after the other, and does not hold the mutex of
the pool; meanwhile a get or a release may find the worker dead and free it.

The model puts any number of such calls beside the pool, with one step for each access.
`cacheInfo_safe_iff` says exactly when they are safe: when no worker is freed that a call has in
hand.  `cacheInfo_safe_iff_freed` is a run in which one is.
-/
import HdfStream.Pool.Transitions
import HdfStream.Pool.Steps

namespace HdfStream.Pool

variable {cfg : Config} {n : Nat} {s s' : State} {t : Nat} {a : Action}

/-! ## 1. What a step does to the slots -/

/-- The worker that a step before a shutdown frees. -/
def freed (s : State) : Action → Option Ptr
  | .discard t =>
    match s.thread t with
    | .discard _ w => some w
    | _ => none
  | .release t =>
    match s.thread t with
    | .holding w =>
      match s.heap w with
      | some wp => if (workerProcessIsAlive wp).1 then none else some w
      | none => none
    | _ => none
  | _ => none

/-- What a step before a shutdown does to the slots and to the structs. -/
inductive SlotStep (n : Nat) (s s' : State) : Option Ptr → Prop where
  | same (hworker : s'.pool.worker = s.pool.worker)
      (hheap : ∀ w, (s'.heap w).isSome = (s.heap w).isSome) : SlotStep n s s' none
  | start {i : Nat} {w : Ptr} (hslot : s.pool.worker i = none) (hfree : s.heap w = none)
      (hworker : s'.pool.worker = Function.update s.pool.worker i (some w))
      (hheap : ∀ v, v ≠ w → s'.heap v = s.heap v) : SlotStep n s s' none
  | free {i : Nat} {w : Ptr} (hi : i < n) (hslot : s.pool.worker i = some w)
      (hworker : s'.pool.worker = Function.update s.pool.worker i none)
      (hnone : s'.heap w = none) (hheap : ∀ v, v ≠ w → s'.heap v = s.heap v) :
      SlotStep n s s' (some w)

theorem isSome_update {heap : Ptr → Option WorkerProcess} {w : Ptr} {wp : WorkerProcess}
    (hw : heap w = some wp) (wp' : WorkerProcess) (v : Ptr) :
    (Function.update heap w (some wp') v).isSome = (heap v).isSome := by
  by_cases e : v = w
  · rw [e, Function.update_self, hw]
    rfl
  · rw [Function.update_of_ne e]

theorem discardSlot_slotStep {w : Ptr} {i : Nat} (hi : i < n) (hslot : s.pool.worker i = some w) :
    SlotStep n s (discardSlot w s i) (some w) := by
  rw [discardSlot, if_pos hslot]
  exact .free hi hslot rfl (Function.update_self ..) fun v hv => Function.update_of_ne hv _ _

theorem Started.slotStep {new : Option Ptr} (h : Inv cfg s)
    (hstart : Started cfg.maxNrProcesses s new s') : SlotStep cfg.maxNrProcesses s s' none := by
  cases hstart with
  | full | noSlot => exact .same rfl fun _ => rfl
  | failed hup hi hslot =>
    have hnone := (h.slots.stopped _ hi).mp hslot
    exact .same (by simp [← hnone]) fun _ => rfl
  | started hup hi hslot hfree =>
    exact .start ((h.slots.stopped _ hi).mp hslot) hfree rfl
      fun v hv => Function.update_of_ne hv _ _

/-- **What a step before a shutdown does to the slots.** -/
theorem Step.slotStep (h : Inv cfg s) (hstep : Step cfg s a s') (hup : s'.pool.stop = false) :
    SlotStep cfg.maxNrProcesses s s' (freed s a) := by
  cases hstep with
  | die hw => exact .same rfl (isSome_update hw _)
  | @thread t _ _ ht hthread hstep =>
    have hexcluded := h.excluded t ht
    cases hstep with
    | startWorker hpc hstart =>
      rcases hstart.slotStep h with ⟨hworker, hheap⟩ | ⟨hslot, hfree, hworker, hheap⟩ | _
      · exact .same hworker hheap
      · exact .start hslot hfree hworker hheap
    | startAlone hpc hstart => exact hstart.slotStep h
    | check hpc hw | notice hpc hw => exact .same rfl (isSome_update hw _)
    | discard hpc =>
      simp only [Action.thread?, Option.some.injEq] at hthread
      subst hthread
      simp only [freed, hpc]
      obtain ⟨i, -, hi, hslot, -, -, hinj⟩ := h.holder ht (by rw [hpc]; rfl)
      rw [foldl_discardSlot hi hslot hinj]
      cases discardSlot_slotStep hi hslot with
      | free hi' hslot' hworker hnone hheap => exact .free hi' hslot' hworker hnone hheap
    | @release _ w _ hpc hr =>
      simp only [Action.thread?, Option.some.injEq] at hthread
      subst hthread
      obtain ⟨j, wp', hj, hjw, -, hwp, -⟩ := h.holder ht (a := w) (by rw [hpc]; rfl)
      cases hr with
      | notFound hslot =>
        exact absurd (List.find?_eq_none.mp hslot j (List.mem_range.mpr hj)) (by simp [hjw])
      | freed hslot hw =>
        rw [hwp] at hw
        cases hw
      | alive hslot hw halive =>
        simp only [freed, hpc, hw, halive, if_true]
        exact .same rfl (isSome_update hw _)
      | @dead i wp hslot hw halive =>
        simp only [freed, hpc, hw, halive, Bool.false_eq_true, if_false]
        have hi : i < cfg.maxNrProcesses := List.mem_range.mp (List.mem_of_find?_eq_some hslot)
        have hslot : s.pool.worker i = some w := by simpa using List.find?_some hslot
        rw [discardSlot, if_pos hslot]
        refine .free hi hslot rfl (Function.update_self ..) fun v hv => ?_
        exact (Function.update_of_ne hv _ _).trans (Function.update_of_ne hv _ _)
    | stop => cases hup
    | pollBusy hpc | poll hpc | freeNext hpc | freeEnd hpc =>
      rw [hpc] at hexcluded
      cases hexcluded
    | _ => exact .same rfl fun _ => rfl

/-- A worker stays in its slot until it is freed. -/
theorem SlotStep.worker {gone : Option Ptr} (h : SlotStep n s s' gone) {j : Nat} {w : Ptr}
    (hj : s.pool.worker j = some w) (hne : gone ≠ some w) : s'.pool.worker j = some w := by
  cases h with
  | same hworker => rw [hworker, hj]
  | @start i v hslot hfree hworker =>
    have e : j ≠ i := by
      rintro rfl
      rw [hslot] at hj
      cases hj
    rw [hworker, Function.update_of_ne e, hj]
  | @free i v hi hslot hworker =>
    have e : j ≠ i := by
      rintro rfl
      rw [hslot] at hj
      exact hne hj
    rw [hworker, Function.update_of_ne e, hj]

/-- A struct stays until it is freed. -/
theorem SlotStep.isSome {gone : Option Ptr} (h : SlotStep n s s' gone) {w : Ptr}
    (hw : (s.heap w).isSome = true) (hne : gone ≠ some w) : (s'.heap w).isSome = true := by
  cases h with
  | same hworker hheap => rw [hheap, hw]
  | @start i v hslot hfree hworker hheap =>
    have e : w ≠ v := by
      rintro rfl
      rw [hfree] at hw
      cases hw
    rw [hheap w e, hw]
  | @free i v hi hslot hworker hnone hheap =>
    have e : w ≠ v := by
      rintro rfl
      exact hne rfl
    rw [hheap w e, hw]

/-- A worker that is freed is gone, and its slot is empty. -/
theorem SlotStep.gone {w : Ptr} (h : SlotStep n s s' (some w)) (hslots : SlotsInv n s.pool s.heap) :
    s'.heap w = none ∧ ∀ j, j < n → s.pool.worker j = some w → s'.pool.worker j = none := by
  cases h with
  | @free i _ hi hslot hworker hnone hheap =>
    refine ⟨hnone, fun j hj hjw => ?_⟩
    rw [hworker, hslots.inj j i w hj hi hjw hslot, Function.update_self]

/-! ## 2. The calls -/

/-- `struct cache_info`. -/
structure CacheInfo where
  processState : Int
  nrFileCacheHits : Int
  nrFileCacheMisses : Int
deriving DecidableEq

/-- The value of a `worker_state_t`. -/
def WorkerState.toInt : WorkerState → Int
  | .idle => 0
  | .busy => 1
  | .stopped => 2

/-- The accesses through the pointer to the worker. -/
inductive Field where
  /-- `worker->data` -/
  | data
  /-- `rd->sm` -/
  | sm
  /-- `sm->data` -/
  | region
  /-- `srd->nr_file_cache_hits` -/
  | hits
  /-- `srd->nr_file_cache_misses` -/
  | misses
deriving DecidableEq

/-- How far a call of `hdfstream_cache_info` is. -/
inductive InfoPc where
  | outside
  /-- At `assert(hs->pool->worker[worker_nr])`. -/
  | asserting (j : Nat) (st : WorkerState)
  /-- At the load of `hs->pool->worker[worker_nr]`. -/
  | loading (j : Nat) (st : WorkerState)
  | reading (w : Ptr) (field : Field) (ci : CacheInfo)
  | returned (ci : CacheInfo)
deriving DecidableEq

/-- The pool, and the calls beside it. -/
structure InfoState where
  pool : State
  info : Nat → InfoPc
  /-- An assertion has failed, or memory was read that is not allocated. -/
  fault : Bool

inductive InfoAction where
  | pool (a : Action)
  | call (t : Nat) (workerNr : Int)
  | assert (t : Nat)
  | load (t : Nat)
  /-- An access through the pointer, with the value that is read if it is a counter. -/
  | access (t : Nat) (value : Int)

/-- Move one call. -/
def InfoState.setInfo (s : InfoState) (t : Nat) (pc : InfoPc) : InfoState :=
  { s with info := Function.update s.info t pc }

/-- The first lines of `hdfstream_cache_info`, up to the assertion. -/
def cacheInfoState (n : Nat) (p : ProcessPool) (workerNr : Int) : InfoPc :=
  if 0 ≤ workerNr ∧ workerNr < n then
    match p.workerState workerNr.toNat with
    | .stopped => .returned ⟨WorkerState.stopped.toInt, 0, 0⟩
    | st => .asserting workerNr.toNat st
  else .returned ⟨-1, -1, -1⟩

/-- What comes after an access that has read `value`. -/
def afterAccess (w : Ptr) (ci : CacheInfo) (value : Int) : Field → InfoPc
  | .data => .reading w .sm ci
  | .sm => .reading w .region ci
  | .region => .reading w .hits ci
  | .hits => .reading w .misses { ci with nrFileCacheHits := value }
  | .misses => .returned { ci with nrFileCacheMisses := value }

/-- The step function. -/
def infoExec (cfg : Config) (s : InfoState) : InfoAction → Option InfoState
  | .pool a => (exec cfg s.pool a).map fun p => { s with pool := p }
  | .call t workerNr =>
    match s.info t with
    | .outside | .returned _ =>
      some (s.setInfo t (cacheInfoState cfg.maxNrProcesses s.pool.pool workerNr))
    | _ => none
  | .assert t =>
    match s.info t with
    | .asserting j st =>
      match s.pool.pool.worker j with
      | some _ => some (s.setInfo t (.loading j st))
      | none => some { s with fault := true }
    | _ => none
  | .load t =>
    match s.info t with
    | .loading j st =>
      match s.pool.pool.worker j with
      | some w => some (s.setInfo t (.reading w .data ⟨st.toInt, 0, 0⟩))
      | none => some { s with fault := true }
    | _ => none
  | .access t value =>
    match s.info t with
    | .reading w field ci =>
      match s.pool.heap w with
      | some _ => some (s.setInfo t (afterAccess w ci value field))
      | none => some { s with fault := true }
    | _ => none

/-- One pool, its threads, and calls of `hdfstream_cache_info`. -/
def infoMachine (cfg : Config) : Machine InfoState InfoAction where
  init := { pool := start, info := fun _ => .outside, fault := false }
  exec := infoExec cfg

/-! ## 3. When they are safe -/

/-- The worker that a call has in hand: that of its slot, then the one it has read. -/
def InfoPc.inHand (p : ProcessPool) : InfoPc → Option Ptr
  | .asserting j _ | .loading j _ => p.worker j
  | .reading w _ _ => some w
  | _ => none

/-- The next access succeeds. -/
def InfoPc.Safe (n : Nat) (p : State) : InfoPc → Prop
  | .asserting j _ | .loading j _ =>
    j < n ∧ ∃ w, p.pool.worker j = some w ∧ (p.heap w).isSome = true
  | .reading w _ _ => (p.heap w).isSome = true
  | .outside | .returned _ => True

/-- No access has failed, and none is about to. -/
structure InfoState.Safe (cfg : Config) (s : InfoState) : Prop where
  fault : s.fault = false
  info : ∀ t, (s.info t).Safe cfg.maxNrProcesses s.pool

/-- The step does not free the worker that a call has in hand. -/
def InfoState.Spares (s : InfoState) : InfoAction → Prop
  | .pool a => ∀ t w, (s.info t).inHand s.pool.pool = some w → freed s.pool a ≠ some w
  | _ => True

/-- A step of the pool keeps a call safe exactly if it does not free its worker. -/
theorem InfoPc.safe_iff {pc : InfoPc} (h : Inv cfg s) {gone : Option Ptr}
    (hstep : SlotStep cfg.maxNrProcesses s s' gone) (hsafe : pc.Safe cfg.maxNrProcesses s) :
    pc.Safe cfg.maxNrProcesses s' ↔ ∀ w, pc.inHand s.pool = some w → gone ≠ some w := by
  cases pc with
  | outside | returned => exact ⟨fun _ w hw => (by cases hw), fun _ => trivial⟩
  | asserting j st | loading j st =>
    obtain ⟨hj, w, hw, hlive⟩ := hsafe
    constructor
    · rintro ⟨-, v, hv, -⟩ w' hw' rfl
      rw [(hstep.gone h.slots).2 j hj hw'] at hv
      cases hv
    · intro hspare
      have hne := hspare w hw
      exact ⟨hj, w, hstep.worker hw hne, hstep.isSome hlive hne⟩
  | reading w field ci =>
    constructor
    · rintro hlive w' hw' rfl
      cases hw'
      have hlive : (s'.heap w).isSome = true := hlive
      rw [(hstep.gone h.slots).1] at hlive
      cases hlive
    · exact fun hspare => hstep.isSome hsafe (hspare w rfl)

theorem cacheInfoState_safe (h : Inv cfg s) (workerNr : Int) :
    (cacheInfoState cfg.maxNrProcesses s.pool workerNr).Safe cfg.maxNrProcesses s := by
  unfold cacheInfoState
  split
  · rename_i hrange
    have hj : workerNr.toNat < cfg.maxNrProcesses := by omega
    have hlive : s.pool.workerState workerNr.toNat ≠ .stopped →
        ∃ w, s.pool.worker workerNr.toNat = some w ∧ (s.heap w).isSome = true := by
      intro hst
      obtain ⟨w, hw⟩ := Option.ne_none_iff_exists'.mp (mt (h.slots.stopped _ hj).mpr hst)
      exact ⟨w, hw, h.slots.live _ _ hj hw⟩
    split
    · trivial
    · rename_i hst
      exact ⟨hj, hlive hst⟩
  · trivial

/-- The step of a call that is safe. -/
theorem InfoState.Safe.setInfo {x : InfoState} (h : x.Safe cfg) {t : Nat} {pc : InfoPc}
    (hpc : pc.Safe cfg.maxNrProcesses x.pool) : (x.setInfo t pc).Safe cfg where
  fault := h.fault
  info u := by
    show (Function.update x.info t pc u).Safe cfg.maxNrProcesses x.pool
    by_cases e : u = t
    · rw [e, Function.update_self]
      exact hpc
    · rw [Function.update_of_ne e]
      exact h.info u

theorem afterAccess_safe {w : Ptr} {ci : CacheInfo} {value : Int} {field : Field}
    (hw : (s.heap w).isSome = true) : (afterAccess w ci value field).Safe n s := by
  cases field with
  | misses => trivial
  | _ => exact hw

/-- A step of a call keeps all calls safe. -/
theorem InfoState.Safe.step {x x' : InfoState} (h : x.Safe cfg) (hinv : Inv cfg x.pool)
    {b : InfoAction} (hb : ∀ a, b ≠ .pool a) (hs : infoExec cfg x b = some x') : x'.Safe cfg := by
  cases b with
  | pool a => exact absurd rfl (hb a)
  | call t workerNr =>
    simp only [infoExec] at hs
    split at hs <;> cases hs
    · exact h.setInfo (cacheInfoState_safe hinv workerNr)
    · exact h.setInfo (cacheInfoState_safe hinv workerNr)
  | assert t =>
    have hsafe := h.info t
    simp only [infoExec] at hs
    split at hs
    · rename_i j st hpc
      rw [hpc] at hsafe
      obtain ⟨hj, w, hw, hlive⟩ := hsafe
      rw [hw] at hs
      cases hs
      exact h.setInfo ⟨hj, w, hw, hlive⟩
    · cases hs
  | load t =>
    have hsafe := h.info t
    simp only [infoExec] at hs
    split at hs
    · rename_i j st hpc
      rw [hpc] at hsafe
      obtain ⟨hj, w, hw, hlive⟩ := hsafe
      rw [hw] at hs
      cases hs
      exact h.setInfo hlive
    · cases hs
  | access t value =>
    have hsafe := h.info t
    simp only [infoExec] at hs
    split at hs
    · rename_i w field ci hpc
      rw [hpc] at hsafe
      obtain ⟨wp, hwp⟩ := Option.isSome_iff_exists.mp hsafe
      rw [hwp] at hs
      cases hs
      exact h.setInfo (afterAccess_safe hsafe)
    · cases hs

/-- The pool does not notice the calls. -/
theorem infoMachine_pool {tr : List InfoAction} {x : InfoState}
    (h : (infoMachine cfg).run tr = some x) : (machine cfg).Reachable x.pool := by
  refine (infoMachine cfg).run_induction (I := fun _ x => (machine cfg).Reachable x.pool) ?_ ?_
    tr x h
  · exact Machine.reachable_init _
  · intro tr x b x' _ ih hs
    cases b with
    | pool a =>
      obtain ⟨p, hp, rfl⟩ := Option.map_eq_some_iff.mp hs
      exact ih.step hp
    | _ =>
      simp only [infoMachine, infoExec] at hs
      repeat' split at hs
      all_goals cases hs
      all_goals exact ih

theorem infoExec_up {x x' : InfoState} {b : InfoAction} (hs : infoExec cfg x b = some x')
    (hup : x'.pool.pool.stop = false) : x.pool.pool.stop = false := by
  cases b with
  | pool a =>
    obtain ⟨p, hp, rfl⟩ := Option.map_eq_some_iff.mp hs
    exact (not_stopped_before hp hup).1
  | _ =>
    simp only [infoExec] at hs
    repeat' split at hs
    all_goals cases hs
    all_goals exact hup

theorem infoMachine_up {tr : List InfoAction} : ∀ {x x' : InfoState},
    (infoMachine cfg).runFrom x tr = some x' → x'.pool.pool.stop = false →
      x.pool.pool.stop = false := by
  induction tr with
  | nil =>
    rintro x x' ⟨⟩ hup
    exact hup
  | cons b tr ih =>
    intro x x' h hup
    rw [Machine.runFrom_cons, Option.bind_eq_some_iff] at h
    obtain ⟨x₁, hs, h⟩ := h
    exact infoExec_up hs (ih h hup)

/-- **When `hdfstream_cache_info` is safe without the lock.**  In every run before a shutdown, with
any number of threads and calls: no assertion fails and no memory is read after it was freed, and
none is about to be, exactly if no step of the run frees the worker that a call has in hand. -/
theorem cacheInfo_safe_iff (cfg : Config) {tr : List InfoAction} {x : InfoState}
    (h : (infoMachine cfg).run tr = some x) (hup : x.pool.pool.stop = false) :
    (infoMachine cfg).Throughout (InfoState.Safe cfg) tr ↔
      (infoMachine cfg).StepsMeet InfoState.Spares tr := by
  refine Machine.throughout_iff_stepsMeet h ⟨rfl, fun _ => trivial⟩ ?_
  intro tr₁ b tr₂ x₁ x₂ htr hx₁ hs hsafe
  have hlater : (infoMachine cfg).runFrom x₂ tr₂ = some x := by
    rw [htr] at h
    obtain ⟨x₁', hx₁', hrest⟩ := (infoMachine cfg).run_split h
    rw [hx₁, Option.some.injEq] at hx₁'
    subst hx₁'
    rw [Machine.runFrom_cons, hs] at hrest
    exact hrest
  have hup₂ := infoMachine_up hlater hup
  have hinv : Inv cfg x₁.pool := inv_reachable (infoMachine_pool hx₁) (infoExec_up hs hup₂)
  have hs : infoExec cfg x₁ b = some x₂ := hs
  cases b with
  | pool a =>
    obtain ⟨p, hp, rfl⟩ := Option.map_eq_some_iff.mp hs
    have hslots := (exec_cases hp).slotStep hinv hup₂
    constructor
    · exact fun hsafe₂ t w hw =>
        (InfoPc.safe_iff hinv hslots (hsafe.info t)).mp (hsafe₂.info t) w hw
    · exact fun hspares => ⟨hsafe.fault, fun t =>
        (InfoPc.safe_iff hinv hslots (hsafe.info t)).mpr (hspares t)⟩
  | _ => exact ⟨fun _ => trivial, fun _ => hsafe.step hinv (by rintro a ⟨⟩) hs⟩

/-- One slot and one thread.  The worker dies after a call has read its address, and the next get
finds it dead. -/
def freedInHand : List InfoAction :=
  [.pool (.startWorker 0 (some 7)), .call 0 0, .assert 0, .load 0, .access 0 0, .pool (.die 7),
    .pool (.call 0), .pool (.getValue 0), .pool (.semWait 0), .pool (.assign 0 none),
    .pool (.check 0), .pool (.discard 0), .access 0 0]

theorem cacheInfo_safe_iff_freed : ∃ x, (infoMachine ⟨1, 1⟩).run freedInHand = some x ∧
    x.fault = true ∧ ¬ (infoMachine ⟨1, 1⟩).StepsMeet InfoState.Spares freedInHand := by
  have hend : ((infoMachine ⟨1, 1⟩).run freedInHand).map
      (fun x => (x.fault, x.pool.pool.stop)) = some (true, false) := by decide +kernel
  obtain ⟨x, hrun, hx⟩ := Option.map_eq_some_iff.mp hend
  simp only [Prod.mk.injEq] at hx
  obtain ⟨hfault, hup⟩ := hx
  refine ⟨x, hrun, hfault, fun hspares => ?_⟩
  have hsafe := (cacheInfo_safe_iff ⟨1, 1⟩ hrun hup).mpr hspares freedInHand [] x
    (List.append_nil _).symm hrun
  rw [hsafe.fault] at hfault
  cases hfault

end HdfStream.Pool
