/-
# Shutting the pool down

`process_pool_free` sets `stop`, kills the processes, posts once, waits until no slot is busy and
then frees what is left without the lock.  `Down` is the invariant from the first of these on:

* slots, structs and holders belong together as before;
* the permits and the threads in transit are never none at all, for a thread in transit gives its
  permit back (`permits`);
* one thread at most is in `process_pool_free`, and once it frees, no slot is busy, so no thread
  has a worker (`quiet`).

Every step keeps it, hands out no worker and allocates no struct (`Down.step`).  `shutdown_safe` is
the statement about whole runs with one call of `process_pool_free`.
-/
import HdfStream.Pool.Safety

namespace HdfStream.Pool

open Counting

variable {cfg : Config} {s s' : State} {t : Nat} {pc : ThreadPc}

/-! ## 1. The invariant -/

/-- In `process_pool_free`. -/
def ThreadPc.shutting : ThreadPc → Bool
  | .polling | .freeing _ => true
  | _ => false

/-- Every struct is in a slot. -/
def Owned (cfg : Config) (s : State) : Prop :=
  ∀ a, (s.heap a).isSome = true → ∃ i, i < cfg.maxNrProcesses ∧ s.pool.worker i = some a

/-- The invariant of a pool that is stopped. -/
structure Down (cfg : Config) (s : State) : Prop where
  stop : s.pool.stop = true
  inj : ∀ i j a, i < cfg.maxNrProcesses → j < cfg.maxNrProcesses → s.pool.worker i = some a →
    s.pool.worker j = some a → i = j
  live : ∀ i a, i < cfg.maxNrProcesses → s.pool.worker i = some a → (s.heap a).isSome = true
  holders : HoldersInv cfg s.pool s.thread
  permits : 1 ≤ s.pool.sem + nrInTransit s.thread cfg.nrThreads
  unique : ∀ t t', t < cfg.nrThreads → t' < cfg.nrThreads → (s.thread t).shutting = true →
    (s.thread t').shutting = true → t = t'
  quiet : ∀ t j, t < cfg.nrThreads → s.thread t = .freeing j →
    (∀ i, i < cfg.maxNrProcesses → s.pool.workerState i ≠ .busy) ∧
      ∀ i, i < cfg.maxNrProcesses → i < j → s.pool.worker i = none
  fault : s.fault = false

/-- What no step does after a shutdown: hand out a worker, or allocate a struct. -/
structure Later (s s' : State) : Prop where
  thread : ∀ t, (s.thread t).worker = none → (s'.thread t).worker = none
  heap : ∀ a, s.heap a = none → s'.heap a = none

/-! ## 2. Moves of one thread -/

/-- A thread that moves outside of `process_pool_free` is not in it. -/
theorem shutting_update (thread : Nat → ThreadPc) (hsh : pc.shutting = false) {t' : Nat}
    (h : (Function.update thread t pc t').shutting = true) :
    Function.update thread t pc t' = thread t' := by
  by_cases e : t' = t
  · subst e
    rw [Function.update_self, hsh] at h
    cases h
  · exact Function.update_of_ne e _ _

theorem unique_update (h : Down cfg s) (hsh : pc.shutting = false) :
    ∀ t₁ t₂, t₁ < cfg.nrThreads → t₂ < cfg.nrThreads →
      (Function.update s.thread t pc t₁).shutting = true →
      (Function.update s.thread t pc t₂).shutting = true → t₁ = t₂ := by
  intro t₁ t₂ ht₁ ht₂ h₁ h₂
  rw [shutting_update _ hsh h₁] at h₁
  rw [shutting_update _ hsh h₂] at h₂
  exact h.unique t₁ t₂ ht₁ ht₂ h₁ h₂

theorem quiet_update (h : Down cfg s) (hsh : pc.shutting = false) {t₁ j : Nat}
    (ht₁ : t₁ < cfg.nrThreads) (hpc : Function.update s.thread t pc t₁ = .freeing j) :
    (∀ i, i < cfg.maxNrProcesses → s.pool.workerState i ≠ .busy) ∧
      ∀ i, i < cfg.maxNrProcesses → i < j → s.pool.worker i = none := by
  have hsame : Function.update s.thread t pc t₁ = s.thread t₁ :=
    shutting_update s.thread hsh (by rw [hpc]; rfl)
  exact h.quiet t₁ j ht₁ (hsame ▸ hpc)

/-- A thread moves; the permits may change. -/
theorem Down.move (h : Down cfg s) (sem : Nat) (hw : pc.worker = (s.thread t).worker)
    (hperm : 1 ≤ sem + nrInTransit (Function.update s.thread t pc) cfg.nrThreads)
    (hsh : pc.shutting = false) :
    Down cfg ({ s with pool := { s.pool with sem := sem } }.setThread t pc) where
  stop := h.stop
  inj := h.inj
  live := h.live
  holders :=
    have hm := h.holders.move pc hw
    ⟨hm.slot, hm.excl, hm.busy⟩
  permits := hperm
  unique := unique_update (s := s) h hsh
  quiet _ _ ht₁ hpc := quiet_update (s := s) h hsh ht₁ hpc
  fault := h.fault

/-- A thread moves without changing what it has. -/
theorem Down.setThread (h : Down cfg s) (ht : t < cfg.nrThreads)
    (hw : pc.worker = (s.thread t).worker) (htr : pc.inTransit = (s.thread t).inTransit)
    (hsh : pc.shutting = false) : Down cfg (s.setThread t pc) := by
  refine h.move s.pool.sem hw ?_ hsh
  rw [nrInTransit_same ht htr]
  exact h.permits

theorem Down.heap (h : Down cfg s) (a : Ptr) (wp : WorkerProcess) :
    Down cfg { s with heap := Function.update s.heap a (some wp) } where
  stop := h.stop
  inj := h.inj
  live i b hi hb := by
    show (Function.update s.heap a (some wp) b).isSome = true
    by_cases e : b = a
    · subst e
      rw [Function.update_self]
      rfl
    · rw [Function.update_of_ne e]
      exact h.live i b hi hb
  holders := h.holders
  permits := h.permits
  unique := h.unique
  quiet := h.quiet
  fault := h.fault

/-- A thread that moves gets no worker. -/
theorem Later.setThread (hw : (s.thread t).worker = none → pc.worker = none)
    (hthread : s'.thread = s.thread) (hheap : ∀ a, s.heap a = none → s'.heap a = none) :
    Later s (s'.setThread t pc) where
  thread t' ht' := by
    rw [State.setThread_thread, hthread]
    by_cases e : t' = t
    · subst e
      rw [Function.update_self]
      exact hw ht'
    · rw [Function.update_of_ne e]
      exact ht'
  heap := hheap

theorem Later.refl (s : State) : Later s s := ⟨fun _ h => h, fun _ h => h⟩

/-- A struct that is there changes. -/
theorem heap_update {a : Ptr} {w wp : WorkerProcess} (hw : s.heap a = some w) :
    ∀ b, s.heap b = none → Function.update s.heap a (some wp) b = none := by
  intro b hb
  have hne : b ≠ a := by
    rintro rfl
    rw [hw] at hb
    cases hb
  rw [Function.update_of_ne hne]
  exact hb

/-! ## 3. Workers are given back -/

theorem Down.holder (h : Down cfg s) (ht : t < cfg.nrThreads) {a : Ptr}
    (hw : (s.thread t).worker = some a) :
    ∃ j wp, j < cfg.maxNrProcesses ∧ s.pool.worker j = some a ∧ s.pool.workerState j = .busy ∧
      s.heap a = some wp ∧ ∀ i, i < cfg.maxNrProcesses → s.pool.worker i = some a → i = j := by
  obtain ⟨j, hj, ha, hbusy⟩ := h.holders.slot t a ht hw
  obtain ⟨wp, hwp⟩ := Option.isSome_iff_exists.mp (h.live j a hj ha)
  exact ⟨j, wp, hj, ha, hbusy, hwp, fun i hi hia => h.inj i j a hi hj hia ha⟩

/-- A dead worker is freed by the thread that has it. -/
theorem Down.discardSlot (h : Down cfg s) (ht : t < cfg.nrThreads) {j : Nat} {a : Ptr}
    (hj : j < cfg.maxNrProcesses) (ha : s.pool.worker j = some a)
    (hw : (s.thread t).worker = some a) (hpc : pc.worker = none)
    (htr : pc.inTransit = (s.thread t).inTransit) (hsh : pc.shutting = false) :
    Down cfg ((discardSlot a s j).setThread t pc) := by
  have hlive := h.live j a hj ha
  simp only [Pool.discardSlot, if_pos ha, workerProcessFree]
  refine ⟨h.stop, ?_, ?_, ?_, ?_, unique_update (s := s) h hsh, ?_, ?_⟩
  · intro k l b hk hl hkb hlb
    simp only [State.setThread_pool] at hkb hlb
    by_cases e : k = j
    · subst e
      rw [Function.update_self] at hkb
      cases hkb
    · by_cases e' : l = j
      · subst e'
        rw [Function.update_self] at hlb
        cases hlb
      · rw [Function.update_of_ne e] at hkb
        rw [Function.update_of_ne e'] at hlb
        exact h.inj k l b hk hl hkb hlb
  · intro k b hk hkb
    simp only [State.setThread_pool, State.setThread_heap] at hkb ⊢
    by_cases e : k = j
    · subst e
      rw [Function.update_self] at hkb
      cases hkb
    · rw [Function.update_of_ne e] at hkb
      have hba : b ≠ a := by
        rintro rfl
        exact e (h.inj k j b hk hj hkb ha)
      rw [Function.update_of_ne hba]
      exact h.live k b hk hkb
  · exact h.holders.giveUp h.inj ht hj ha hw (fun k hk => Function.update_of_ne hk _ _)
      (fun k hk => Function.update_of_ne hk _ _) (by simp) hpc
  · have hperm := h.permits
    simp only [State.setThread_pool, State.setThread_thread]
    rw [nrInTransit_same ht htr]
    exact hperm
  · intro t₁ k ht₁ hpc₁
    obtain ⟨hbusy, hnone⟩ := quiet_update (s := s) h hsh ht₁ hpc₁
    refine ⟨fun i hi => ?_, fun i hi hik => ?_⟩
    · simp only [State.setThread_pool]
      by_cases e : i = j
      · subst e
        rw [Function.update_self]
        intro h
        cases h
      · rw [Function.update_of_ne e]
        exact hbusy i hi
    · simp only [State.setThread_pool]
      by_cases e : i = j
      · subst e
        rw [Function.update_self]
      · rw [Function.update_of_ne e]
        exact hnone i hi hik
  · simp only [State.setThread_fault, h.fault, Bool.false_or]
    cases hheap : s.heap a with
    | none =>
      rw [hheap] at hlive
      cases hlive
    | some wp => rfl

/-- A live worker goes back to its slot. -/
theorem Down.returnSlot (h : Down cfg s) (ht : t < cfg.nrThreads) {j : Nat} {a : Ptr}
    (hj : j < cfg.maxNrProcesses) (ha : s.pool.worker j = some a)
    (hpc : s.thread t = .holding a) :
    Down cfg ({ s with
      pool := { s.pool with
        workerState := Function.update s.pool.workerState j .idle } }.setThread t .post) where
  stop := h.stop
  inj := h.inj
  live := h.live
  holders := h.holders.giveUp h.inj ht hj ha (by rw [hpc]; rfl) (fun _ _ => rfl)
    (fun k hk => Function.update_of_ne hk _ _) (by simp) rfl
  permits := by
    have hperm := h.permits
    simp only [State.setThread_pool, State.setThread_thread]
    rw [nrInTransit_same ht (by rw [hpc]; rfl)]
    exact hperm
  unique := unique_update (s := s) h rfl
  quiet t₁ k ht₁ hpc₁ := by
    obtain ⟨hbusy, hnone⟩ := quiet_update (s := s) h rfl ht₁ hpc₁
    refine ⟨fun i hi => ?_, hnone⟩
    simp only [State.setThread_pool]
    by_cases e : i = j
    · subst e
      rw [Function.update_self]
      intro h
      cases h
    · rw [Function.update_of_ne e]
      exact hbusy i hi
  fault := h.fault

theorem discardSlot_later (a : Ptr) (s : State) (j : Nat) :
    (Pool.discardSlot a s j).thread = s.thread ∧
      ∀ b, s.heap b = none → (Pool.discardSlot a s j).heap b = none := by
  unfold Pool.discardSlot
  split
  · refine ⟨rfl, fun b hb => ?_⟩
    show Function.update s.heap a none b = none
    by_cases e : b = a
    · rw [e, Function.update_self]
    · rw [Function.update_of_ne e, hb]
  · exact ⟨rfl, fun _ hb => hb⟩

/-- The critical section of a release. -/
theorem Down.release (h : Down cfg s) (ht : t < cfg.nrThreads)
    (h' : threadStep cfg.maxNrProcesses s t (.release t) = some s') :
    Down cfg s' ∧ Later s s' := by
  simp only [threadStep] at h'
  split at h'
  · rename_i a hpc
    obtain ⟨j, wp, hj, ha, hbusy, hwp, hinj⟩ := h.holder ht (a := a) (by rw [hpc]; rfl)
    have hfound := slotOf_eq hj ha hinj
    have hheap := h.heap a (workerProcessIsAlive wp).2
    simp only [processPoolReleaseWorker, hfound, hwp] at h'
    cases halive : (workerProcessIsAlive wp).1 with
    | true =>
      rw [halive] at h'
      cases h'
      exact ⟨hheap.returnSlot ht hj ha hpc, .setThread (fun _ => rfl) rfl (heap_update hwp)⟩
    | false =>
      rw [halive] at h'
      cases h'
      refine ⟨hheap.discardSlot ht hj ha (by rw [hpc]; rfl) rfl (by rw [hpc]; rfl) rfl, ?_⟩
      obtain ⟨hthread, hnone⟩ := discardSlot_later a
        { s with heap := Function.update s.heap a (some (workerProcessIsAlive wp).2) } j
      exact .setThread (fun _ => rfl) hthread fun b hb => hnone b (heap_update hwp b hb)
  · cases h'

/-- The critical section that discards a dead worker. -/
theorem Down.discard (h : Down cfg s) (ht : t < cfg.nrThreads)
    (h' : threadStep cfg.maxNrProcesses s t (.discard t) = some s') :
    Down cfg s' ∧ Later s s' := by
  simp only [threadStep] at h'
  split at h'
  · rename_i i a hpc
    obtain ⟨j, wp, hj, ha, -, -, hinj⟩ := h.holder ht (a := a) (by rw [hpc]; rfl)
    rw [foldl_discardSlot hj ha hinj] at h'
    cases h'
    have hnext : (nextTry cfg.maxNrProcesses i).worker = none ∧
        (nextTry cfg.maxNrProcesses i).inTransit = false ∧
        (nextTry cfg.maxNrProcesses i).shutting = false := by
      unfold nextTry
      split <;> exact ⟨rfl, rfl, rfl⟩
    obtain ⟨h1, h2, h3⟩ := hnext
    obtain ⟨hthread, hnone⟩ := discardSlot_later a s j
    exact ⟨h.discardSlot ht hj ha (by rw [hpc]; rfl) h1 (by rw [h2, hpc]; rfl) h3,
      .setThread (fun _ => h1) hthread hnone⟩
  · cases h'

/-! ## 4. The last loop -/

/-- Once no slot is busy, no thread has a worker. -/
theorem Down.no_holder (h : Down cfg s)
    (hbusy : ∀ i, i < cfg.maxNrProcesses → s.pool.workerState i ≠ .busy) {t : Nat}
    (ht : t < cfg.nrThreads) : (s.thread t).worker = none := by
  cases hw : (s.thread t).worker with
  | none => rfl
  | some a =>
    obtain ⟨j, hj, -, hb⟩ := h.holders.slot t a ht hw
    exact absurd hb (hbusy j hj)

/-- The thread in `process_pool_free` goes on. -/
theorem unique_shutting (h : Down cfg s) (ht : t < cfg.nrThreads)
    (hpc : (s.thread t).shutting = true) :
    ∀ t₁ t₂, t₁ < cfg.nrThreads → t₂ < cfg.nrThreads →
      (Function.update s.thread t pc t₁).shutting = true →
      (Function.update s.thread t pc t₂).shutting = true → t₁ = t₂ := by
  -- nobody else is in it
  have honly : ∀ t', t' < cfg.nrThreads →
      (Function.update s.thread t pc t').shutting = true → t' = t := by
    intro t' ht' h'
    by_contra e
    rw [Function.update_of_ne e] at h'
    exact e (h.unique t' t ht' ht h' hpc)
  intro t₁ t₂ ht₁ ht₂ h₁ h₂
  rw [honly t₁ ht₁ h₁, honly t₂ ht₂ h₂]

theorem Down.poll (h : Down cfg s) (ht : t < cfg.nrThreads) (hpc : s.thread t = .polling)
    (hbusy : ∀ i, i < cfg.maxNrProcesses → s.pool.workerState i ≠ .busy) :
    Down cfg (s.setThread t (.freeing 0)) where
  stop := h.stop
  inj := h.inj
  live := h.live
  holders := h.holders.move _ (by rw [hpc]; rfl)
  permits := by
    rw [State.setThread_thread, State.setThread_pool, nrInTransit_same ht (by rw [hpc]; rfl)]
    exact h.permits
  unique := unique_shutting h ht (by rw [hpc]; rfl)
  quiet t₁ j ht₁ hpc₁ := by
    rw [State.setThread_thread] at hpc₁
    by_cases e : t₁ = t
    · subst e
      rw [Function.update_self] at hpc₁
      cases hpc₁
      exact ⟨hbusy, fun i _ hi => absurd hi (Nat.not_lt_zero i)⟩
    · rw [Function.update_of_ne e] at hpc₁
      exact h.quiet t₁ j ht₁ hpc₁
  fault := h.fault

/-- One pass of the last loop. -/
theorem Down.freeSlot (h : Down cfg s) (ht : t < cfg.nrThreads) {j : Nat}
    (hpc : s.thread t = .freeing j) (hj : j < cfg.maxNrProcesses) :
    Down cfg ((freeSlot s j).setThread t (.freeing (j + 1))) := by
  obtain ⟨hbusy, hnone⟩ := h.quiet t j ht hpc
  have hnoHolder : ∀ t', t' < cfg.nrThreads →
      (Function.update s.thread t (.freeing (j + 1)) t').worker = none := by
    intro t' ht'
    by_cases e : t' = t
    · subst e
      rw [Function.update_self]
      rfl
    · rw [Function.update_of_ne e]
      exact h.no_holder hbusy ht'
  -- what the pass leaves in the slots
  have hslots : (Pool.freeSlot s j).pool = { s.pool with
      worker := Function.update s.pool.worker j none } := by
    unfold Pool.freeSlot
    split
    · rfl
    · rename_i hw
      rw [← hw, Function.update_eq_self]
  have hthread : (Pool.freeSlot s j).thread = s.thread := by
    unfold Pool.freeSlot
    split <;> rfl
  refine ⟨?_, ?_, ?_, ⟨?_, ?_, ?_⟩, ?_, ?_, ?_, ?_⟩
  · rw [State.setThread_pool, hslots]
    exact h.stop
  · intro k l b hk hl hkb hlb
    rw [State.setThread_pool, hslots] at hkb hlb
    by_cases e : k = j
    · subst e
      simp only [Function.update_self] at hkb
      cases hkb
    · by_cases e' : l = j
      · subst e'
        simp only [Function.update_self] at hlb
        cases hlb
      · simp only [Function.update_of_ne e] at hkb
        simp only [Function.update_of_ne e'] at hlb
        exact h.inj k l b hk hl hkb hlb
  · intro k b hk hkb
    rw [State.setThread_pool, hslots] at hkb
    by_cases e : k = j
    · subst e
      simp only [Function.update_self] at hkb
      cases hkb
    · simp only [Function.update_of_ne e] at hkb
      have hlive := h.live k b hk hkb
      rw [State.setThread_heap]
      unfold Pool.freeSlot
      split
      · rename_i w hw
        have hbw : b ≠ w := by
          rintro rfl
          exact e (h.inj k j b hk hj hkb hw)
        show (Function.update s.heap w none b).isSome = true
        rw [Function.update_of_ne hbw]
        exact hlive
      · exact hlive
  · intro t' a ht' hw
    rw [State.setThread_thread, hthread, hnoHolder t' ht'] at hw
    cases hw
  · intro t' t'' a ht' _ hw
    rw [State.setThread_thread, hthread, hnoHolder t' ht'] at hw
    cases hw
  · intro i hi hb
    rw [State.setThread_pool, hslots] at hb
    exact absurd hb (hbusy i hi)
  · rw [State.setThread_pool, State.setThread_thread, hslots, hthread,
      nrInTransit_same ht (by rw [hpc]; rfl)]
    exact h.permits
  · rw [State.setThread_thread, hthread]
    exact unique_shutting h ht (by rw [hpc]; rfl)
  · intro t₁ k ht₁ hpc₁
    rw [State.setThread_thread, hthread] at hpc₁
    rw [State.setThread_pool, hslots]
    refine ⟨hbusy, fun i hi hik => ?_⟩
    by_cases e : i = j
    · subst e
      exact Function.update_self ..
    · have ht₁t : t₁ = t := by
        by_contra ne
        rw [Function.update_of_ne ne] at hpc₁
        exact ne (h.unique t₁ t ht₁ ht (by rw [hpc₁]; rfl) (by rw [hpc]; rfl))
      subst ht₁t
      rw [Function.update_self] at hpc₁
      cases hpc₁
      show Function.update s.pool.worker j none i = none
      rw [Function.update_of_ne e]
      exact hnone i hi (by omega)
  · rw [State.setThread_fault]
    unfold Pool.freeSlot
    split
    · rename_i w hw
      have hlive := h.live j w hj hw
      show (s.fault || (s.heap w).isNone) = false
      cases hheap : s.heap w with
      | none =>
        rw [hheap] at hlive
        cases hlive
      | some wp => rw [h.fault]; rfl
    · exact h.fault

theorem freeSlot_later (s : State) (j : Nat) :
    (freeSlot s j).thread = s.thread ∧ ∀ b, s.heap b = none → (freeSlot s j).heap b = none := by
  unfold Pool.freeSlot
  split
  · rename_i w _
    refine ⟨rfl, fun b hb => ?_⟩
    show Function.update s.heap w none b = none
    by_cases e : b = w
    · rw [e, Function.update_self]
    · rw [Function.update_of_ne e, hb]
  · exact ⟨rfl, fun _ hb => hb⟩

/-! ## 5. Every step after a shutdown -/

/-- No process is started. -/
theorem processPoolStartWorker_stopped (hstop : s.pool.stop = true) (n : Nat) (new : Option Ptr) :
    processPoolStartWorker n s new = some s := by
  have hcond : ¬ (s.pool.nrProcessesRunning < n ∧ s.pool.stop = false) := by
    rw [hstop]
    exact fun h => Bool.noConfusion h.2
  simp only [processPoolStartWorker, if_neg hcond]

theorem Down.afterStart (h : Down cfg s) (ht : t < cfg.nrThreads) {i : Nat}
    (hpc : s.thread t = .startWorker i) (nrRunning : Int) :
    Down cfg (s.setThread t (afterStart nrRunning i)) ∧
      Later s (s.setThread t (afterStart nrRunning i)) := by
  unfold Pool.afterStart
  split <;>
    exact ⟨h.setThread ht (by rw [hpc]; rfl) (by rw [hpc]; rfl) rfl,
      .setThread (fun _ => rfl) rfl fun _ hb => hb⟩

/-- A get, up to its wait. -/
theorem Down.getStep (h : Down cfg s) (ht : t < cfg.nrThreads) {a : Action}
    (ha : a = .call t ∨ a = .getValue t ∨ ∃ new, a = .startWorker t new)
    (h' : threadStep cfg.maxNrProcesses s t a = some s') : Down cfg s' ∧ Later s s' := by
  rcases ha with rfl | rfl | ⟨new, rfl⟩
  · simp only [Pool.threadStep] at h'
    split at h'
    · rename_i hpc
      cases h'
      exact ⟨h.setThread ht (by rw [hpc]; rfl) (by rw [hpc]; rfl) rfl,
        .setThread (fun _ => rfl) rfl fun _ hb => hb⟩
    · cases h'
  · simp only [Pool.threadStep] at h'
    split at h'
    · rename_i i hpc
      cases h'
      split <;>
        exact ⟨h.setThread ht (by rw [hpc]; rfl) (by rw [hpc]; rfl) rfl,
          .setThread (fun _ => rfl) rfl fun _ hb => hb⟩
    · cases h'
  · simp only [Pool.threadStep, processPoolStartWorker_stopped h.stop] at h'
    split at h'
    · rename_i i hpc
      cases h'
      exact h.afterStart ht hpc _
    · cases h'
      exact ⟨h, .refl s⟩
    · cases h'

/-- A permit is taken, or given back. -/
theorem Down.permitStep (h : Down cfg s) (ht : t < cfg.nrThreads) {a : Action}
    (ha : a = .semWait t ∨ (∃ cb, a = .assign t cb) ∨ a = .post t)
    (h' : threadStep cfg.maxNrProcesses s t a = some s') : Down cfg s' ∧ Later s s' := by
  rcases ha with rfl | ⟨cb, rfl⟩ | rfl
  · simp only [Pool.threadStep] at h'
    split at h'
    · rename_i i hpc
      split at h'
      · rename_i hsem
        cases h'
        refine ⟨h.move (s.pool.sem - 1) (by rw [hpc]; rfl) ?_ rfl,
          .setThread (fun _ => rfl) rfl fun _ hb => hb⟩
        -- the permit is with the thread
        have hgain : nrInTransit (Function.update s.thread t (.lock i)) cfg.nrThreads =
            nrInTransit s.thread cfg.nrThreads + 1 :=
          nrInTransit_gain ht (by rw [hpc]; rfl) rfl
        omega
      · cases h'
    · cases h'
  · simp only [Pool.threadStep] at h'
    split at h'
    · rename_i i hpc
      rw [if_pos h.stop] at h'
      cases h'
      exact ⟨h.move (s.pool.sem + 1) (by rw [hpc]; rfl) (by omega) rfl,
        .setThread (fun _ => rfl) rfl fun _ hb => hb⟩
    · cases h'
  · simp only [Pool.threadStep] at h'
    split at h'
    all_goals first
      | cases h'; done
      | rename_i hpc
        cases h'
        refine ⟨h.move (s.pool.sem + 1) (by rw [hpc]; rfl) (by omega) rfl,
          .setThread (fun _ => rfl) rfl fun _ hb => hb⟩

/-- A worker is looked at. -/
theorem Down.checkStep (h : Down cfg s) (ht : t < cfg.nrThreads) {a : Action}
    (ha : a = .check t ∨ a = .notice t)
    (h' : threadStep cfg.maxNrProcesses s t a = some s') : Down cfg s' ∧ Later s s' := by
  rcases ha with rfl | rfl
  · simp only [Pool.threadStep] at h'
    split at h'
    · rename_i i a hpc
      obtain ⟨j, wp, -, -, -, hwp, -⟩ := h.holder ht (a := a) (by rw [hpc]; rfl)
      simp only [hwp, Option.some.injEq] at h'
      subst h'
      have hheap := h.heap a (workerProcessIsAlive wp).2
      have hhad : (s.thread t).worker ≠ none := by
        rw [hpc]
        exact Option.some_ne_none a
      split <;>
        exact ⟨hheap.setThread ht (by rw [hpc]; rfl) (by rw [hpc]; rfl) rfl,
          .setThread (fun hnone => absurd hnone hhad) rfl (heap_update hwp)⟩
    · cases h'
  · simp only [Pool.threadStep] at h'
    split at h'
    · rename_i a hpc
      obtain ⟨j, wp, -, -, -, hwp, -⟩ := h.holder ht (a := a) (by rw [hpc]; rfl)
      simp only [hwp, Option.some.injEq] at h'
      subst h'
      exact ⟨h.heap a _, fun _ ht' => ht', heap_update hwp⟩
    · cases h'

/-- The loops of `process_pool_free`. -/
theorem Down.freeStep (h : Down cfg s) (ht : t < cfg.nrThreads) {a : Action}
    (ha : a = .poll t ∨ a = .freeNext t)
    (h' : threadStep cfg.maxNrProcesses s t a = some s') : Down cfg s' ∧ Later s s' := by
  rcases ha with rfl | rfl
  · simp only [Pool.threadStep] at h'
    split at h'
    · rename_i hpc
      split at h'
      · cases h'
        exact ⟨h, .refl s⟩
      · rename_i hany
        cases h'
        refine ⟨h.poll ht hpc fun i hi hb => hany ?_,
          .setThread (fun _ => rfl) rfl fun _ hb => hb⟩
        exact List.any_eq_true.mpr ⟨i, List.mem_range.mpr hi, by rw [hb]; rfl⟩
    · cases h'
  · simp only [Pool.threadStep] at h'
    split at h'
    · rename_i j hpc
      split at h'
      · rename_i hj
        cases h'
        exact ⟨h.freeSlot ht hpc hj,
          .setThread (fun _ => rfl) (freeSlot_later s j).1 (freeSlot_later s j).2⟩
      · cases h'
        exact ⟨h.setThread ht (by rw [hpc]; rfl) (by rw [hpc]; rfl) rfl,
          .setThread (fun _ => rfl) rfl fun _ hb => hb⟩
    · cases h'

/-- A step of a thread. -/
theorem Down.threadStep (h : Down cfg s) (ht : t < cfg.nrThreads) {a : Action}
    (ha : a.thread? = some t) (hne : ∀ t, a ≠ .stop t)
    (h' : threadStep cfg.maxNrProcesses s t a = some s') : Down cfg s' ∧ Later s s' := by
  have hthread : ∀ {t' : Nat}, some t' = some t → t' = t := Option.some.inj
  cases a with
  | call t' => exact h.getStep ht (.inl (by rw [hthread ha])) h'
  | getValue t' => exact h.getStep ht (.inr (.inl (by rw [hthread ha]))) h'
  | startWorker t' new => exact h.getStep ht (.inr (.inr ⟨new, by rw [hthread ha]⟩)) h'
  | semWait t' => exact h.permitStep ht (.inl (by rw [hthread ha])) h'
  | assign t' cb => exact h.permitStep ht (.inr (.inl ⟨cb, by rw [hthread ha]⟩)) h'
  | post t' => exact h.permitStep ht (.inr (.inr (by rw [hthread ha]))) h'
  | check t' => exact h.checkStep ht (.inl (by rw [hthread ha])) h'
  | notice t' => exact h.checkStep ht (.inr (by rw [hthread ha])) h'
  | discard t' => exact h.discard ht h'
  | release t' => exact h.release ht h'
  | stop t' => exact absurd rfl (hne t')
  | poll t' => exact h.freeStep ht (.inl (by rw [hthread ha])) h'
  | freeNext t' => exact h.freeStep ht (.inr (by rw [hthread ha])) h'
  | die w => cases h'

/-- **Every step after a shutdown** keeps the invariant, hands out no worker and allocates no
struct. -/
theorem Down.step (h : Down cfg s) {a : Action} (hne : ∀ t, a ≠ .stop t)
    (h' : exec cfg s a = some s') : Down cfg s' ∧ Later s s' := by
  unfold exec at h'
  split at h'
  · split at h'
    · rename_i t hthread ht
      exact h.threadStep ht hthread hne h'
    · cases h'
  · split at h'
    · split at h'
      · rename_i wp hwp
        split at h'
        · cases h'
          exact ⟨h.heap _ _, fun _ ht => ht, heap_update hwp⟩
        · cases h'
      · cases h'
    · cases h'

/-! ## 6. The step that shuts the pool down -/

theorem heap_processPoolStop (n : Nat) (s : State) (a : Ptr) :
    ((processPoolStop n s).heap a).isSome = (s.heap a).isSome := by
  show (if _ then (s.heap a).map workerProcessKill else s.heap a).isSome = _
  split
  · exact Option.isSome_map
  · rfl

/-- **The shutdown starts the invariant**, wherever the other threads are. -/
theorem Inv.shutDown (h : Inv cfg s) (ht : t < cfg.nrThreads) (hpc : s.thread t = .outside) :
    Down cfg ((processPoolStop cfg.maxNrProcesses s).setThread t .polling) where
  stop := rfl
  inj := h.slots.inj
  live i a hi ha := by
    rw [State.setThread_heap, heap_processPoolStop]
    exact h.slots.live i a hi ha
  holders := by
    have hm := h.holders.move (t := t) .polling (by rw [hpc]; rfl)
    exact ⟨hm.slot, hm.excl, hm.busy⟩
  permits := by
    show 1 ≤ s.pool.sem + 1 + _
    omega
  unique t₁ t₂ ht₁ ht₂ h₁ h₂ := by
    -- nobody else is in `process_pool_free`
    have honly : ∀ t', t' < cfg.nrThreads →
        (Function.update s.thread t .polling t').shutting = true → t' = t := by
      intro t' ht' h'
      by_contra e
      rw [Function.update_of_ne e] at h'
      have hex := h.excluded t' ht'
      cases hpc' : s.thread t' with
      | polling =>
        rw [hpc'] at hex
        cases hex
      | freeing j =>
        rw [hpc'] at hex
        cases hex
      | _ =>
        rw [hpc'] at h'
        cases h'
    rw [honly t₁ ht₁ h₁, honly t₂ ht₂ h₂]
  quiet t₁ j ht₁ hpc₁ := by
    rw [State.setThread_thread] at hpc₁
    by_cases e : t₁ = t
    · subst e
      rw [Function.update_self] at hpc₁
      cases hpc₁
    · rw [Function.update_of_ne e] at hpc₁
      have hex := h.excluded t₁ ht₁
      rw [show s.thread t₁ = .freeing j from hpc₁] at hex
      cases hex
  fault := h.fault

/-! ## 7. No struct is lost -/

theorem Owned.mono (h : Owned cfg s)
    (hheap : ∀ a, (s'.heap a).isSome = true → (s.heap a).isSome = true)
    (hworker : s'.pool.worker = s.pool.worker) : Owned cfg s' := by
  intro a ha
  rw [hworker]
  exact h a (hheap a ha)

theorem Owned.heap (h : Owned cfg s) {a : Ptr} {w wp : WorkerProcess} (hw : s.heap a = some w) :
    Owned cfg { s with heap := Function.update s.heap a (some wp) } := by
  refine h.mono (fun b hb => ?_) rfl
  by_cases e : b = a
  · rw [e, hw]
    rfl
  · have hsame : Function.update s.heap a (some wp) b = s.heap b := Function.update_of_ne e _ _
    rw [← hsame]
    exact hb

/-- The slot of a freed struct is emptied. -/
theorem Owned.clear (h : Owned cfg s) {a : Ptr} {j : Nat} (ha : s.pool.worker j = some a)
    (hheap : s'.heap = Function.update s.heap a none)
    (hworker : s'.pool.worker = Function.update s.pool.worker j none) : Owned cfg s' := by
  intro b hb
  rw [hheap] at hb
  by_cases e : b = a
  · rw [e, Function.update_self] at hb
    cases hb
  · rw [Function.update_of_ne e] at hb
    obtain ⟨i, hi, hib⟩ := h b hb
    refine ⟨i, hi, ?_⟩
    have hij : i ≠ j := by
      rintro rfl
      rw [ha, Option.some.injEq] at hib
      exact e hib.symm
    rw [hworker, Function.update_of_ne hij]
    exact hib

theorem Owned.discardSlot (h : Owned cfg s) (a : Ptr) (j : Nat) :
    Owned cfg (discardSlot a s j) := by
  unfold Pool.discardSlot
  split
  · rename_i ha
    exact h.clear ha rfl rfl
  · exact h

theorem Owned.foldl_discardSlot (a : Ptr) (l : List Nat) :
    ∀ s, Owned cfg s → Owned cfg (l.foldl (Pool.discardSlot a) s) := by
  induction l with
  | nil => exact fun _ h => h
  | cons j l ih => exact fun s h => ih _ (h.discardSlot a j)

theorem Owned.freeSlot (h : Owned cfg s) (j : Nat) : Owned cfg (freeSlot s j) := by
  unfold Pool.freeSlot
  split
  · rename_i w hw
    exact h.clear hw rfl rfl
  · exact h

theorem Owned.release (h : Owned cfg s) (a : Ptr) :
    Owned cfg (processPoolReleaseWorker cfg.maxNrProcesses s a).1 := by
  unfold processPoolReleaseWorker
  split
  · exact h
  · split
    · exact h
    · rename_i wp hwp
      simp only
      split
      · exact (h.heap hwp).mono (fun _ hb => hb) rfl
      · exact (h.heap hwp).discardSlot a _

/-- A new struct goes into an empty slot. -/
theorem Owned.startWorker (h : Owned cfg s) {new : Option Ptr}
    (hempty : s.pool.stop = false →
      ∀ i, i < cfg.maxNrProcesses → s.pool.workerState i = .stopped → s.pool.worker i = none)
    (h' : processPoolStartWorker cfg.maxNrProcesses s new = some s') : Owned cfg s' := by
  simp only [processPoolStartWorker] at h'
  split at h'
  · rename_i hcond
    split at h'
    · rename_i i hfind
      have hi : i < cfg.maxNrProcesses := List.mem_range.mp (List.mem_of_find?_eq_some hfind)
      have hnone : s.pool.worker i = none :=
        hempty hcond.2 i hi (by simpa using List.find?_some hfind)
      -- what was in the other slots stays there
      have hkeep : ∀ (w : Option Ptr) (b : Ptr), (s.heap b).isSome = true →
          ∃ k, k < cfg.maxNrProcesses ∧ Function.update s.pool.worker i w k = some b := by
        intro w b hb
        obtain ⟨k, hk, hkb⟩ := h b hb
        have hki : k ≠ i := by
          rintro rfl
          rw [hnone] at hkb
          cases hkb
        exact ⟨k, hk, by rw [Function.update_of_ne hki]; exact hkb⟩
      split at h'
      · rename_i a
        split at h'
        · cases h'
        · cases h'
          intro b hb
          by_cases e : b = a
          · exact ⟨i, hi, by rw [e]; exact Function.update_self ..⟩
          · exact hkeep _ b ((congrArg Option.isSome (Function.update_of_ne e _ _)).symm.trans hb)
      · cases h'
        exact fun b hb => hkeep _ b hb
    · cases h'
      exact h
  · cases h'
    exact h

theorem owned_exec (h : Owned cfg s) {a : Action}
    (hempty : s.pool.stop = false →
      ∀ i, i < cfg.maxNrProcesses → s.pool.workerState i = .stopped → s.pool.worker i = none)
    (h' : exec cfg s a = some s') : Owned cfg s' := by
  have hsame : ∀ {s₁ : State}, s₁.heap = s.heap → s₁.pool.worker = s.pool.worker →
      Owned cfg s₁ := fun hheap hworker =>
    h.mono (fun b hb => by rw [← hheap]; exact hb) hworker
  cases a with
  | startWorker t new =>
    simp only [exec, Action.thread?, Pool.threadStep] at h'
    repeat' split at h'
    · obtain ⟨s₁, hs₁, rfl⟩ := Option.map_eq_some_iff.mp h'
      exact (h.startWorker hempty hs₁).mono (fun _ hb => hb) rfl
    · exact h.startWorker hempty h'
    all_goals cases h'
  | assign t cb =>
    simp only [exec, Action.thread?, Pool.threadStep] at h'
    repeat' split at h'
    all_goals cases h'
    all_goals exact hsame rfl rfl
  | check t =>
    simp only [exec, Action.thread?, Pool.threadStep] at h'
    split at h'
    · split at h'
      · split at h'
        · cases h'
          exact hsame rfl rfl
        · rename_i hwp
          cases h'
          exact (h.heap hwp).mono (fun _ hb => hb) rfl
      · cases h'
    · cases h'
  | discard t =>
    simp only [exec, Action.thread?, Pool.threadStep] at h'
    repeat' split at h'
    all_goals cases h'
    exact (Owned.foldl_discardSlot _ _ s h).mono (fun _ hb => hb) rfl
  | release t =>
    simp only [exec, Action.thread?, Pool.threadStep] at h'
    repeat' split at h'
    all_goals cases h'
    all_goals exact (h.release _).mono (fun _ hb => hb) rfl
  | notice t =>
    simp only [exec, Action.thread?, Pool.threadStep] at h'
    split at h'
    · split at h'
      · split at h'
        · cases h'
          exact hsame rfl rfl
        · rename_i hwp
          cases h'
          exact h.heap hwp
      · cases h'
    · cases h'
  | stop t =>
    simp only [exec, Action.thread?, Pool.threadStep] at h'
    repeat' split at h'
    all_goals cases h'
    exact h.mono (fun b hb => by rw [← heap_processPoolStop cfg.maxNrProcesses s b]; exact hb) rfl
  | freeNext t =>
    simp only [exec, Action.thread?, Pool.threadStep] at h'
    repeat' split at h'
    all_goals cases h'
    · exact (h.freeSlot _).mono (fun _ hb => hb) rfl
    · exact hsame rfl rfl
  | die w =>
    simp only [exec, Action.thread?] at h'
    split at h'
    · rename_i wp hwp
      split at h'
      · cases h'
        exact h.heap hwp
      · cases h'
    · cases h'
  | _ =>
    simp only [exec, Action.thread?, Pool.threadStep] at h'
    repeat' split at h'
    all_goals cases h'
    all_goals exact hsame rfl rfl

/-! ## 8. Whole runs -/

/-- A call of `process_pool_free`. -/
def Action.isStop : Action → Bool
  | .stop _ => true
  | _ => false

/-- What holds after every run with at most one call of `process_pool_free`. -/
structure RunInv (cfg : Config) (tr : List Action) (s : State) : Prop where
  owned : Owned cfg s
  up : s.pool.stop = false → Inv cfg s
  down : s.pool.stop = true → Down cfg s ∧ 1 ≤ tr.countP Action.isStop

theorem RunInv.empty {tr : List Action} (h : RunInv cfg tr s) (hstop : s.pool.stop = false) :
    ∀ i, i < cfg.maxNrProcesses → s.pool.workerState i = .stopped → s.pool.worker i = none :=
  fun i hi hst => ((h.up hstop).slots.stopped i hi).mp hst

theorem runInv_step {tr : List Action} {a : Action} (h : RunInv cfg tr s)
    (hone : (tr ++ [a]).countP Action.isStop ≤ 1) (h' : exec cfg s a = some s') :
    RunInv cfg (tr ++ [a]) s' := by
  have howned := owned_exec h.owned h.empty h'
  have hcount : (tr ++ [a]).countP Action.isStop =
      tr.countP Action.isStop + if a.isStop then 1 else 0 := by
    rw [List.countP_append, List.countP_singleton]
  cases hstop : s.pool.stop with
  | true =>
    obtain ⟨hdown, hpos⟩ := h.down hstop
    -- it has been called already
    have hne : ∀ t, a ≠ .stop t := by
      rintro t rfl
      rw [hcount, if_pos (show (Action.stop t).isStop = true from rfl)] at hone
      omega
    have hdown' := (hdown.step hne h').1
    refine ⟨howned, fun hup => ?_, fun _ => ⟨hdown', by omega⟩⟩
    rw [hdown'.stop] at hup
    cases hup
  | false =>
    have hinv := h.up hstop
    by_cases hstopped : ∃ t, a = .stop t
    · obtain ⟨t, rfl⟩ := hstopped
      have hcalled : 1 ≤ (tr ++ [Action.stop t]).countP Action.isStop := by
        rw [hcount, if_pos (show (Action.stop t).isStop = true from rfl)]
        omega
      simp only [exec, Action.thread?, Pool.threadStep] at h'
      split at h'
      · rename_i ht
        split at h'
        · rename_i hpc
          cases h'
          exact ⟨howned, (by intro h; cases h), fun _ => ⟨hinv.shutDown ht hpc, hcalled⟩⟩
        · cases h'
      · cases h'
    · have hne : ∀ t, a ≠ .stop t := fun t e => hstopped ⟨t, e⟩
      have hsame : s'.pool.stop = false := by
        rcases exec_stop h' with e | ⟨t, e⟩
        · rw [e, hstop]
        · exact absurd e (hne t)
      refine ⟨howned, fun _ => hinv.step hstop hne h', fun hdown => ?_⟩
      rw [hsame] at hdown
      cases hdown

theorem runInv_run {tr : List Action} (hrun : (machine cfg).run tr = some s)
    (hone : tr.countP Action.isStop ≤ 1) : RunInv cfg tr s := by
  refine (machine cfg).run_induction
    (I := fun tr s => tr.countP Action.isStop ≤ 1 → RunInv cfg tr s) ?_ ?_ tr s hrun hone
  · exact fun _ => ⟨(by intro _ h; cases h), fun _ => inv_start cfg, (by intro h; cases h)⟩
  · intro tr s a s' _ ih h' hone'
    have hprev : tr.countP Action.isStop ≤ 1 := by
      rw [List.countP_append] at hone'
      omega
    exact runInv_step (ih hprev) hone' h'

/-- What holds of a pool that is being shut down, or has been:

* no step hands out a worker or starts a process;
* the permits and the threads in transit are at least one, and a thread in transit gives its permit
  back, so a thread at the semaphore gets one or another is about to post;
* `process_pool_free` frees only when no slot is busy and no thread has a worker, and all structs
  are freed when it is done;
* nothing has been freed twice or used after it was freed, and what a thread has is allocated. -/
structure ShutdownSafe (cfg : Config) (s : State) : Prop where
  later : ∀ a s', (∀ t, a ≠ .stop t) → exec cfg s a = some s' → Later s s'
  permits : 1 ≤ s.pool.sem + nrInTransit s.thread cfg.nrThreads
  passesOn : ∀ t i cb s', s.thread t = .lock i → exec cfg s (.assign t cb) = some s' →
    s'.pool.sem = s.pool.sem + 1 ∧ s'.thread t = .outside
  notBlocked : ∀ t i, t < cfg.nrThreads → s.thread t = .wait i →
    (machine cfg).Enabled s (.semWait t) ∨
      ∃ t' i', t' < cfg.nrThreads ∧ s.thread t' = .lock i' ∧
        (machine cfg).Enabled s (.assign t' none)
  freeing : ∀ t j, t < cfg.nrThreads → s.thread t = .freeing j →
    (∀ i, i < cfg.maxNrProcesses → s.pool.workerState i ≠ .busy) ∧
      ∀ t', t' < cfg.nrThreads → (s.thread t').worker = none
  freed : ∀ t j, t < cfg.nrThreads → s.thread t = .freeing j → cfg.maxNrProcesses ≤ j →
    ∀ a, s.heap a = none
  held : ∀ t a, t < cfg.nrThreads → (s.thread t).worker = some a → (s.heap a).isSome = true
  fault : s.fault = false

/-- **The shutdown is safe** against every number of clients, in every interleaving with one call
of `process_pool_free`. -/
theorem shutdown_safe (cfg : Config) (tr : List Action) (s : State)
    (hrun : (machine cfg).run tr = some s) (hone : tr.countP Action.isStop ≤ 1)
    (hstop : s.pool.stop = true) : ShutdownSafe cfg s := by
  have hinv := runInv_run hrun hone
  obtain ⟨hdown, -⟩ := hinv.down hstop
  refine ⟨fun a s' hne h' => (hdown.step hne h').2, hdown.permits, ?_, ?_, ?_, ?_, ?_,
    hdown.fault⟩
  · intro t i cb s' hpc h'
    simp only [exec, Action.thread?, Pool.threadStep, hpc, if_pos hstop] at h'
    split at h'
    · cases h'
      exact ⟨rfl, Function.update_self ..⟩
    · cases h'
  · intro t i ht hpc
    by_cases hsem : 0 < s.pool.sem
    · left
      simp [Machine.Enabled, machine, exec, Action.thread?, Pool.threadStep, ht, hpc, hsem]
    · right
      have hperm := hdown.permits
      have hpos : nrInTransit s.thread cfg.nrThreads ≠ 0 := by omega
      obtain ⟨t', ht', hin⟩ := Nat.count_ne_iff_exists.mp hpos
      cases hpc' : s.thread t' with
      | lock i' =>
        refine ⟨t', i', ht', hpc', ?_⟩
        simp [Machine.Enabled, machine, exec, Action.thread?, Pool.threadStep, ht', hpc', hstop]
      | _ =>
        rw [hpc'] at hin
        cases hin
  · intro t j ht hpc
    obtain ⟨hbusy, -⟩ := hdown.quiet t j ht hpc
    exact ⟨hbusy, fun t' ht' => hdown.no_holder hbusy ht'⟩
  · intro t j ht hpc hj a
    obtain ⟨-, hnone⟩ := hdown.quiet t j ht hpc
    cases ha : s.heap a with
    | none => rfl
    | some wp =>
      obtain ⟨i, hi, hia⟩ := hinv.owned a (by rw [ha]; rfl)
      rw [hnone i hi (by omega)] at hia
      cases hia
  · intro t a ht hw
    obtain ⟨j, wp, -, -, -, hwp, -⟩ := hdown.holder ht hw
    rw [hwp]
    rfl

/-- Two slots, three threads. -/
def twoSlots : Config := { maxNrProcesses := 2, nrThreads := 3 }

/-- Thread 0 has a worker and thread 1 is on its way to the semaphore when thread 2 shuts the pool
down; the worker of thread 0 dies. -/
def stopUnderway : List Action :=
  [.call 0, .getValue 0, .startWorker 0 (some 0), .semWait 0, .assign 0 none, .check 0,
    .startWorker 1 (some 1), .call 1, .getValue 1, .stop 2, .die 0, .poll 2, .semWait 1,
    .assign 1 none, .notice 0, .release 0, .poll 2, .freeNext 2, .freeNext 2]

theorem stopUnderway_end : ((machine twoSlots).run stopUnderway).map
    (fun s => (s.thread 1, s.thread 2, s.pool.stop)) = some (.outside, .freeing 2, true) := by
  decide +kernel

theorem shutdown_safe_stopUnderway : ∃ s, (machine twoSlots).run stopUnderway = some s ∧
    s.fault = false ∧ ∀ a, s.heap a = none := by
  obtain ⟨s, hrun, hs⟩ := Option.map_eq_some_iff.mp stopUnderway_end
  simp only [Prod.mk.injEq] at hs
  obtain ⟨-, hpc, hstop⟩ := hs
  have hsafe := shutdown_safe twoSlots stopUnderway s hrun (by decide) hstop
  exact ⟨s, hrun, hsafe.fault, hsafe.freed 2 2 (by decide) hpc (by decide)⟩

end HdfStream.Pool
