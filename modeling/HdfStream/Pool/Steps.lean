/-
# The critical sections preserve the invariant

Section 1 says what the loops of the pool compute: the search finds an idle slot if there is
one (`highScoreIndex_spec`), a release finds the slot of its worker, and the discarding loop
empties that slot only (`foldl_discardSlot`).  Section 2 has one lemma for each way a slot
changes hands; section 3 puts them together for every step before a shutdown.
-/
import HdfStream.Pool.Invariant
import HdfStream.Lib.Memory

namespace HdfStream.Pool

open Counting Memory

variable {cfg : Config} {s s' : State} {t n : Nat} {pc : ThreadPc}

/-! ## 1. What the loops compute -/

/-- The search looks at every slot, and at nothing else. -/
theorem mem_searchOrder {next j : Nat} : j ∈ searchOrder n next ↔ j < n := by
  unfold searchOrder
  rw [List.mem_map]
  constructor
  · rintro ⟨i, hi, rfl⟩
    exact Nat.mod_lt _ (by have := List.mem_range.mp hi; omega)
  · intro hj
    obtain ⟨b, hb, hb', rfl⟩ := window_exists next hj
    refine ⟨b - next, List.mem_range.mpr (by omega), ?_⟩
    rw [Nat.sub_add_cancel hb]

/-- What a pass over some slots leaves as the best: an idle one of them, or what was the best
before; and something, once an idle slot was seen. -/
theorem foldl_scoreStep (p : ProcessPool) (cb : Option Ptr → Nat) (l : List Nat) :
    ∀ best : Option Nat × Int, (best.1 = none → best.2 = -1) →
      (∀ j, (l.foldl (scoreStep p cb) best).1 = some j →
        best.1 = some j ∨ (j ∈ l ∧ p.workerState j = .idle)) ∧
      ((∃ j ∈ l, p.workerState j = .idle) ∨ best.1.isSome = true →
        (l.foldl (scoreStep p cb) best).1.isSome = true) := by
  induction l with
  | nil =>
    intro best _
    refine ⟨fun j hj => Or.inl hj, ?_⟩
    rintro (⟨j, hj, -⟩ | h)
    · exact absurd hj (by simp)
    · exact h
  | cons k l ih =>
    intro best hbest
    rw [List.foldl_cons]
    by_cases hk : p.workerState k = .idle
    · by_cases hgt : (cb (p.worker k) : Int) > best.2
      · -- `k` is the new best
        have hstep : scoreStep p cb best k = (some k, (cb (p.worker k) : Int)) := by
          simp only [scoreStep, if_pos hk, if_pos hgt]
        rw [hstep]
        obtain ⟨h1, h2⟩ := ih (some k, (cb (p.worker k) : Int)) (by simp)
        refine ⟨fun j hj => ?_, fun _ => h2 (Or.inr rfl)⟩
        rcases h1 j hj with hj' | ⟨hj', hidle⟩
        · rw [Option.some.injEq] at hj'
          subst hj'
          exact Or.inr ⟨List.mem_cons_self, hk⟩
        · exact Or.inr ⟨List.mem_cons_of_mem _ hj', hidle⟩
      · -- the best before is at least as good, so there is one
        have hstep : scoreStep p cb best k = best := by
          simp only [scoreStep, if_pos hk, if_neg hgt]
        rw [hstep]
        obtain ⟨h1, h2⟩ := ih best hbest
        refine ⟨fun j hj => ?_, fun _ => h2 (Or.inr ?_)⟩
        · rcases h1 j hj with hj' | ⟨hj', hidle⟩
          · exact Or.inl hj'
          · exact Or.inr ⟨List.mem_cons_of_mem _ hj', hidle⟩
        · cases hb : best.1 with
          | none =>
            have := hbest hb
            omega
          | some b => rfl
    · have hstep : scoreStep p cb best k = best := by
        simp only [scoreStep, if_neg hk]
      rw [hstep]
      obtain ⟨h1, h2⟩ := ih best hbest
      refine ⟨fun j hj => ?_, fun h => h2 ?_⟩
      · rcases h1 j hj with hj' | ⟨hj', hidle⟩
        · exact Or.inl hj'
        · exact Or.inr ⟨List.mem_cons_of_mem _ hj', hidle⟩
      · rcases h with ⟨j, hj, hidle⟩ | h
        · rcases List.mem_cons.mp hj with rfl | hj'
          · exact absurd hidle hk
          · exact Or.inl ⟨j, hj', hidle⟩
        · exact Or.inr h

/-- **The search finds an idle slot if there is one.** -/
theorem highScoreIndex_spec (p : ProcessPool) (cb : Option (Option Ptr → Nat))
    (h : ∃ j, j < n ∧ p.workerState j = .idle) :
    ∃ j, highScoreIndex n p cb = some j ∧ j < n ∧ p.workerState j = .idle := by
  obtain ⟨j, hj, hidle⟩ := h
  have hmem : j ∈ searchOrder n p.next := mem_searchOrder.mpr hj
  cases cb with
  | none =>
    unfold highScoreIndex
    cases hf : (searchOrder n p.next).find? (fun j => p.workerState j == .idle) with
    | none =>
      have := List.find?_eq_none.mp hf j hmem
      simp [hidle] at this
    | some k =>
      have hk := List.find?_some hf
      exact ⟨k, rfl, mem_searchOrder.mp (List.mem_of_find?_eq_some hf), by simpa using hk⟩
  | some cb =>
    unfold highScoreIndex
    obtain ⟨h1, h2⟩ := foldl_scoreStep p cb (searchOrder n p.next) (none, -1) (fun _ => rfl)
    obtain ⟨k, hk⟩ := Option.isSome_iff_exists.mp (h2 (Or.inl ⟨j, hmem, hidle⟩))
    refine ⟨k, hk, ?_⟩
    rcases h1 k hk with hk' | ⟨hk', hidle'⟩
    · exact absurd hk' (by simp)
    · exact ⟨mem_searchOrder.mp hk', hidle'⟩

/-- A worker that is in a slot is found. -/
theorem slotOf_eq {p : ProcessPool} {w : Ptr} {j : Nat} (hj : j < n) (hw : p.worker j = some w)
    (hinj : ∀ i, i < n → p.worker i = some w → i = j) : slotOf n p w = some j := by
  unfold slotOf
  cases hf : (List.range n).find? (fun i => p.worker i == some w) with
  | none =>
    have := List.find?_eq_none.mp hf j (List.mem_range.mpr hj)
    simp [hw] at this
  | some k =>
    have hk := List.find?_some hf
    rw [hinj k (List.mem_range.mp (List.mem_of_find?_eq_some hf)) (by simpa using hk)]

/-- **The discarding loop empties one slot**, the one that holds the worker. -/
theorem foldl_discardSlot {w : Ptr} {j : Nat} (hj : j < n)
    (hw : s.pool.worker j = some w) (hinj : ∀ i, i < n → s.pool.worker i = some w → i = j) :
    (List.range n).foldl (discardSlot w) s = discardSlot w s j := by
  -- up to slot `m` the loop has emptied `j` if it has passed it
  have key : ∀ m, m ≤ n → (List.range m).foldl (discardSlot w) s =
      if j < m then discardSlot w s j else s := by
    intro m
    induction m with
    | zero => intro _; rfl
    | succ m ih =>
      intro hm
      rw [List.range_succ, List.foldl_append, List.foldl_cons, List.foldl_nil, ih (by omega)]
      by_cases hjm : j < m
      · rw [if_pos hjm, if_pos (by omega)]
        have hne : (discardSlot w s j).pool.worker m ≠ some w := by
          intro e
          simp only [discardSlot, if_pos hw, workerProcessFree] at e
          rw [Function.update_of_ne (by omega)] at e
          have := hinj m (by omega) e
          omega
        rw [discardSlot, if_neg hne]
      · rw [if_neg hjm]
        by_cases hjm' : j = m
        · subst hjm'
          rw [if_pos (by omega)]
        · rw [if_neg (by omega), discardSlot, if_neg]
          intro e
          exact hjm' (hinj m (by omega) e).symm
  rw [key n (le_refl n), if_pos hj]

/-! ## 2. How slots change hands -/

theorem SlotsInv.heap {p : ProcessPool} {heap : Ptr → Option WorkerProcess}
    (h : SlotsInv n p heap) (a : Ptr) (wp : WorkerProcess) :
    SlotsInv n p (Function.update heap a (some wp)) where
  stopped := h.stopped
  inj := h.inj
  live i b hi hb := by
    by_cases e : b = a
    · subst e
      rw [Function.update_self]
      rfl
    · rw [Function.update_of_ne e]
      exact h.live i b hi hb

/-- A struct changes, and stays allocated. -/
theorem Inv.heap (h : Inv cfg s) (a : Ptr) (wp : WorkerProcess) :
    Inv cfg { s with heap := Function.update s.heap a (some wp) } :=
  ⟨h.slots.heap a wp, h.holders, h.running, h.permits, h.excluded, h.fault⟩

/-- A permit is taken: the thread is in transit. -/
theorem Inv.semWait (h : Inv cfg s) (ht : t < cfg.nrThreads) {i : Nat}
    (hpc : s.thread t = .wait i) (hsem : 0 < s.pool.sem) :
    Inv cfg ({ s with pool := { s.pool with sem := s.pool.sem - 1 } }.setThread t (.lock i)) where
  slots := ⟨h.slots.stopped, h.slots.inj, h.slots.live⟩
  holders :=
    have hm := h.holders.move (.lock i) (by rw [hpc]; rfl)
    ⟨hm.slot, hm.excl, hm.busy⟩
  running := h.running
  permits := by
    have hperm := h.permits
    simp only [State.setThread_thread, State.setThread_pool]
    rw [nrInTransit_gain ht (by rw [hpc]; rfl) rfl, nrPosting_same ht (by rw [hpc]; rfl)]
    omega
  excluded := h.excluded_update rfl
  fault := h.fault

/-- The post of a release. -/
theorem Inv.post (h : Inv cfg s) (ht : t < cfg.nrThreads) (hpc : s.thread t = .post) :
    Inv cfg ({ s with pool := { s.pool with sem := s.pool.sem + 1 } }.setThread t .outside) where
  slots := ⟨h.slots.stopped, h.slots.inj, h.slots.live⟩
  holders :=
    have hm := h.holders.move .outside (by rw [hpc]; rfl)
    ⟨hm.slot, hm.excl, hm.busy⟩
  running := h.running
  permits := by
    have hperm := h.permits
    have hlose := nrPosting_lose s.thread .outside ht (by rw [hpc]; rfl) rfl
    simp only [State.setThread_thread, State.setThread_pool]
    rw [nrInTransit_same ht (by rw [hpc]; rfl)]
    omega
  excluded := h.excluded_update rfl
  fault := h.fault

/-- A thread in transit finds an idle slot. -/
theorem Inv.idle_of_lock (h : Inv cfg s) (ht : t < cfg.nrThreads) {i : Nat}
    (hpc : s.thread t = .lock i) :
    ∃ j, j < cfg.maxNrProcesses ∧ s.pool.workerState j = .idle := by
  have hpos : nrInTransit s.thread cfg.nrThreads ≠ 0 :=
    Nat.count_ne_iff_exists.mpr ⟨t, ht, by rw [hpc]; rfl⟩
  have hperm := h.permits
  refine Nat.count_ne_iff_exists.mp (?_ : nrIdle s.pool.workerState cfg.maxNrProcesses ≠ 0)
  omega

/-- The callback never reads a struct that is not allocated. -/
theorem SlotsInv.scoresDead (h : SlotsInv n s.pool s.heap) : scoresDead n s = false := by
  rw [Pool.scoresDead, List.any_eq_false]
  intro j hj
  rw [List.mem_range] at hj
  simp only [Bool.and_eq_true, beq_iff_eq, not_and, Bool.not_eq_true]
  intro hidle
  cases hw : s.pool.worker j with
  | none => exact absurd ((h.stopped j hj).mpr hw) (by simp [hidle])
  | some a =>
    have := h.live j a hj hw
    rw [Option.bind_some]
    cases ha : s.heap a with
    | none => rw [ha] at this; exact absurd this (by simp)
    | some wp => rfl

/-- **A thread in transit gets an idle worker.** -/
theorem Inv.assignSlot (h : Inv cfg s) (ht : t < cfg.nrThreads) {i j : Nat}
    (hpc : s.thread t = .lock i) (hj : j < cfg.maxNrProcesses)
    (hidle : s.pool.workerState j = .idle) {a : Ptr} (ha : s.pool.worker j = some a) (next : Nat) :
    Inv cfg ({ s with
      pool := { s.pool with
        workerState := Function.update s.pool.workerState j .busy
        next := next } }.setThread t (.check i a)) where
  slots := by
    refine ⟨fun k hk => ?_, h.slots.inj, h.slots.live⟩
    by_cases e : k = j
    · subst e
      simp [ha]
    · simp only [State.setThread_pool]
      rw [Function.update_of_ne e]
      exact h.slots.stopped k hk
  holders := by
    have hnone : (s.thread t).worker = none := by rw [hpc]; rfl
    -- an idle slot belongs to no thread
    have hfree : ∀ t', t' < cfg.nrThreads → (s.thread t').worker ≠ some a := by
      intro t' ht' hw
      obtain ⟨k, hk, hka, hbusy⟩ := h.holders.slot t' a ht' hw
      rw [h.slots.inj k j a hk hj hka ha, hidle] at hbusy
      exact absurd hbusy (by simp)
    refine ⟨?_, ?_, ?_⟩
    · intro t' b ht' hw
      simp only [State.setThread_thread, State.setThread_pool] at hw ⊢
      by_cases e : t' = t
      · subst e
        rw [Function.update_self] at hw
        cases hw
        exact ⟨j, hj, ha, by rw [Function.update_self]⟩
      · rw [Function.update_of_ne e] at hw
        obtain ⟨k, hk, hkb, hbusy⟩ := h.holders.slot t' b ht' hw
        refine ⟨k, hk, hkb, ?_⟩
        by_cases ek : k = j
        · subst ek
          rw [Function.update_self]
        · rw [Function.update_of_ne ek, hbusy]
    · intro t' t'' b ht' ht'' hw hw'
      simp only [State.setThread_thread] at hw hw'
      by_cases e : t' = t
      · by_cases e' : t'' = t
        · rw [e, e']
        · subst e
          rw [Function.update_self] at hw
          rw [Function.update_of_ne e'] at hw'
          cases hw
          exact absurd hw' (hfree t'' ht'')
      · by_cases e' : t'' = t
        · subst e'
          rw [Function.update_self] at hw'
          rw [Function.update_of_ne e] at hw
          cases hw'
          exact absurd hw (hfree t' ht')
        · rw [Function.update_of_ne e] at hw
          rw [Function.update_of_ne e'] at hw'
          exact h.holders.excl t' t'' b ht' ht'' hw hw'
    · intro k hk hbusy
      simp only [State.setThread_thread, State.setThread_pool] at hbusy ⊢
      by_cases ek : k = j
      · subst ek
        exact ⟨t, a, ht, ha, by rw [Function.update_self]; rfl⟩
      · rw [Function.update_of_ne ek] at hbusy
        obtain ⟨t', b, ht', hkb, hw⟩ := h.holders.busy k hk hbusy
        refine ⟨t', b, ht', hkb, ?_⟩
        rw [Function.update_of_ne (fun e => ?_), hw]
        rw [e, hnone] at hw
        exact absurd hw (by simp)
  running := by
    simp only [State.setThread_pool]
    rw [nrNotStopped_same hj (by simp [hidle])]
    exact h.running
  permits := by
    have hperm := h.permits
    have hlose := nrInTransit_lose s.thread (.check i a) ht (by rw [hpc]; rfl) rfl
    have hidle' := nrIdle_lose s.pool.workerState .busy hj hidle (by simp)
    simp only [State.setThread_thread, State.setThread_pool]
    rw [nrPosting_same ht (by rw [hpc]; rfl)]
    omega
  excluded := h.excluded_update rfl
  fault := h.fault

/-- The holders after thread `t` has given up the worker of slot `j`, whatever becomes of the
slot. -/
theorem HoldersInv.giveUp (h : HoldersInv cfg s.pool s.thread)
    (hinj : ∀ i j a, i < cfg.maxNrProcesses → j < cfg.maxNrProcesses →
      s.pool.worker i = some a → s.pool.worker j = some a → i = j)
    (ht : t < cfg.nrThreads) {j : Nat} {a : Ptr} (hj : j < cfg.maxNrProcesses)
      (ha : s.pool.worker j = some a)
    (hw : (s.thread t).worker = some a) {p : ProcessPool}
    (hworker : ∀ k, k ≠ j → p.worker k = s.pool.worker k)
    (hstate : ∀ k, k ≠ j → p.workerState k = s.pool.workerState k)
    (hbusy : p.workerState j ≠ .busy) (hpc : pc.worker = none) :
    HoldersInv cfg p (Function.update s.thread t pc) where
  slot t' b ht' hb := by
    by_cases e : t' = t
    · subst e
      rw [Function.update_self, hpc] at hb
      exact absurd hb (by simp)
    · rw [Function.update_of_ne e] at hb
      obtain ⟨k, hk, hkb, hkbusy⟩ := h.slot t' b ht' hb
      have hkj : k ≠ j := by
        rintro rfl
        rw [ha, Option.some.injEq] at hkb
        subst hkb
        exact e (h.excl t' t a ht' ht hb hw)
      exact ⟨k, hk, by rw [hworker k hkj, hkb], by rw [hstate k hkj, hkbusy]⟩
  excl t' t'' b ht' ht'' hb hb' := by
    by_cases e : t' = t
    · subst e
      rw [Function.update_self, hpc] at hb
      exact absurd hb (by simp)
    · by_cases e' : t'' = t
      · subst e'
        rw [Function.update_self, hpc] at hb'
        exact absurd hb' (by simp)
      · rw [Function.update_of_ne e] at hb
        rw [Function.update_of_ne e'] at hb'
        exact h.excl t' t'' b ht' ht'' hb hb'
  busy k hk hkbusy := by
    have hkj : k ≠ j := fun e => hbusy (by rw [← e, hkbusy])
    rw [hstate k hkj] at hkbusy
    obtain ⟨t', b, ht', hkb, hb⟩ := h.busy k hk hkbusy
    refine ⟨t', b, ht', by rw [hworker k hkj, hkb], ?_⟩
    rw [Function.update_of_ne (fun e => ?_), hb]
    rw [e, hw, Option.some.injEq] at hb
    subst hb
    exact hkj (hinj k j a hk hj hkb ha)

/-- **A dead worker is freed by the thread that has it**, and its slot is stopped. -/
theorem Inv.discardSlot (h : Inv cfg s) (ht : t < cfg.nrThreads) {j : Nat} {a : Ptr}
    (hj : j < cfg.maxNrProcesses) (ha : s.pool.worker j = some a)
    (hbusy : s.pool.workerState j = .busy) (hw : (s.thread t).worker = some a)
    (hpc : pc.worker = none) (htr : pc.inTransit = (s.thread t).inTransit)
    (hpo : pc.posting = (s.thread t).posting) (hex : pc.excluded = false) :
    Inv cfg ((discardSlot a s j).setThread t pc) := by
  have hlive := h.slots.live j a hj ha
  simp only [Pool.discardSlot, if_pos ha, workerProcessFree]
  refine ⟨⟨?_, ?_, ?_⟩, ?_, ?_, ?_, h.excluded_update hex, ?_⟩
  · intro k hk
    simp only [State.setThread_pool]
    by_cases e : k = j
    · subst e
      simp
    · rw [Function.update_of_ne e, Function.update_of_ne e]
      exact h.slots.stopped k hk
  · intro k l b hk hl hkb hlb
    simp only [State.setThread_pool] at hkb hlb
    by_cases e : k = j
    · subst e
      rw [Function.update_self] at hkb
      exact absurd hkb (by simp)
    · by_cases e' : l = j
      · subst e'
        rw [Function.update_self] at hlb
        exact absurd hlb (by simp)
      · rw [Function.update_of_ne e] at hkb
        rw [Function.update_of_ne e'] at hlb
        exact h.slots.inj k l b hk hl hkb hlb
  · intro k b hk hkb
    simp only [State.setThread_pool, State.setThread_heap] at hkb ⊢
    by_cases e : k = j
    · subst e
      rw [Function.update_self] at hkb
      exact absurd hkb (by simp)
    · rw [Function.update_of_ne e] at hkb
      -- the freed struct was in slot `j` only
      have hba : b ≠ a := by
        rintro rfl
        exact e (h.slots.inj k j b hk hj hkb ha)
      rw [Function.update_of_ne hba]
      exact h.slots.live k b hk hkb
  · exact h.holders.giveUp h.slots.inj ht hj ha hw (fun k hk => Function.update_of_ne hk _ _)
      (fun k hk => Function.update_of_ne hk _ _) (by simp) hpc
  · have hrun := h.running
    have hlose := nrNotStopped_lose s.pool.workerState .stopped hj (by simp [hbusy]) rfl
    simp only [State.setThread_pool]
    omega
  · have hperm := h.permits
    simp only [State.setThread_pool, State.setThread_thread]
    rw [nrInTransit_same ht htr, nrPosting_same ht hpo, nrIdle_same hj (by simp [hbusy])]
    exact hperm
  · simp only [State.setThread_fault, h.fault, Bool.false_or]
    cases hheap : s.heap a with
    | none => rw [hheap] at hlive; exact absurd hlive (by simp)
    | some wp => rfl

/-- **A live worker goes back to the pool**: its slot is idle, and the post is due. -/
theorem Inv.returnSlot (h : Inv cfg s) (ht : t < cfg.nrThreads) {j : Nat} {a : Ptr}
    (hj : j < cfg.maxNrProcesses) (ha : s.pool.worker j = some a)
    (hbusy : s.pool.workerState j = .busy) (hpc : s.thread t = .holding a) :
    Inv cfg ({ s with
      pool := { s.pool with
        workerState := Function.update s.pool.workerState j .idle } }.setThread t .post) where
  slots := by
    refine ⟨fun k hk => ?_, h.slots.inj, h.slots.live⟩
    simp only [State.setThread_pool]
    by_cases e : k = j
    · subst e
      simp [ha]
    · rw [Function.update_of_ne e]
      exact h.slots.stopped k hk
  holders := h.holders.giveUp h.slots.inj ht hj ha (by rw [hpc]; rfl) (fun _ _ => rfl)
    (fun k hk => Function.update_of_ne hk _ _) (by simp) rfl
  running := by
    simp only [State.setThread_pool]
    rw [nrNotStopped_same hj (by simp [hbusy])]
    exact h.running
  permits := by
    have hperm := h.permits
    simp only [State.setThread_pool, State.setThread_thread]
    rw [nrIdle_gain hj (by simp [hbusy]) rfl, nrInTransit_same ht (by rw [hpc]; rfl),
      nrPosting_gain ht (by rw [hpc]; rfl) rfl]
    omega
  excluded := h.excluded_update rfl
  fault := h.fault

/-- **`process_pool_start_worker`** fills a stopped slot with an idle worker and posts, or
changes nothing. -/
theorem Inv.startWorker (h : Inv cfg s) {new : Option Ptr}
    (h' : processPoolStartWorker cfg.maxNrProcesses s new = some s') :
    Inv cfg s' ∧ s'.thread = s.thread := by
  simp only [processPoolStartWorker] at h'
  split at h'
  · cases hf : (List.range cfg.maxNrProcesses).find?
        (fun i => s.pool.workerState i == .stopped) with
    | none =>
      rw [hf] at h'
      cases h'
      exact ⟨h, rfl⟩
    | some j =>
      have hj : j < cfg.maxNrProcesses := List.mem_range.mp (List.mem_of_find?_eq_some hf)
      have hstop : s.pool.workerState j = .stopped := by simpa using List.find?_some hf
      have hnone : s.pool.worker j = none := (h.slots.stopped j hj).mp hstop
      rw [hf] at h'
      cases new with
      | none =>
        cases h'
        simp only
        rw [← hstop, ← hnone, Function.update_eq_self, Function.update_eq_self]
        exact ⟨h, trivial⟩
      | some a =>
        simp only at h'
        split at h'
        · exact absurd h' (by simp)
        · rename_i hfresh
          cases h'
          refine ⟨?_, rfl⟩
          -- the new address is in no slot
          have hnew : ∀ k, k < cfg.maxNrProcesses → s.pool.worker k ≠ some a :=
            fun k hk hka => hfresh (h.slots.live k a hk hka)
          refine ⟨⟨?_, ?_, ?_⟩, ⟨?_, h.holders.excl, ?_⟩, ?_, ?_, h.excluded, h.fault⟩
          · intro k hk
            by_cases e : k = j
            · subst e
              simp
            · simp only
              rw [Function.update_of_ne e, Function.update_of_ne e]
              exact h.slots.stopped k hk
          · intro k l b hk hl hkb hlb
            simp only at hkb hlb
            by_cases e : k = j
            · by_cases e' : l = j
              · rw [e, e']
              · subst e
                rw [Function.update_self] at hkb
                rw [Function.update_of_ne e'] at hlb
                cases hkb
                exact absurd hlb (hnew l hl)
            · by_cases e' : l = j
              · subst e'
                rw [Function.update_self] at hlb
                rw [Function.update_of_ne e] at hkb
                cases hlb
                exact absurd hkb (hnew k hk)
              · rw [Function.update_of_ne e] at hkb
                rw [Function.update_of_ne e'] at hlb
                exact h.slots.inj k l b hk hl hkb hlb
          · intro k b hk hkb
            simp only at hkb ⊢
            by_cases hba : b = a
            · subst hba
              rw [Function.update_self]
              rfl
            · rw [Function.update_of_ne hba]
              by_cases e : k = j
              · subst e
                rw [Function.update_self, Option.some.injEq] at hkb
                exact absurd hkb.symm hba
              · rw [Function.update_of_ne e] at hkb
                exact h.slots.live k b hk hkb
          · intro t b ht hb
            obtain ⟨k, hk, hkb, hbusy⟩ := h.holders.slot t b ht hb
            have hkj : k ≠ j := by
              rintro rfl
              rw [hstop] at hbusy
              exact absurd hbusy (by simp)
            refine ⟨k, hk, ?_, ?_⟩
            · simp only
              rw [Function.update_of_ne hkj, hkb]
            · simp only
              rw [Function.update_of_ne hkj, hbusy]
          · intro k hk hbusy
            simp only at hbusy ⊢
            have hkj : k ≠ j := by
              rintro rfl
              rw [Function.update_self] at hbusy
              exact absurd hbusy (by simp)
            rw [Function.update_of_ne hkj] at hbusy
            obtain ⟨t, b, ht, hkb, hb⟩ := h.holders.busy k hk hbusy
            exact ⟨t, b, ht, by rw [Function.update_of_ne hkj, hkb], hb⟩
          · have hrun := h.running
            simp only
            rw [nrNotStopped_gain hj hstop (by simp)]
            omega
          · have hperm := h.permits
            simp only
            rw [nrIdle_gain hj (by simp [hstop]) rfl]
            omega
  · cases h'
    exact ⟨h, rfl⟩

/-! ## 3. Every step before a shutdown -/

theorem processPoolStartWorker_stop {new : Option Ptr}
    (h' : processPoolStartWorker n s new = some s') : s'.pool.stop = s.pool.stop := by
  simp only [processPoolStartWorker] at h'
  repeat' split at h'
  all_goals cases h'
  all_goals rfl

theorem discardSlot_stop (a : Ptr) (s : State) (j : Nat) :
    (discardSlot a s j).pool.stop = s.pool.stop := by
  unfold discardSlot
  split <;> rfl

theorem foldl_discardSlot_stop (a : Ptr) (l : List Nat) :
    ∀ s : State, (l.foldl (discardSlot a) s).pool.stop = s.pool.stop := by
  induction l with
  | nil => intro s; rfl
  | cons j l ih =>
    intro s
    rw [List.foldl_cons, ih, discardSlot_stop]

theorem processPoolReleaseWorker_stop (s : State) (a : Ptr) :
    (processPoolReleaseWorker n s a).1.pool.stop = s.pool.stop := by
  unfold processPoolReleaseWorker
  split
  · rfl
  · split
    · rfl
    · simp only
      split
      · rfl
      · rw [discardSlot_stop]

/-- The steps that leave `stop` as it is: all but the first one of `process_pool_free`. -/
theorem exec_stop {a : Action} (h' : exec cfg s a = some s') :
    s'.pool.stop = s.pool.stop ∨ ∃ t, a = .stop t := by
  cases a with
  | stop t => exact Or.inr ⟨t, rfl⟩
  | startWorker t new =>
    left
    simp only [exec, Action.thread?, threadStep] at h'
    repeat' split at h'
    · obtain ⟨s₁, hs₁, rfl⟩ := Option.map_eq_some_iff.mp h'
      have hstop := processPoolStartWorker_stop hs₁
      exact hstop
    · exact processPoolStartWorker_stop h'
    all_goals cases h'
  | discard t =>
    left
    simp only [exec, Action.thread?, threadStep] at h'
    repeat' split at h'
    all_goals cases h'
    exact foldl_discardSlot_stop _ _ _
  | release t =>
    left
    simp only [exec, Action.thread?, threadStep] at h'
    repeat' split at h'
    all_goals cases h'
    all_goals exact processPoolReleaseWorker_stop _ _
  | freeNext t =>
    left
    simp only [exec, Action.thread?, threadStep] at h'
    repeat' split at h'
    all_goals cases h'
    · simp only [State.setThread_pool, freeSlot]
      split <;> rfl
    · rfl
  | _ =>
    left
    simp only [exec, Action.thread?, threadStep] at h'
    repeat' split at h'
    all_goals cases h'
    all_goals rfl

/-- The worker a thread has, its slot and its struct. -/
theorem Inv.holder (h : Inv cfg s) (ht : t < cfg.nrThreads) {a : Ptr}
    (hw : (s.thread t).worker = some a) :
    ∃ j wp, j < cfg.maxNrProcesses ∧ s.pool.worker j = some a ∧ s.pool.workerState j = .busy ∧
      s.heap a = some wp ∧ ∀ i, i < cfg.maxNrProcesses → s.pool.worker i = some a → i = j := by
  obtain ⟨j, hj, ha, hbusy⟩ := h.holders.slot t a ht hw
  obtain ⟨wp, hwp⟩ := Option.isSome_iff_exists.mp (h.slots.live j a hj ha)
  exact ⟨j, wp, hj, ha, hbusy, hwp, fun i hi hia => h.slots.inj i j a hi hj hia ha⟩

/-- The critical section of a get. -/
theorem Inv.assign (h : Inv cfg s) (hstop : s.pool.stop = false) (ht : t < cfg.nrThreads)
    {cb : Option (Option Ptr → Nat)} (h' : threadStep cfg.maxNrProcesses s t (.assign t cb) =
      some s') :
    Inv cfg s' := by
  simp only [threadStep] at h'
  split at h'
  · rename_i i hpc
    obtain ⟨j, hsearch, hj, hidle⟩ := highScoreIndex_spec s.pool cb (h.idle_of_lock ht hpc)
    have hworker : ∃ a, s.pool.worker j = some a := by
      cases hw : s.pool.worker j with
      | none => exact absurd ((h.slots.stopped j hj).mpr hw) (by simp [hidle])
      | some a => exact ⟨a, rfl⟩
    obtain ⟨a, ha⟩ := hworker
    split at h'
    · rename_i hs
      rw [hstop] at hs
      exact absurd hs (by simp)
    · simp only [hsearch, ha, h.slots.scoresDead, Bool.and_false, Bool.or_false,
        Option.some.injEq] at h'
      subst h'
      exact h.assignSlot ht hpc hj hidle ha _
  · exact absurd h' (by simp)

/-- The critical section of a release: the worker goes back to the pool or is freed. -/
theorem Inv.release (h : Inv cfg s) (ht : t < cfg.nrThreads)
    (h' : threadStep cfg.maxNrProcesses s t (.release t) = some s') : Inv cfg s' := by
  simp only [threadStep] at h'
  split at h'
  · rename_i a hpc
    obtain ⟨j, wp, hj, ha, hbusy, hwp, hinj⟩ := h.holder ht (a := a) (by rw [hpc]; rfl)
    have hfound := slotOf_eq hj ha hinj
    have hheap := h.heap a (workerProcessIsAlive wp).2
    simp only [processPoolReleaseWorker, hfound, hwp] at h'
    cases halive : (workerProcessIsAlive wp).1 with
    | true =>
      rw [halive] at h'
      cases h'
      exact hheap.returnSlot ht hj ha hbusy hpc
    | false =>
      rw [halive] at h'
      cases h'
      exact hheap.discardSlot ht hj ha hbusy (by rw [hpc]; rfl) rfl (by rw [hpc]; rfl)
        (by rw [hpc]; rfl) rfl
  · exact absurd h' (by simp)

/-- The critical section that discards a dead worker. -/
theorem Inv.discard (h : Inv cfg s) (ht : t < cfg.nrThreads)
    (h' : threadStep cfg.maxNrProcesses s t (.discard t) = some s') : Inv cfg s' := by
  simp only [threadStep] at h'
  split at h'
  · rename_i i a hpc
    obtain ⟨j, wp, hj, ha, hbusy, -, hinj⟩ := h.holder ht (a := a) (by rw [hpc]; rfl)
    rw [foldl_discardSlot hj ha hinj] at h'
    cases h'
    have hnext : (nextTry cfg.maxNrProcesses i).worker = none ∧
        (nextTry cfg.maxNrProcesses i).inTransit = false ∧
        (nextTry cfg.maxNrProcesses i).posting = false ∧
        (nextTry cfg.maxNrProcesses i).excluded = false := by
      unfold nextTry
      split <;> exact ⟨rfl, rfl, rfl, rfl⟩
    obtain ⟨h1, h2, h3, h4⟩ := hnext
    exact h.discardSlot ht hj ha hbusy (by rw [hpc]; rfl) h1 (by rw [h2, hpc]; rfl)
      (by rw [h3, hpc]; rfl) h4
  · exact absurd h' (by simp)

/-- A get goes on after `process_pool_start_worker`. -/
theorem Inv.afterStart (h : Inv cfg s) (ht : t < cfg.nrThreads) {i : Nat}
    (hpc : s.thread t = .startWorker i) (nrRunning : Int) :
    Inv cfg (s.setThread t (afterStart nrRunning i)) := by
  unfold Pool.afterStart
  split <;>
    exact h.setThread ht (by rw [hpc]; rfl) (by rw [hpc]; rfl) (by rw [hpc]; rfl) rfl

/-- A step of one thread. -/
theorem Inv.threadStep (h : Inv cfg s) (hstop : s.pool.stop = false) (ht : t < cfg.nrThreads)
    {a : Action} (hne : ∀ t, a ≠ .stop t)
    (h' : threadStep cfg.maxNrProcesses s t a = some s') : Inv cfg s' := by
  have hallowed := h.excluded t ht
  cases a with
  | call =>
    simp only [Pool.threadStep] at h'
    split at h'
    · rename_i hpc
      cases h'
      exact h.setThread ht (by rw [hpc]; rfl) (by rw [hpc]; rfl) (by rw [hpc]; rfl) rfl
    · exact absurd h' (by simp)
  | getValue =>
    simp only [Pool.threadStep] at h'
    split at h'
    · rename_i i hpc
      cases h'
      split <;>
        exact h.setThread ht (by rw [hpc]; rfl) (by rw [hpc]; rfl) (by rw [hpc]; rfl) rfl
    · exact absurd h' (by simp)
  | startWorker t' new =>
    simp only [Pool.threadStep] at h'
    split at h'
    · rename_i i hpc
      obtain ⟨s₁, hs₁, rfl⟩ := Option.map_eq_some_iff.mp h'
      obtain ⟨h₁, hthread⟩ := h.startWorker hs₁
      exact h₁.afterStart ht (by rw [hthread, hpc]) _
    · exact (h.startWorker h').1
    · exact absurd h' (by simp)
  | semWait =>
    simp only [Pool.threadStep] at h'
    split at h'
    · rename_i i hpc
      split at h'
      · rename_i hsem
        cases h'
        exact h.semWait ht hpc hsem
      · exact absurd h' (by simp)
    · exact absurd h' (by simp)
  | assign t' cb => exact h.assign hstop ht h'
  | check =>
    simp only [Pool.threadStep] at h'
    split at h'
    · rename_i i a hpc
      obtain ⟨j, wp, -, -, -, hwp, -⟩ := h.holder ht (a := a) (by rw [hpc]; rfl)
      simp only [hwp, Option.some.injEq] at h'
      subst h'
      have hheap := h.heap a (workerProcessIsAlive wp).2
      split <;>
        exact hheap.setThread ht (by rw [hpc]; rfl) (by rw [hpc]; rfl) (by rw [hpc]; rfl) rfl
    · exact absurd h' (by simp)
  | discard => exact h.discard ht h'
  | release => exact h.release ht h'
  | post =>
    simp only [Pool.threadStep] at h'
    split at h'
    · rename_i hpc
      cases h'
      exact h.post ht hpc
    · rename_i hpc
      rw [hpc] at hallowed
      exact absurd hallowed (by simp [ThreadPc.excluded])
    · exact absurd h' (by simp)
  | notice =>
    simp only [Pool.threadStep] at h'
    split at h'
    · rename_i a hpc
      obtain ⟨j, wp, -, -, -, hwp, -⟩ := h.holder ht (a := a) (by rw [hpc]; rfl)
      simp only [hwp, Option.some.injEq] at h'
      subst h'
      exact h.heap a _
    · exact absurd h' (by simp)
  | stop t' => exact absurd rfl (hne t')
  | poll =>
    simp only [Pool.threadStep] at h'
    split at h'
    · rename_i hpc
      rw [hpc] at hallowed
      exact absurd hallowed (by simp [ThreadPc.excluded])
    · exact absurd h' (by simp)
  | freeNext =>
    simp only [Pool.threadStep] at h'
    split at h'
    · rename_i j hpc
      rw [hpc] at hallowed
      exact absurd hallowed (by simp [ThreadPc.excluded])
    · exact absurd h' (by simp)
  | die w => exact absurd h' (by simp [Pool.threadStep])

/-- **Every step before a shutdown preserves the invariant.** -/
theorem Inv.step (h : Inv cfg s) (hstop : s.pool.stop = false) {a : Action}
    (hne : ∀ t, a ≠ .stop t) (h' : exec cfg s a = some s') : Inv cfg s' := by
  unfold exec at h'
  split at h'
  · split at h'
    · rename_i t _ ht
      exact h.threadStep hstop ht hne h'
    · exact absurd h' (by simp)
  · repeat' split at h'
    all_goals cases h'
    exact h.heap _ _

theorem inv_start (cfg : Config) : Inv cfg start where
  slots := ⟨fun _ _ => by simp [start], fun _ _ _ _ _ e => absurd e (by simp [start]),
    fun _ _ _ e => absurd e (by simp [start])⟩
  holders := ⟨fun _ _ _ e => absurd e (by simp [start, ThreadPc.worker]),
    fun _ _ _ _ _ e => absurd e (by simp [start, ThreadPc.worker]),
    fun _ _ e => absurd e (by simp [start])⟩
  running := by simp [start, nrNotStopped]
  permits := by simp [start, nrInTransit, nrPosting, nrIdle, ThreadPc.inTransit, ThreadPc.posting]
  excluded _ _ := rfl
  fault := rfl

/-- A stopped pool stays stopped, so a pool that is not stopped never was. -/
theorem not_stopped_before {a : Action} (h' : exec cfg s a = some s')
    (hstop' : s'.pool.stop = false) : s.pool.stop = false ∧ ∀ t, a ≠ .stop t := by
  rcases exec_stop h' with e | ⟨t, rfl⟩
  · refine ⟨by rw [← e, hstop'], ?_⟩
    rintro t rfl
    simp only [exec, Action.thread?, Pool.threadStep] at h'
    repeat' split at h'
    all_goals cases h'
    exact absurd hstop' (by simp [processPoolStop])
  · simp only [exec, Action.thread?, Pool.threadStep] at h'
    repeat' split at h'
    all_goals cases h'
    exact absurd hstop' (by simp [processPoolStop])

/-- **The invariant holds in every reachable state of a pool that is not stopped.** -/
theorem inv_reachable (h : (machine cfg).Reachable s) (hstop : s.pool.stop = false) :
    Inv cfg s := by
  have key : ∀ s, (machine cfg).Reachable s → s.pool.stop = false → Inv cfg s := by
    refine (machine cfg).reachable_induction (I := fun s => s.pool.stop = false → Inv cfg s)
      (fun _ => inv_start cfg) ?_
    intro s a s' _ hi h' hstop'
    obtain ⟨hstop, hne⟩ := not_stopped_before h' hstop'
    exact (hi hstop).step hstop hne h'
  exact key s h hstop

end HdfStream.Pool
