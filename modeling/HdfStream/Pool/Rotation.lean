/-
# No idle worker is passed over for ever

Every get that takes a worker starts its search one slot after the last one (`next`).  So the gets
look at the slots in turn, and an idle worker that none of the others is better than is taken after
`max_nr_processes` gets at most, whichever threads they are of and whatever else happens
(`pool_rotates`).

The measure is the number of gets until the search starts at the slot (`turns`).
-/
import HdfStream.Pool.Transitions
import HdfStream.Pool.Steps

namespace HdfStream.Pool

variable {cfg : Config} {s s' : State} {t n j : Nat} {a : Action}

/-! ## 1. The search -/

/-- The gets after which the search starts at slot `j`. -/
def turns (n next j : Nat) : Nat :=
  if next % n ≤ j then j - next % n else j + n - next % n

theorem turns_lt {next : Nat} (hj : j < n) : turns n next j < n := by
  have hlt : next % n < n := Nat.mod_lt _ (by omega)
  unfold turns
  split
  · omega
  · omega

/-- After a get it is one less. -/
theorem turns_next {next : Nat} (hj : j < n) (hne : next % n ≠ j) :
    turns n ((next + 1) % n) j + 1 = turns n next j := by
  have hlt : next % n < n := Nat.mod_lt _ (by omega)
  have hnext : (next + 1) % n = if next % n + 1 < n then next % n + 1 else 0 := by
    rw [← Nat.mod_add_mod]
    split
    · rename_i hlt
      exact Nat.mod_eq_of_lt hlt
    · rename_i hge
      rw [show next % n + 1 = n by omega, Nat.mod_self]
  unfold turns
  rw [Nat.mod_mod, hnext]
  split
  · split
    · split
      · omega
      · omega
    · split
      · omega
      · omega
  · split
    · split
      · omega
      · omega
    · split
      · omega
      · omega

/-- The search starts at `next`. -/
theorem searchOrder_cons (hn : 0 < n) (next : Nat) :
    ∃ rest, searchOrder n next = next % n :: rest := by
  obtain ⟨k, rfl⟩ := Nat.exists_eq_succ_of_ne_zero hn.ne'
  refine ⟨((List.range k).map Nat.succ).map fun i => (i + next) % (k + 1), ?_⟩
  rw [searchOrder, List.range_succ_eq_map, List.map_cons, Nat.zero_add]

/-- A slot that is better than all that come later stays the best. -/
theorem foldl_scoreStep_keep {p : ProcessPool} {cb : Option Ptr → Nat} (k : Nat) (score : Int)
    (l : List Nat) (hl : ∀ i ∈ l, p.workerState i = .idle → (cb (p.worker i) : Int) ≤ score) :
    l.foldl (scoreStep p cb) (some k, score) = (some k, score) := by
  induction l with
  | nil => rfl
  | cons i l ih =>
    have hstep : scoreStep p cb (some k, score) i = (some k, score) := by
      unfold scoreStep
      split
      · rename_i hidle
        exact if_neg (not_lt.mpr (hl i List.mem_cons_self hidle))
      · rfl
    rw [List.foldl_cons, hstep]
    exact ih fun i' hi' => hl i' (List.mem_cons_of_mem _ hi')

/-- No idle worker has a higher score than the one in slot `j`. -/
def Best (n : Nat) (p : ProcessPool) (cb : Option (Option Ptr → Nat)) (j : Nat) : Prop :=
  ∀ score ∈ cb, ∀ i < n, p.workerState i = .idle → score (p.worker i) ≤ score (p.worker j)

/-- **A search that starts at an idle slot takes it if it is one of the best.** -/
theorem highScoreIndex_start {p : ProcessPool} {cb : Option (Option Ptr → Nat)} (hj : j < n)
    (hidle : p.workerState j = .idle) (hnext : p.next % n = j) (hbest : Best n p cb j) :
    highScoreIndex n p cb = some j := by
  obtain ⟨rest, hrest⟩ := searchOrder_cons (Nat.zero_lt_of_lt hj) p.next
  rw [hnext] at hrest
  cases cb with
  | none =>
    rw [highScoreIndex, hrest, List.find?_cons_of_pos]
    rw [hidle]
    rfl
  | some score =>
    have hstep : scoreStep p score (none, -1) j = (some j, (score (p.worker j) : Int)) := by
      rw [scoreStep, if_pos hidle, if_pos]
      omega
    have hkeep := foldl_scoreStep_keep j (score (p.worker j) : Int) rest
      fun i hi hidle => by
        have hmem : i ∈ searchOrder n p.next := hrest ▸ List.mem_cons_of_mem _ hi
        exact Int.ofNat_le.mpr (hbest score rfl i (mem_searchOrder.mp hmem) hidle)
    rw [highScoreIndex, hrest, List.foldl_cons, hstep, hkeep]

/-! ## 2. One step -/

/-- A get takes a worker, or finds that there is none. -/
def Action.isAssign : Action → Bool
  | .assign _ _ => true
  | _ => false

/-- What a step does to an idle slot: it is taken, or it stays idle and the search comes closer to
it with every get. -/
structure Approaches (n j : Nat) (s : State) (a : Action) (s' : State) : Prop where
  idle : s'.pool.workerState j = .idle
  turns : turns n s'.pool.next j + (if a.isAssign then 1 else 0) = turns n s.pool.next j

theorem Approaches.of_pool (ha : a.isAssign = false) (hnext : s'.pool.next = s.pool.next)
    (hidle : s'.pool.workerState j = .idle) : Approaches n j s a s' := by
  refine ⟨hidle, ?_⟩
  rw [hnext, ha]
  rfl

/-- The slot that is emptied is not an idle one. -/
theorem discardSlot_idle {w : Ptr} {k : Nat} (hne : k ≠ j)
    (hidle : s.pool.workerState j = .idle) :
    (discardSlot w s k).pool.workerState j = .idle ∧
      (discardSlot w s k).pool.next = s.pool.next := by
  unfold discardSlot
  split
  · refine ⟨?_, rfl⟩
    show Function.update s.pool.workerState k .stopped j = .idle
    rw [Function.update_of_ne hne.symm]
    exact hidle
  · exact ⟨hidle, rfl⟩

theorem Started.idle {new : Option Ptr} (h : Started n s new s')
    (hidle : s.pool.workerState j = .idle) :
    s'.pool.workerState j = .idle ∧ s'.pool.next = s.pool.next := by
  have hother : ∀ {i : Nat} {st : WorkerState}, s.pool.workerState i = .stopped →
      Function.update s.pool.workerState i st j = .idle := by
    intro i st hslot
    have hne : j ≠ i := fun e => by
      rw [← e, hidle] at hslot
      cases hslot
    rw [Function.update_of_ne hne]
    exact hidle
  cases h with
  | full hfull => exact ⟨hidle, rfl⟩
  | noSlot hlt hslot => exact ⟨hidle, rfl⟩
  | failed hup hi hslot => exact ⟨hother hslot, rfl⟩
  | started hup hi hslot hfree => exact ⟨hother hslot, rfl⟩

/-- The slot of a worker that a thread has is not an idle one. -/
theorem Inv.slot_ne (h : Inv cfg s) (ht : t < cfg.nrThreads) {w : Ptr}
    (hw : (s.thread t).worker = some w) (hidle : s.pool.workerState j = .idle) {i : Nat}
    (hi : i < cfg.maxNrProcesses) (hiw : s.pool.worker i = some w) : i ≠ j := by
  obtain ⟨k, wp, hk, hkw, hbusy, -, hinj⟩ := h.holder ht hw
  intro e
  rw [← e, hinj i hi hiw, hbusy] at hidle
  cases hidle

theorem Released.idle (h : Inv cfg s) (ht : t < cfg.nrThreads) {w : Ptr}
    (hpc : s.thread t = .holding w) {r : State × Bool} (hr : Released cfg.maxNrProcesses s w r)
    (hidle : s.pool.workerState j = .idle) :
    r.1.pool.workerState j = .idle ∧ r.1.pool.next = s.pool.next := by
  have hslotOf : ∀ {i : Nat}, slotOf cfg.maxNrProcesses s.pool w = some i → i ≠ j := by
    intro i hi
    have hiw : s.pool.worker i = some w := by simpa using List.find?_some hi
    exact h.slot_ne ht (by rw [hpc]; rfl) hidle
      (List.mem_range.mp (List.mem_of_find?_eq_some hi)) hiw
  cases hr with
  | notFound hslot => exact ⟨hidle, rfl⟩
  | freed hslot hw => exact ⟨hidle, rfl⟩
  | @alive i wp hslot hw halive =>
    refine ⟨?_, rfl⟩
    show Function.update s.pool.workerState i .idle j = .idle
    rw [Function.update_of_ne (hslotOf hslot).symm]
    exact hidle
  | dead hslot hw halive => exact discardSlot_idle (hslotOf hslot) hidle

/-- A get that takes another slot comes closer to this one. -/
theorem approaches_assign {t : Nat} {cb : Option (Option Ptr → Nat)} {i : Nat} (hj : j < n)
    (hidle : s.pool.workerState j = .idle) (hbest : Best n s.pool cb j)
    (hsearch : highScoreIndex n s.pool cb = some i)
    (hstate : s'.pool.workerState = Function.update s.pool.workerState i .busy)
    (hnext : s'.pool.next = (s.pool.next + 1) % n) :
    s'.pool.workerState j = .busy ∨ Approaches n j s (.assign t cb) s' := by
  by_cases hij : i = j
  · rw [hstate, hij, Function.update_self]
    exact .inl rfl
  · refine .inr ⟨?_, ?_⟩
    · rw [hstate, Function.update_of_ne (Ne.symm hij)]
      exact hidle
    · have hne : s.pool.next % n ≠ j := by
        intro hnext
        rw [highScoreIndex_start hj hidle hnext hbest] at hsearch
        exact hij (Option.some.inj hsearch).symm
      rw [hnext]
      exact turns_next hj hne

/-- **A step takes the slot or comes closer to it.** -/
theorem Step.approaches (h : Inv cfg s) (hup : s.pool.stop = false) (hne : ∀ t, a ≠ .stop t)
    (hj : j < cfg.maxNrProcesses) (hidle : s.pool.workerState j = .idle)
    (hbest : ∀ t cb, a = .assign t cb → Best cfg.maxNrProcesses s.pool cb j)
    (hstep : Step cfg s a s') :
    s'.pool.workerState j = .busy ∨ Approaches cfg.maxNrProcesses j s a s' := by
  cases hstep with
  | die hw hchild => exact .inr (.of_pool rfl rfl hidle)
  | @thread t _ _ ht _ hstep =>
    cases hstep with
    | call hpc => exact .inr (.of_pool rfl rfl hidle)
    | getValue hpc => exact .inr (.of_pool rfl rfl hidle)
    | startWorker hpc hstart =>
      obtain ⟨hstill, hnext⟩ := hstart.idle hidle
      exact .inr (.of_pool rfl hnext hstill)
    | startAlone hpc hstart =>
      obtain ⟨hstill, hnext⟩ := hstart.idle hidle
      exact .inr (.of_pool rfl hnext hstill)
    | semWait hpc hsem => exact .inr (.of_pool rfl rfl hidle)
    | assignStopped hpc hstop =>
      rw [hup] at hstop
      cases hstop
    | assignNone hpc hstop hsearch =>
      obtain ⟨k, hk, -⟩ := highScoreIndex_spec s.pool _ ⟨j, hj, hidle⟩
      rw [hk] at hsearch
      cases hsearch
    | assign hpc hstop hsearch hw =>
      exact approaches_assign hj hidle (hbest _ _ rfl) hsearch rfl rfl
    | assignEmpty hpc hstop hsearch hw =>
      exact approaches_assign hj hidle (hbest _ _ rfl) hsearch rfl rfl
    | checkFreed hpc hw => exact .inr (.of_pool rfl rfl hidle)
    | check hpc hw => exact .inr (.of_pool rfl rfl hidle)
    | @discard _ i w hpc =>
      have hworker : (s.thread t).worker = some w := by
        rw [hpc]
        rfl
      obtain ⟨k, wp, hk, hkw, -, -, hinj⟩ := h.holder ht hworker
      obtain ⟨hstill, hnext⟩ := discardSlot_idle (w := w) (h.slot_ne ht hworker hidle hk hkw) hidle
      rw [foldl_discardSlot hk hkw hinj]
      exact .inr (.of_pool rfl hnext hstill)
    | release hpc hr =>
      obtain ⟨hstill, hnext⟩ := hr.idle h ht hpc hidle
      exact .inr (.of_pool rfl hnext hstill)
    | post hpc => exact .inr (.of_pool rfl rfl hidle)
    | noticeFreed hpc hw => exact .inr (.of_pool rfl rfl hidle)
    | notice hpc hw => exact .inr (.of_pool rfl rfl hidle)
    | stop hpc => exact absurd rfl (hne _)
    | pollBusy hpc hbusy => exact .inr (.of_pool rfl rfl hidle)
    | poll hpc hbusy => exact .inr (.of_pool rfl rfl hidle)
    | freeNext hpc hlt =>
      have hexcluded := h.excluded t ht
      rw [hpc] at hexcluded
      cases hexcluded
    | freeEnd hpc hlt => exact .inr (.of_pool rfl rfl hidle)

/-! ## 3. Runs -/

/-- The gets in a run that have come to the search. -/
def nrAssigns (tr : List Action) : Nat := tr.countP Action.isAssign

theorem notStopped_before_run {tr : List Action} (hrun : (machine cfg).runFrom s tr = some s')
    (hup : s'.pool.stop = false) : s.pool.stop = false := by
  induction tr generalizing s with
  | nil =>
    cases hrun
    exact hup
  | cons a tr ih =>
    rw [Machine.runFrom_cons, Option.bind_eq_some_iff] at hrun
    obtain ⟨s₁, hstep, hrun⟩ := hrun
    exact (not_stopped_before hstep (ih hrun)).1

/-- In a run that ends before a shutdown, after more gets than `turns` the slot has been taken. -/
theorem taken_of_turns {tr : List Action} (h : Inv cfg s)
    (hrun : (machine cfg).runFrom s tr = some s') (hup : s'.pool.stop = false)
    (hj : j < cfg.maxNrProcesses) (hidle : s.pool.workerState j = .idle)
    (hbest : ∀ tr₁ t cb tr₂ s₁, tr = tr₁ ++ .assign t cb :: tr₂ →
      (machine cfg).runFrom s tr₁ = some s₁ → Best cfg.maxNrProcesses s₁.pool cb j)
    (hassigns : turns cfg.maxNrProcesses s.pool.next j < nrAssigns tr) :
    ∃ tr₁ tr₂ s₁, tr = tr₁ ++ tr₂ ∧ (machine cfg).runFrom s tr₁ = some s₁ ∧
      s₁.pool.workerState j = .busy := by
  induction tr generalizing s with
  | nil => exact absurd hassigns (Nat.not_lt_zero _)
  | cons a tr ih =>
    rw [Machine.runFrom_cons, Option.bind_eq_some_iff] at hrun
    obtain ⟨s₁, hstep, hrun⟩ := hrun
    obtain ⟨hup₁, hne⟩ : s₁.pool.stop = false ∧ ∀ t, a ≠ .stop t := by
      have hlater := notStopped_before_run hrun hup
      exact ⟨hlater, (not_stopped_before hstep hlater).2⟩
    have hup₀ := (not_stopped_before hstep hup₁).1
    have hhere : ∀ t cb, a = .assign t cb → Best cfg.maxNrProcesses s.pool cb j := by
      rintro t cb rfl
      exact hbest [] t cb tr s rfl rfl
    rcases (exec_cases hstep).approaches h hup₀ hne hj hidle hhere with hbusy | happroaches
    · refine ⟨[a], tr, s₁, rfl, ?_, hbusy⟩
      rw [Machine.runFrom_cons, hstep]
      rfl
    · have hcount : nrAssigns (a :: tr) = nrAssigns tr + if a.isAssign then 1 else 0 :=
        List.countP_cons ..
      have hturns := happroaches.turns
      obtain ⟨tr₁, tr₂, s₂, rfl, hs₂, hbusy⟩ :=
        ih (h.step hup₀ hne hstep) hrun happroaches.idle
          (fun tr₁ t cb tr₂ s₂ htr hs₂ => by
            refine hbest (a :: tr₁) t cb tr₂ s₂ (by rw [htr]; rfl) ?_
            rw [Machine.runFrom_cons, hstep]
            exact hs₂)
          (by omega)
      refine ⟨a :: tr₁, tr₂, s₂, rfl, ?_, hbusy⟩
      rw [Machine.runFrom_cons, hstep]
      exact hs₂

/-- **An idle worker is taken after `max_nr_processes` gets**, in every run that goes on before a
shutdown, if no idle worker has a higher score in any of them. -/
theorem pool_rotates (cfg : Config) {tr tr' : List Action} {s s' : State}
    (h : (machine cfg).run tr = some s) (h' : (machine cfg).runFrom s tr' = some s')
    (hup : s'.pool.stop = false) {j : Nat} (hj : j < cfg.maxNrProcesses)
    (hidle : s.pool.workerState j = .idle)
    (hbest : ∀ tr₁ t cb tr₂ s₁, tr' = tr₁ ++ .assign t cb :: tr₂ →
      (machine cfg).runFrom s tr₁ = some s₁ → Best cfg.maxNrProcesses s₁.pool cb j)
    (hassigns : cfg.maxNrProcesses ≤ nrAssigns tr') :
    ∃ tr₁ tr₂ s₁, tr' = tr₁ ++ tr₂ ∧ (machine cfg).runFrom s tr₁ = some s₁ ∧
      s₁.pool.workerState j = .busy :=
  taken_of_turns (inv_reachable ⟨tr, h⟩ (notStopped_before_run h' hup)) h' hup hj hidle hbest
    (lt_of_lt_of_le (turns_lt hj) hassigns)

/-- Two slots, one thread. -/
def onePair : Config := { maxNrProcesses := 2, nrThreads := 1 }

/-- Two workers are started. -/
def startPair : List Action := [.startWorker 0 (some 0), .startWorker 0 (some 1)]

/-- The thread gets a worker and gives it back, and gets one again. -/
def getTwice : List Action :=
  [.call 0, .getValue 0, .semWait 0, .assign 0 none, .check 0, .release 0, .post 0,
    .call 0, .getValue 0, .semWait 0, .assign 0 none, .check 0]

theorem pool_rotates_getTwice : ∃ s, (machine onePair).run startPair = some s ∧
    ∃ tr₁ tr₂ s₁, getTwice = tr₁ ++ tr₂ ∧ (machine onePair).runFrom s tr₁ = some s₁ ∧
      s₁.pool.workerState 1 = .busy := by
  have hrun : ((machine onePair).run startPair).bind (fun s =>
      ((machine onePair).runFrom s getTwice).map fun s' =>
        (s.pool.workerState 1, s'.pool.stop)) = some (.idle, false) := by decide +kernel
  obtain ⟨s, hs, hrun⟩ := Option.bind_eq_some_iff.mp hrun
  obtain ⟨s', hs', heq⟩ := Option.map_eq_some_iff.mp hrun
  obtain ⟨hidle, hup⟩ := Prod.mk.inj heq
  refine ⟨s, hs, pool_rotates onePair hs hs' hup (by decide) hidle ?_ (by decide)⟩
  intro tr₁ t cb tr₂ s₁ htr _
  have hmem : Action.assign t cb ∈ getTwice := htr ▸ List.mem_append_right _ List.mem_cons_self
  simp only [getTwice, List.mem_cons, reduceCtorEq, Action.assign.injEq, List.not_mem_nil,
    or_false, false_or] at hmem
  rcases hmem with ⟨-, rfl⟩ | ⟨-, rfl⟩
  · exact fun score hscore => by cases hscore
  · exact fun score hscore => by cases hscore

end HdfStream.Pool
