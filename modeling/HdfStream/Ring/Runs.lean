/-
# The invariant over whole runs

The steps outside a stream, the opening of one, and `inv_reachable`: the invariant holds in
every reachable state, whatever the worker sends, whenever the client reads, closes and
reopens, and wherever the worker dies.
-/
import HdfStream.Ring.ClientSteps

namespace HdfStream.Ring

open Memory TokenRing

variable {cfg : Config} {s s' : State}

/-! ## 1. The layout is written once -/

/-- A step of the worker leaves the client and the layout alone. -/
theorem workerStep_frame (h' : workerStep cfg s = some s') :
    s'.client = s.client ∧ (Layout cfg s.shared.buffer → Layout cfg s'.shared.buffer) := by
  cases hpc : s.worker.pc <;> cases hb : s.worker.bufferNr
  all_goals
    simp only [workerStep, hpc, hb] at h'
    try split at h'
  all_goals cases h'
  all_goals first
    | exact ⟨rfl, id⟩
    | exact ⟨rfl, fun hl => hl.update rfl⟩

theorem clientStep_layout (hl : Layout cfg s.shared.buffer) (h' : clientStep cfg s = some s') :
    Layout cfg s'.shared.buffer := by
  cases hpc : s.client.pc
  all_goals
    simp only [clientStep, hpc] at h'
    try split at h'
  all_goals cases h'
  all_goals first
    | exact hl
    | exact hl.update rfl
    | (intro j; simp only [sharedDataInitSemaphores]; split <;> exact hl j)

/-- No step moves a buffer. -/
theorem exec_layout {a : Action} (hl : Layout cfg s.shared.buffer)
    (h' : exec cfg s a = some s') : Layout cfg s'.shared.buffer := by
  cases a with
  | worker =>
    simp only [exec] at h'
    split at h'
    · exact absurd h' (by simp)
    · exact (workerStep_frame h').2 hl
  | client => exact clientStep_layout hl h'
  | die =>
    cases h'
    exact hl
  | _ =>
    simp only [exec] at h'
    repeat' split at h'
    all_goals cases h'
    all_goals exact hl

/-! ## 2. Steps outside a stream -/

/-- A live worker outside a stream reads commands. -/
theorem IdleInv.worker (h : IdleInv cfg s) (h' : exec cfg s .worker = some s') :
    IdleInv cfg s' := by
  simp only [exec] at h'
  split at h'
  · exact absurd h' (by simp)
  · rename_i hdead
    rw [Bool.not_eq_true] at hdead
    have hquiet := h.quiet hdead
    cases hpc : s.worker.pc with
    | finished =>
      simp only [workerStep, hpc, Option.some.injEq] at h'
      subst h'
      exact ⟨fun _ => rfl, h.fits, h.permits, h.ready, h.status, h.size, h.got, h.result⟩
    | command => simp [workerStep, hpc] at h'
    | _ => simp [hpc, WorkerPc.inStream] at hquiet

/-- A live worker outside a stream is not between two calls of a packer. -/
theorem IdleInv.not_between (h : IdleInv cfg s) (hpc : s.worker.pc = .between)
    (hd : s.worker.dead = false) : False := by
  have hquiet := h.quiet hd
  rw [hpc] at hquiet
  exact absurd hquiet (by simp [WorkerPc.inStream])

theorem IdleInv.setStatus (h : IdleInv cfg s) {n : Nat} (hpc : s.client.pc = .setStatus n)
    (h' : clientStep cfg s = some s') : IdleInv cfg s' := by
  simp only [clientStep, hpc, Option.some.injEq] at h'
  subst h'
  refine ⟨h.quiet, h.fits, h.permits, fun _ e => absurd e (by simp), fun _ _ => rfl, ?_, h.got,
    h.result⟩
  intro m hm
  exact h.size m (by rw [hpc]; exact hm)

/-- **`shared_data_init_semaphores` repairs the ring**: every buffer becomes writable, not
readable and empty. -/
theorem IdleInv.initSemaphores (h : IdleInv cfg s) {n : Nat}
    (hpc : s.client.pc = .initSemaphores n) (h' : clientStep cfg s = some s') :
    IdleInv cfg s' := by
  simp only [clientStep, hpc, Option.some.injEq] at h'
  subst h'
  have hready : s.worker.dead = false → ∀ j, j < cfg.nrBuffers →
      drain (s.shared.buffer j).readyForRead = 0 ∧ fill (s.shared.buffer j).readyForWrite = 1 := by
    intro hd j hj
    have := (h.permits hd j hj).2
    refine ⟨drain_eq _, ?_⟩
    unfold fill
    split <;> omega
  refine ⟨h.quiet, ?_, ?_, ?_, ?_, ?_, h.got, h.result⟩
  · intro j
    simp only [sharedDataInitSemaphores]
    split
    · exact Nat.zero_le _
    · exact h.fits j
  · intro hd j hj
    simp only [sharedDataInitSemaphores, if_pos hj]
    obtain ⟨h1, h2⟩ := hready hd j hj
    exact ⟨h1, h2.le⟩
  · intro _ _ hd j hj
    simp only [sharedDataInitSemaphores, if_pos hj]
    exact ⟨(hready hd j hj).2, trivial⟩
  · intro _ _
    exact h.status n (Or.inl hpc)
  · intro m hm
    exact h.size m (by rw [hpc]; exact hm)

/-- Leaving an open call without a stream. -/
theorem IdleInv.abandon (h : IdleInv cfg s) : IdleInv cfg { s with client.pc := .closed } :=
  ⟨h.quiet, h.fits, h.permits, fun _ e => absurd e (by simp), fun _ e => absurd e (by simp),
    fun _ e => absurd e (by simp [ClientPc.opening]), h.got, h.result⟩

/-- The worker dies: nothing is claimed of a dead worker's ring. -/
theorem IdleInv.die (h : IdleInv cfg s) : IdleInv cfg { s with worker.dead := true } :=
  ⟨fun e => absurd e (by simp), h.fits, fun e => absurd e (by simp),
    fun _ _ e => absurd e (by simp), h.status, h.size, h.got, h.result⟩

/-- **A stream starts.**  The ring is as `shared_data_init_semaphores` left it. -/
theorem IdleInv.accept (h : IdleInv cfg s) {n : Nat} (hpc : s.client.pc = .request n)
    (hw : s.worker.pc = .command) (hd : s.worker.dead = false)
    (h' : exec cfg s .accept = some s') : StreamInv cfg s' := by
  have hready := h.ready n hpc hd
  have hpermits := h.permits hd
  have hok := h.status n (Or.inr hpc)
  have hn := h.size n (by rw [hpc]; rfl)
  simp only [exec, hw, hd, hpc, Option.some.injEq] at h'
  subst h'
  refine ⟨⟨?_, Nat.min_le_right _ _⟩, ?_, ?_, ?_, ?_⟩
  · have := cfg.bufferSize_pos
    simp only [Log.empty]
    omega
  · exact Tokens.start (fun j hj => (hready j hj).1) (fun j hj => (hpermits j hj).1)
      cfg.nrBuffers_pos
  · exact Stored.start h.fits (fun j hj => (hready j hj).2)
  · refine ⟨fun _ => rfl, fun _ _ => ⟨rfl, rfl, rfl⟩, fun _ _ e => absurd e (by simp),
      fun _ _ hm => absurd hm (by simp [Log.empty]), fun e => absurd e (by simp
      [WorkerPc.inStream]), fun _ e => absurd e (by simp [WorkerPc.code]), fun e => absurd e
      (by simp [Worker.holds]), fun e => absurd e (by simp [WorkerPc.emptied]),
      fun e => absurd e (by simp), fun _ e => absurd e (by simp), List.prefix_refl _, fun _ => ?_⟩
    rw [State.pending_nil rfl]
    rfl
  · exact ⟨(Nat.zero_mod _).symm, fun e => absurd rfl e, fun _ => hok,
      fun e => absurd e (by simp [ClientPc.mode]), fun _ _ e => absurd e (by simp),
      fun _ e => absurd e (by simp), fun _ e => absurd e (by simp [Log.empty]),
      fun e => absurd e (by simp), List.prefix_refl _, fun _ => rfl,
      fun _ e => absurd e (Nat.not_lt_zero _)⟩

/-! ## 3. Every step, every run -/

/-- The start: no stream, and the ring as `shared_data_populate` leaves it. -/
theorem inv_start (cfg : Config) (status : Int) (mem : Nat → UInt8) :
    Inv cfg (start cfg status mem) where
  layout _ := rfl
  stream h := absurd h (by simp [start, ClientPc.hasStream])
  idle _ := ⟨fun _ => rfl, fun _ => Nat.zero_le _, fun _ _ _ => ⟨rfl, Nat.zero_le _⟩,
    fun _ e => absurd e (by simp [start]), fun _ e => absurd e (by simp [start]),
    fun _ e => absurd e (by simp [start, ClientPc.opening]), List.prefix_refl _,
    fun _ e => absurd e (by simp [start, Log.empty])⟩

/-- A step of the client in an open stream. -/
theorem StreamInv.clientStep (h : StreamInv cfg s) (hl : Layout cfg s.shared.buffer)
    (hin : s.client.pc.hasStream = true) (h' : clientStep cfg s = some s') :
    (s'.client.pc.hasStream = true → StreamInv cfg s') ∧
      (s'.client.pc.hasStream = false → IdleInv cfg s') := by
  have inside : s'.client.pc.hasStream = true → StreamInv cfg s' →
      (s'.client.pc.hasStream = true → StreamInv cfg s') ∧
        (s'.client.pc.hasStream = false → IdleInv cfg s') :=
    fun hp hs => ⟨fun _ => hs, fun e => absurd (hp.symm.trans e) (by simp)⟩
  cases hpc : s.client.pc with
  | wait mode =>
    refine inside ?_ (h.wait hpc h')
    simp only [Ring.clientStep, hpc] at h'
    split at h'
    · cases h'
      rfl
    · exact absurd h' (by simp)
  | readUsed mode => exact h.readUsed hpc h'
  | copyOut mode n =>
    refine inside ?_ (h.copyOut hl hpc h')
    simp only [Ring.clientStep, hpc, Option.some.injEq] at h'
    subst h'
    rfl
  | resetUsed mode =>
    refine inside ?_ (h.resetUsed hpc h')
    simp only [Ring.clientStep, hpc, Option.some.injEq] at h'
    subst h'
    rfl
  | post mode =>
    refine inside ?_ (h.clientPost hpc h')
    simp only [Ring.clientStep, hpc, Option.some.injEq] at h'
    subst h'
    cases mode <;> rfl
  | setCancel =>
    refine inside ?_ (h.setCancel hpc h')
    simp only [Ring.clientStep, hpc, Option.some.injEq] at h'
    subst h'
    rfl
  | streaming => simp [Ring.clientStep, hpc] at h'
  | _ => rw [hpc] at hin; exact absurd hin (by simp [ClientPc.hasStream])

/-- A step of the worker, or of its caller, while the client has the stream. -/
theorem Inv.streamWorker (h : Inv cfg s) (hstream : s.client.pc.hasStream = true) {a : Action}
    (ha : a = .worker ∨ (∃ buf, a = .write buf) ∨ (∃ code, a = .destroy code) ∨ a = .die)
    (h' : exec cfg s a = some s') : Inv cfg s' := by
  have hl := exec_layout h.layout h'
  have hs := h.stream hstream
  -- the client stays where it is
  have stay : s'.client = s.client → StreamInv cfg s' → Inv cfg s' := fun hc hs' =>
    ⟨hl, fun _ => hs', fun e => by rw [hc, hstream] at e; exact absurd e (by simp)⟩
  rcases ha with rfl | ⟨buf, rfl⟩ | ⟨code, rfl⟩ | rfl
  · simp only [exec] at h'
    split at h'
    · exact absurd h' (by simp)
    · exact stay ((workerStep_frame h').1) (hs.workerStep h.layout h')
  · refine stay ?_ (hs.write h')
    simp only [exec] at h'
    split at h'
    · cases h'
      rfl
    · exact absurd h' (by simp)
  · refine stay ?_ (hs.destroy h')
    simp only [exec] at h'
    split at h'
    · cases h'
      rfl
    · exact absurd h' (by simp)
  · cases h'
    exact stay rfl hs.die

/-- A step of a client that has the stream. -/
theorem Inv.streamClient (h : Inv cfg s) (hstream : s.client.pc.hasStream = true) {a : Action}
    (ha : a = .client ∨ a = .read ∨ a = .close ∨ a = .waitFailed)
    (h' : exec cfg s a = some s') : Inv cfg s' := by
  have hl := exec_layout h.layout h'
  have hs := h.stream hstream
  rcases ha with rfl | rfl | rfl | rfl
  · obtain ⟨h1, h2⟩ := hs.clientStep h.layout hstream h'
    exact ⟨hl, h1, h2⟩
  · cases hpc : s.client.pc
    case streaming =>
      have hs' := hs.read hpc h'
      simp only [exec, hpc] at h'
      refine ⟨hl, fun _ => hs', fun e => ?_⟩
      split at h'
      · cases h'
        rw [hstream] at e
        exact absurd e (by simp)
      · cases h'
        exact absurd e (by simp [ClientPc.hasStream])
    all_goals simp [exec, hpc] at h'
  · cases hpc : s.client.pc
    case streaming =>
      obtain ⟨h1, h2⟩ := hs.close hpc h'
      exact ⟨hl, h1, h2⟩
    all_goals simp [exec, hpc] at h'
  · obtain ⟨h1, h2⟩ := hs.waitFailed h'
    exact ⟨hl, h1, h2⟩

/-- A step of the worker, or of its caller, while the client has no stream. -/
theorem Inv.idleWorker (h : Inv cfg s) (hstream : s.client.pc.hasStream = false) {a : Action}
    (ha : a = .worker ∨ (∃ buf, a = .write buf) ∨ (∃ code, a = .destroy code) ∨ a = .die)
    (h' : exec cfg s a = some s') : Inv cfg s' := by
  have hl := exec_layout h.layout h'
  have hi := h.idle hstream
  have stay : s'.client.pc.hasStream = false → IdleInv cfg s' → Inv cfg s' := fun hc hi' =>
    ⟨hl, fun e => absurd (hc.symm.trans e) (by simp), fun _ => hi'⟩
  rcases ha with rfl | ⟨buf, rfl⟩ | ⟨code, rfl⟩ | rfl
  · have hi' := hi.worker h'
    simp only [exec] at h'
    split at h'
    · exact absurd h' (by simp)
    · exact stay (by rw [(workerStep_frame h').1, hstream]) hi'
  · simp only [exec] at h'
    split at h'
    · rename_i hpc hd
      exact (hi.not_between hpc hd).elim
    · exact absurd h' (by simp)
  · simp only [exec] at h'
    split at h'
    · rename_i hpc hd
      exact (hi.not_between hpc hd).elim
    · exact absurd h' (by simp)
  · cases h'
    exact stay hstream hi.die

/-- A step of a client that opens a stream. -/
theorem Inv.idleClient (h : Inv cfg s) (hstream : s.client.pc.hasStream = false)
    (h' : exec cfg s .client = some s') : Inv cfg s' := by
  have hl := exec_layout h.layout h'
  have hi := h.idle hstream
  have stay : s'.client.pc.hasStream = false → IdleInv cfg s' → Inv cfg s' := fun hc hi' =>
    ⟨hl, fun e => absurd (hc.symm.trans e) (by simp), fun _ => hi'⟩
  cases hpc : s.client.pc with
  | setStatus n =>
    refine stay ?_ (hi.setStatus hpc h')
    simp only [exec, clientStep, hpc, Option.some.injEq] at h'
    subst h'
    rfl
  | initSemaphores n =>
    refine stay ?_ (hi.initSemaphores hpc h')
    simp only [exec, clientStep, hpc, Option.some.injEq] at h'
    subst h'
    rfl
  | closed | request n => simp [exec, clientStep, hpc] at h'
  | _ => rw [hpc] at hstream; exact absurd hstream (by simp [ClientPc.hasStream])

/-- A stream is opened: the call, and the answer of the worker. -/
theorem Inv.idleOpen (h : Inv cfg s) (hstream : s.client.pc.hasStream = false) {a : Action}
    (ha : a = .accept ∨ a = .refuse ∨ a = .openFailed ∨ ∃ n, a = .open n)
    (h' : exec cfg s a = some s') : Inv cfg s' := by
  have hl := exec_layout h.layout h'
  have hi := h.idle hstream
  have stay : s'.client.pc.hasStream = false → IdleInv cfg s' → Inv cfg s' := fun hc hi' =>
    ⟨hl, fun e => absurd (hc.symm.trans e) (by simp), fun _ => hi'⟩
  rcases ha with rfl | rfl | rfl | ⟨n, rfl⟩
  · simp only [exec] at h'
    split at h'
    · rename_i n hw hd hpc
      have hs' := hi.accept hpc hw hd (by simp only [exec, hw, hd, hpc]; exact h')
      cases h'
      exact ⟨hl, fun _ => hs', fun e => absurd e (by simp [ClientPc.hasStream])⟩
    · exact absurd h' (by simp)
  · simp only [exec] at h'
    split at h'
    · cases h'
      exact stay rfl hi.abandon
    · exact absurd h' (by simp)
  · simp only [exec] at h'
    split at h'
    · split at h'
      · cases h'
        exact stay rfl hi.abandon
      · exact absurd h' (by simp)
    · exact absurd h' (by simp)
  · simp only [exec] at h'
    split at h'
    · split at h'
      · exact absurd h' (by simp)
      · rename_i hn
        cases h'
        refine stay rfl ⟨hi.quiet, hi.fits, hi.permits, fun _ e => absurd e (by simp),
          fun _ e => absurd e (by simp), ?_, hi.got, hi.result⟩
        rintro m ⟨⟩
        omega
    · exact absurd h' (by simp)

/-- **Every step preserves the invariant.** -/
theorem Inv.step (h : Inv cfg s) {a : Action} (h' : exec cfg s a = some s') : Inv cfg s' := by
  cases hstream : s.client.pc.hasStream with
  | true =>
    cases a with
    | worker => exact h.streamWorker hstream (.inl rfl) h'
    | write buf => exact h.streamWorker hstream (.inr (.inl ⟨buf, rfl⟩)) h'
    | destroy code => exact h.streamWorker hstream (.inr (.inr (.inl ⟨code, rfl⟩))) h'
    | die => exact h.streamWorker hstream (.inr (.inr (.inr rfl))) h'
    | client => exact h.streamClient hstream (.inl rfl) h'
    | read => exact h.streamClient hstream (.inr (.inl rfl)) h'
    | close => exact h.streamClient hstream (.inr (.inr (.inl rfl))) h'
    | waitFailed => exact h.streamClient hstream (.inr (.inr (.inr rfl))) h'
    | accept | refuse | «open» n | openFailed =>
      cases hpc : s.client.pc <;> simp_all [exec, ClientPc.hasStream]
  | false =>
    cases a with
    | worker => exact h.idleWorker hstream (.inl rfl) h'
    | write buf => exact h.idleWorker hstream (.inr (.inl ⟨buf, rfl⟩)) h'
    | destroy code => exact h.idleWorker hstream (.inr (.inr (.inl ⟨code, rfl⟩))) h'
    | die => exact h.idleWorker hstream (.inr (.inr (.inr rfl))) h'
    | client => exact h.idleClient hstream h'
    | accept => exact h.idleOpen hstream (.inl rfl) h'
    | refuse => exact h.idleOpen hstream (.inr (.inl rfl)) h'
    | openFailed => exact h.idleOpen hstream (.inr (.inr (.inl rfl))) h'
    | «open» n => exact h.idleOpen hstream (.inr (.inr (.inr ⟨n, rfl⟩))) h'
    | read | close | waitFailed =>
      cases hpc : s.client.pc <;> simp_all [exec, ClientPc.hasStream]

/-- **The invariant holds in every reachable state.** -/
theorem inv_reachable {status : Int} {mem : Nat → UInt8}
    (h : (machine cfg status mem).Reachable s) : Inv cfg s :=
  (machine cfg status mem).reachable_induction (inv_start cfg status mem)
    (fun _ _ _ _ hi h' => hi.step h') s h

end HdfStream.Ring
