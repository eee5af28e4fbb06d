/-
# Start-ups end, with a region of their own or with nothing

`startup_isolated` says what the name of a region is good for: no process ever maps the region of
another worker, a worker that was started has its region ready and no name left, and a worker that
was freed has left nothing.  `startup_ends` says that the two sides never wait for each other, and
that a worker for which nothing fails is started.
-/
import HdfStream.Startup.Invariant

namespace HdfStream.Startup

variable {cfg : Config} {w : Nat} {W W' : Worker} {names names' : Names} {s s' : State}

/-- The region of a worker. -/
def Worker.region (W : Worker) (cfg : Config) (w : Nat) : SharedMemory :=
  { name := W.name cfg, size := cfg.totalSize, file := .region w }

/-! ## 1. Isolation -/

/-- What is guaranteed of a worker. -/
structure Isolated (cfg : Config) (names : Names) (w : Nat) (W : Worker) : Prop where
  /-- Its process maps its own region, which has been initialised. -/
  mapped : ∀ sm, W.child.mapped = some sm → sm = W.region cfg w ∧ W.fileSize = cfg.totalSize ∧
    W.populated = true
  /-- When `worker_process_new` has returned it, the library has mapped the region, its name is
  gone, and the process has mapped it and not lived on without. -/
  running : W.stage = .running →
    W.data = .reader { sm := some (W.region cfg w), fileCache := true } ∧ W.mapped = true ∧
      names (W.name cfg) ≠ some (.region w) ∧
      (W.child = .ready (W.region cfg w) ∨ W.child = .dead ∨
        (W.child = .doomed ∧ cfg.ndebug = true))
  /-- When it has been freed nobody has the region, nor its name. -/
  freed : W.stage = .freed → W.fd = false ∧ W.mapped = false ∧ W.child = .dead ∧
    names (W.name cfg) ≠ some (.region w)
  /-- `reader_shutdown` finds what `reader_init` has left. -/
  fault : W.fault = false

theorem WorkerInv.isolated (h : WorkerInv cfg w W (names (W.name cfg))) :
    Isolated cfg names w W where
  mapped sm hmapped := by
    have halive : W.child ≠ .dead := by
      intro e
      rw [e] at hmapped
      cases hmapped
    obtain ⟨⟨n, -, hle, -, -, hpos⟩, hknows, -⟩ := h.talks halive
    cases hchild : W.child with
    | ack sm' =>
      rw [hchild] at hmapped hknows hle
      cases hmapped
      exact ⟨hknows, h.holds.contents (hpos (Nat.lt_of_lt_of_le (Nat.zero_lt_succ 2) hle))⟩
    | ready sm' =>
      rw [hchild] at hmapped hknows hle
      cases hmapped
      exact ⟨hknows, h.holds.contents (hpos (Nat.lt_of_lt_of_le (Nat.zero_lt_succ 2) hle))⟩
    | _ =>
      rw [hchild] at hmapped
      cases hmapped
  running hstage := by
    have hdata := h.data
    have hlinked := h.holds.linked
    rw [hstage] at hdata hlinked
    obtain ⟨sm, hsm⟩ := hdata
    obtain rfl := h.holds.sm sm (by rw [hsm]; rfl)
    have hnone : names (W.name cfg) ≠ some (.region w) := fun e => by cases hlinked.mp e
    refine ⟨hsm, by rw [h.holds.mapped, hsm]; rfl, hnone, ?_⟩
    by_cases hdead : W.child = .dead
    · exact .inr (.inl hdead)
    · -- both messages of the worker have been received, so it has sent them
      obtain ⟨-, hknows, hanswers⟩ := h.talks hdead
      have hanswers := hanswers [1, 0] (by rw [hstage]; rfl)
      cases hchild : W.child with
      | ready sm =>
        rw [hchild] at hknows
        exact .inl (congrArg Child.ready hknows)
      | doomed =>
        rw [hchild] at hknows
        exact .inr (.inr ⟨rfl, hknows⟩)
      | dead => exact absurd hchild hdead
      | _ => simp [hchild, Child.answered] at hanswers
  freed hstage := by
    have hdata : W.data = .null := by
      have hdata := h.data
      rw [hstage] at hdata
      exact hdata
    have hlinked := h.holds.linked
    have hfd := h.holds.fd
    rw [hstage] at hlinked hfd
    refine ⟨by rw [hfd, hdata]; rfl, by rw [h.holds.mapped, hdata]; rfl, ?_, ?_⟩
    · exact h.life.waited (h.life.ended (by rw [hstage]; rfl))
    · exact fun e => by cases hlinked.mp e
  fault := h.holds.fault

/-- A name that is in use when a worker creates its region: it was left by an earlier process, or a
worker with the same process id has just been found dead and is about to remove it. -/
theorem Inv.exists_name (h : Inv cfg s) (hw : w < s.calls) (hstage : (s.worker w).stage = .shmOpen)
    {f : File} (hf : s.names ((s.worker w).name cfg) = some f) :
    cfg.leftover ((s.worker w).name cfg) = true ∨
      ∃ v, v < s.calls ∧ v ≠ w ∧ f = .region v ∧ (s.worker v).pid = (s.worker w).pid ∧
        (s.worker v).waited = true ∧ (s.worker v).stage = .cleanup := by
  cases f with
  | leftover => exact .inl ((h.leftover _).mp hf)
  | region v =>
    obtain ⟨hv, hname⟩ := h.regions _ v hf
    have hlinks : (s.worker v).stage.links = true :=
      (h.workers v hv).holds.linked.mp (by rw [← hname]; exact hf)
    have hne : v ≠ w := by
      rintro rfl
      rw [hstage] at hlinks
      cases hlinks
    have hpid : (s.worker v).pid = (s.worker w).pid := (smName_injective hname).symm
    have hwaited : (s.worker v).waited = true := by
      by_contra hnot
      refine hne (h.pids v w hv hw (Bool.not_eq_true _ ▸ hnot) ?_ hpid)
      exact (h.workers w hw).life.early (by rw [hstage]; rfl)
    refine .inr ⟨v, hv, hne, rfl, hpid, hwaited, ?_⟩
    have hearly := (h.workers v hv).life.early
    rw [hwaited] at hearly
    cases hst : (s.worker v).stage with
    | cleanup => rfl
    | _ => simp_all [Stage.links, Stage.early]

/-- **Nobody maps the region of another worker, and no name is left.**  In every reachable state,
with any number of start-ups under way, whatever calls fail and whatever processes die: each worker
is isolated; a name in use was left by earlier processes, or is that of a worker between the
creation of its region and the removal of the name; and a worker finds its name in use only if it
was left, or if another worker that had the same process id is about to remove it. -/
theorem startup_isolated (cfg : Config) {s : State} (h : (machine cfg).Reachable s) :
    (∀ w, w < s.calls → Isolated cfg s.names w (s.worker w)) ∧
      (∀ name f, s.names name = some f → (f = .leftover ∧ cfg.leftover name = true) ∨
        ∃ w, w < s.calls ∧ f = .region w ∧ name = (s.worker w).name cfg ∧
          (s.worker w).stage.links = true) ∧
      ∀ w f, w < s.calls → (s.worker w).stage = .shmOpen →
        s.names ((s.worker w).name cfg) = some f →
        cfg.leftover ((s.worker w).name cfg) = true ∨
          ∃ v, v < s.calls ∧ v ≠ w ∧ f = .region v ∧ (s.worker v).pid = (s.worker w).pid ∧
            (s.worker v).waited = true ∧ (s.worker v).stage = .cleanup := by
  have hinv := inv_reachable h
  refine ⟨fun w hw => (hinv.workers w hw).isolated, fun name f hf => ?_,
    fun w f hw hstage hf => hinv.exists_name hw hstage hf⟩
  cases f with
  | leftover => exact .inl ⟨rfl, (hinv.leftover name).mp hf⟩
  | region w =>
    obtain ⟨hw, hname⟩ := hinv.regions name w hf
    exact .inr ⟨w, hw, rfl, hname, (hinv.workers w hw).holds.linked.mp (by rw [← hname]; exact hf)⟩

/-- Two workers start at the same time.  The second one dies before it has mapped its region, and
the library has removed its name when it frees it. -/
def twoStart : List Action :=
  [.new 7, .library 0 .enter, .new 8, .child 0 .greet, .library 1 .enter,
    .library 0 .recvGreeting, .child 1 .greet, .library 0 (.malloc true),
    .library 0 (.shmOpen true), .library 1 .recvGreeting, .library 0 (.ftruncate true),
    .library 1 (.malloc true), .library 1 (.shmOpen true), .library 0 (.mmap true),
    .library 0 .send, .child 0 .recv, .library 1 (.ftruncate true), .library 1 (.mmap true),
    .library 0 .send, .library 0 .send, .child 0 .recv, .child 0 .recv, .library 1 .send,
    .child 1 .die, .library 1 .broken, .child 0 (.shmOpen true), .child 0 (.mmap true),
    .library 1 .unlink, .child 0 .ack, .library 0 .recvAck, .library 1 .shutdown,
    .library 0 (.fileCacheNew true), .library 0 .unlink]

/-- No names have been left. -/
def someHost : Config where
  parentPid := 5
  totalSize := 4096
  ndebug := false
  leftover := fun _ => false

theorem twoStart_stages : ((machine someHost).run twoStart).map
    (fun s => (s.calls, (s.worker 0).stage, (s.worker 1).stage)) = some (2, .running, .freed) := by
  decide +kernel

theorem startup_isolated_twoStart : ∃ s, (machine someHost).run twoStart = some s ∧
    (s.worker 0).mapped = true ∧ (s.worker 1).mapped = false ∧ (s.worker 1).child = .dead := by
  obtain ⟨s, hs, hstages⟩ := Option.map_eq_some_iff.mp twoStart_stages
  simp only [Prod.mk.injEq] at hstages
  obtain ⟨hcalls, hrunning, hfreed⟩ := hstages
  have h := (startup_isolated someHost ⟨twoStart, hs⟩).1
  obtain ⟨-, hmapped, -⟩ := (h 0 (by omega)).running hrunning
  obtain ⟨-, hunmapped, hdead, -⟩ := (h 1 (by omega)).freed hfreed
  exact ⟨s, hs, hmapped, hunmapped, hdead⟩

/-! ## 2. Every step is one of finitely many -/

/-- How many steps the library can still make, at most. -/
def Stage.rank : Stage → Nat
  | .init => 17
  | .greeting => 16
  | .mallocData => 15
  | .shmOpen => 14
  | .ftruncate => 13
  | .mmap => 12
  | .sendSize => 11
  | .sendLength => 10
  | .sendName => 9
  | .recvAck => 8
  | .fileCacheNew => 7
  | .unlink => 6
  | .cleanup => 5
  | .running => 4
  | .waiting => 2
  | .shutdown => 1
  | .freed => 0

/-- How many steps the process can still make, at most. -/
def Child.rank : Child → Nat
  | .starting => 9
  | .recvSize => 8
  | .recvLength _ => 7
  | .recvName _ _ => 6
  | .shmOpen _ _ => 5
  | .mmap _ => 4
  | .ack _ => 3
  | .ready _ | .doomed => 1
  | .dead => 0

/-- How many steps can still be made with a worker, at most. -/
def Worker.rank (W : Worker) : Nat :=
  2 * W.stage.rank + (if W.isDead then 0 else 1) + W.child.rank

theorem Worker.free_rank (hstage : 4 ≤ W.stage.rank) : W.free.rank < W.rank := by
  have hshutdown : Stage.shutdown.rank = 1 := rfl
  have hwaiting : Stage.waiting.rank = 2 := rfl
  cases hdead : W.isDead with
  | true =>
    simp only [Worker.free, Worker.rank, hdead, if_true, hshutdown]
    omega
  | false =>
    simp only [Worker.free, Worker.rank, hdead, Bool.false_eq_true, if_false, hwaiting]
    omega

theorem LibraryStep.rank {a : LibraryAction} (h : LibraryStep cfg w W names a W' names') :
    W'.rank < W.rank := by
  cases h with
  | mallocFails hstage =>
    exact Worker.free_rank (W := { W with data := .null }) (by simp [hstage, Stage.rank])
  | ftruncateFails hstage | mmapFails hstage =>
    exact Worker.free_rank (W := { W with fd := false }) (by simp [hstage, Stage.rank])
  | shmOpenFails hstage | errorGreeting hstage | cleanup hstage | cleanupNone hstage
  | free hstage =>
    exact Worker.free_rank (by simp [hstage, Stage.rank])
  | broken hstage hne | error hstage hne =>
    rcases Stage.talks_cases hstage hne with e | e | e | e <;>
      simp [Worker.rank, e, Stage.rank] <;> omega
  | shutdown hstage => simp [Worker.rank, hstage, Stage.rank]
  | notice hstage hdead hisDead => simp [Worker.rank, hisDead]
  | brokenGreeting hstage =>
    simp only [Worker.rank, hstage, Stage.rank, if_true]
    omega
  | _ => simp_all [Worker.rank, Stage.rank]

theorem ChildStep.rank {a : ChildAction} (h : ChildStep cfg W names a W') : W'.rank < W.rank := by
  have hfailed : (mapFailed cfg).rank ≤ 3 := by
    unfold mapFailed
    split <;> simp [Child.rank]
  cases h with
  | shmOpenFails hchild | mmapFails hchild =>
    simp only [Worker.rank, hchild]
    refine Nat.add_lt_add_left (Nat.lt_of_le_of_lt hfailed ?_) _
    simp [Child.rank]
  | die hchild =>
    simp only [Worker.rank]
    cases hc : W.child with
    | dead => exact absurd hc hchild
    | _ => simp [Child.rank]
  | _ => simp_all [Worker.rank, Child.rank]

/-- The action is one of this worker, or of the library with it. -/
def Action.about (w : Nat) : Action → Bool
  | .new _ => false
  | .library v _ | .child v _ => v == w

theorem count_rank (cfg : Config) : ∀ tr s, (machine cfg).run tr = some s →
    ∀ w, tr.countP (Action.about w) + (s.worker w).rank ≤ 44 ∧
      (s.calls ≤ w → tr.countP (Action.about w) = 0) := by
  refine (machine cfg).run_induction (I := fun tr s =>
    ∀ w, tr.countP (Action.about w) + (s.worker w).rank ≤ 44 ∧
      (s.calls ≤ w → tr.countP (Action.about w) = 0)) ?_ ?_
  · exact fun w => ⟨Nat.le_refl 44, fun _ => rfl⟩
  · intro tr s a s' _ ih hs w
    obtain ⟨hle, hzero⟩ := ih w
    rw [List.countP_append, List.countP_singleton]
    -- a step about a worker takes one from its rank
    have hcount : ∀ {v : Nat} {W : Worker}, v < s.calls → W.rank < (s.worker v).rank →
        tr.countP (Action.about w) + (if (v == w) = true then 1 else 0) +
          (Function.update s.worker v W w).rank ≤ 44 ∧
          (s.calls ≤ w → tr.countP (Action.about w) + (if (v == w) = true then 1 else 0) = 0) := by
      intro v W hv hrank
      by_cases e : v = w
      · subst e
        rw [Function.update_self, if_pos (beq_self_eq_true v)]
        exact ⟨by omega, fun hge => absurd hv (Nat.not_lt.mpr hge)⟩
      · rw [Function.update_of_ne (Ne.symm e), if_neg (by simpa using e)]
        exact ⟨by omega, fun hge => by rw [hzero hge]⟩
    cases exec_cases hs with
    | new hpid =>
      simp only [Action.about, Bool.false_eq_true, if_false, Nat.add_zero]
      refine ⟨?_, fun hge => hzero (Nat.le_of_succ_le hge)⟩
      by_cases e : w = s.calls
      · subst e
        rw [Function.update_self, hzero (Nat.le_refl _)]
        exact Nat.le_refl 44
      · rw [Function.update_of_ne e]
        exact hle
    | library hv h => exact hcount hv h.rank
    | child hv h => exact hcount hv h.rank

/-! ## 3. Nobody waits for ever -/

/-- The call that this step makes does not fail, the process does not end, and the pool does not
free the worker. -/
def Action.ok : Action → Bool
  | .library _ (.malloc false) | .library _ (.shmOpen false) | .library _ (.ftruncate false)
  | .library _ (.mmap false) | .library _ (.fileCacheNew false) | .library _ .broken
  | .library _ .error | .library _ .notice | .library _ .free | .child _ (.shmOpen false)
  | .child _ (.mmap false) | .child _ .die => false
  | _ => true

/-- What can be done next with a worker. -/
inductive GoesOn (cfg : Config) (s : State) (w : Nat) : Prop where
  | ok (a : Action) (habout : a.about w = true) (hok : a.ok = true)
      (henabled : (machine cfg).Enabled s a)
  /-- The library waits for a process that is dead, and finds out. -/
  | broken (hdead : (s.worker w).child = .dead)
      (henabled : (machine cfg).Enabled s (.library w .broken))
  /-- The library has killed the process and waits for its end. -/
  | die (hstage : (s.worker w).stage = .waiting)
      (henabled : (machine cfg).Enabled s (.child w .die))

theorem enabled_library {a : LibraryAction} (hw : w < s.calls)
    (h : (libraryStep cfg w (s.worker w) s.names a).isSome = true) :
    (machine cfg).Enabled s (.library w a) := by
  simpa [Machine.Enabled, machine, exec, hw] using h

theorem enabled_child {a : ChildAction} (hw : w < s.calls)
    (h : (childStep cfg (s.worker w) s.names a).isSome = true) :
    (machine cfg).Enabled s (.child w a) := by
  simpa [Machine.Enabled, machine, exec, hw] using h

theorem GoesOn.library (hw : w < s.calls) (a : LibraryAction)
    (hok : (Action.library w a).ok = true)
    (h : (libraryStep cfg w (s.worker w) s.names a).isSome = true) : GoesOn cfg s w :=
  .ok (.library w a) (beq_self_eq_true w) hok (enabled_library hw h)

theorem GoesOn.child (hw : w < s.calls) (a : ChildAction) (hok : (Action.child w a).ok = true)
    (h : (childStep cfg (s.worker w) s.names a).isSome = true) : GoesOn cfg s w :=
  .ok (.child w a) (beq_self_eq_true w) hok (enabled_child hw h)

/-- A receive finds a dead process out. -/
theorem GoesOn.dead (hw : w < s.calls) (htalks : (s.worker w).stage.talks = true)
    (hdead : (s.worker w).child = .dead) : GoesOn cfg s w := by
  refine .broken hdead (enabled_library hw ?_)
  simp [libraryStep, htalks, hdead]

/-- The greeting is there, or will be. -/
theorem Talks.greets (h : Talks cfg w (s.worker w)) (hw : w < s.calls)
    (hstage : (s.worker w).stage = .greeting) (halive : (s.worker w).child ≠ .dead) :
    GoesOn cfg s w := by
  have hanswers := h.answers [] (by rw [hstage]; rfl)
  rw [List.nil_append] at hanswers
  by_cases hchild : (s.worker w).child = .starting
  · refine .child hw .greet rfl ?_
    simp [childStep, hchild]
  · -- the worker sends the greeting before everything else
    have hsent : ∃ rest, (s.worker w).child.answered = 1 :: rest := by
      cases hc : (s.worker w).child with
      | starting => exact absurd hc hchild
      | dead => exact absurd hc halive
      | _ => exact ⟨_, rfl⟩
    obtain ⟨rest, hrest⟩ := hsent
    refine .library hw .recvGreeting rfl ?_
    simp [libraryStep, hstage, hanswers, hrest]

/-- The acknowledgement is there, or the worker is on its way to it. -/
theorem Talks.acknowledges (h : Talks cfg w (s.worker w)) (hw : w < s.calls)
    (hstage : (s.worker w).stage = .recvAck) (halive : (s.worker w).child ≠ .dead) :
    GoesOn cfg s w := by
  have hanswers := h.answers [1] (by rw [hstage]; rfl)
  obtain ⟨n, -, -, htoChild, hn, -⟩ := h.sent
  obtain rfl := hn 3 (by rw [hstage]; rfl)
  cases hchild : (s.worker w).child with
  | starting =>
    rw [hchild] at hanswers
    cases hanswers
  | recvSize | recvLength | recvName =>
    -- all three messages have been sent, so the next one is in the pipe
    refine .child hw .recv rfl ?_
    simp [childStep, hchild, htoChild, Child.nrRecv, Worker.messages]
  | shmOpen size name =>
    refine .child hw (.shmOpen true) rfl ?_
    simp only [childStep, hchild]
    split <;> rfl
  | mmap sm =>
    refine .child hw (.mmap true) rfl ?_
    simp [childStep, hchild]
  | ack sm =>
    refine .child hw .ack rfl ?_
    cases sm <;> simp [childStep, hchild]
  | ready | doomed =>
    have htoClient : (s.worker w).toClient = [0] := by
      rw [hchild] at hanswers
      exact List.cons.inj hanswers |>.2
    refine .library hw .recvAck rfl ?_
    simp [libraryStep, hstage, htoClient]
  | dead => exact absurd hchild halive

/-- A worker that is not running and not freed is not stuck. -/
theorem WorkerInv.goesOn
    (h : WorkerInv cfg w (s.worker w) (s.names ((s.worker w).name cfg))) (hw : w < s.calls)
    (hrunning : (s.worker w).stage ≠ .running) (hfreed : (s.worker w).stage ≠ .freed) :
    GoesOn cfg s w := by
  have hdata := h.data
  cases hstage : (s.worker w).stage with
  | init => exact .library hw .enter rfl (by simp [libraryStep, hstage])
  | greeting =>
    by_cases hdead : (s.worker w).child = .dead
    · exact .dead hw (by rw [hstage]; rfl) hdead
    · exact (h.talks hdead).greets hw hstage hdead
  | mallocData => exact .library hw (.malloc true) rfl (by simp [libraryStep, hstage])
  | shmOpen =>
    refine .library hw (.shmOpen true) rfl ?_
    simp only [libraryStep, hstage, if_true]
    split <;> rfl
  | ftruncate => exact .library hw (.ftruncate true) rfl (by simp [libraryStep, hstage])
  | mmap => exact .library hw (.mmap true) rfl (by simp [libraryStep, hstage])
  | sendSize | sendLength | sendName =>
    exact .library hw .send rfl (by simp [libraryStep, hstage])
  | recvAck =>
    by_cases hdead : (s.worker w).child = .dead
    · exact .dead hw (by rw [hstage]; rfl) hdead
    · exact (h.talks hdead).acknowledges hw hstage hdead
  | fileCacheNew =>
    rw [hstage] at hdata
    obtain ⟨sm, hsm⟩ := hdata
    exact .library hw (.fileCacheNew true) rfl (by simp [libraryStep, hstage, hsm])
  | unlink | cleanup =>
    rw [hstage] at hdata
    obtain ⟨sm, hsm⟩ := hdata
    exact .library hw .unlink rfl (by simp [libraryStep, hstage, hsm, Data.sm])
  | running => exact absurd hstage hrunning
  | waiting =>
    by_cases hdead : (s.worker w).child = .dead
    · exact .library hw .waitpid rfl (by simp [libraryStep, hstage, hdead])
    · exact .die hstage (enabled_child hw (by simp [childStep, hdead]))
  | shutdown => exact .library hw .shutdown rfl (by simp [libraryStep, hstage])
  | freed => exact absurd hstage hfreed

/-! ## 4. A start-up in which nothing fails -/

/-- Nothing goes wrong in this step if it is about this worker: no call fails, and its name is not
in use when its region is created. -/
def Smooth (cfg : Config) (w : Nat) (s : State) (a : Action) : Prop :=
  a.about w = true → a.ok = true ∧
    (a = .library w (.shmOpen true) → s.names ((s.worker w).name cfg) = none)

instance (cfg : Config) (w : Nat) (s : State) (a : Action) : Decidable (Smooth cfg w s a) :=
  inferInstanceAs (Decidable (_ → _))

/-- The library has not given a worker up. -/
def Stage.wellUnderWay : Stage → Bool
  | .cleanup | .waiting | .shutdown | .freed => false
  | _ => true

/-- The process is there, and has not failed to map its region. -/
def Child.well : Child → Bool
  | .ack none | .doomed | .dead => false
  | _ => true

/-- Nothing has gone wrong with a worker. -/
structure Worker.Well (W : Worker) : Prop where
  stage : W.stage.wellUnderWay = true
  child : W.child.well = true

/-- A worker that opens its region is told its name before the name is removed. -/
theorem WorkerInv.finds (h : WorkerInv cfg w W (names (W.name cfg))) (hwell : W.Well)
    {n : Nat} {name : String} (hchild : W.child = .shmOpen n name) :
    names name = some (.region w) := by
  have halive : W.child ≠ .dead := by simp [hchild]
  obtain ⟨⟨m, -, hle, -, hm, -⟩, hknows, hanswers⟩ := h.talks halive
  rw [hchild] at hle hknows hanswers
  obtain ⟨-, rfl⟩ := hknows
  refine h.holds.linked.mpr ?_
  cases hstage : W.stage with
  | recvAck => rfl
  | fileCacheNew | unlink => rfl
  | running =>
    rw [hstage] at hanswers
    have hanswers := hanswers [1, 0] rfl
    cases hanswers
  | cleanup | waiting | shutdown | freed =>
    have hwell := hwell.stage
    rw [hstage] at hwell
    cases hwell
  | _ =>
    -- the name has not been sent
    rw [hstage] at hm
    have hm := hm _ rfl
    simp only [Child.nrRecv] at hle
    omega

theorem Worker.Well.libraryStep {a : LibraryAction} (hwell : W.Well)
    (hinv : WorkerInv cfg w W (names (W.name cfg))) (hok : (Action.library w a).ok = true)
    (hname : a = .shmOpen true → names (W.name cfg) = none)
    (h : LibraryStep cfg w W names a W' names') : W'.Well := by
  cases h with
  | @shmOpenFails ok hstage hfail =>
    cases ok with
    | false => cases hok
    | true => exact absurd (hname rfl) (hfail rfl)
  | recvOther hstage hrecv hack =>
    -- a worker that is well sends nothing but the acknowledgement
    have halive : W.child ≠ .dead := by
      intro e
      have hchild := hwell.child
      rw [e] at hchild
      cases hchild
    have hanswers := (hinv.talks halive).answers [1] (by rw [hstage]; rfl)
    rw [hrecv] at hanswers
    cases hchild : W.child <;> simp_all [Child.answered]
  | cleanup hstage | cleanupNone hstage | waitpid hstage | shutdown hstage =>
    have hstage' := hwell.stage
    rw [hstage] at hstage'
    cases hstage'
  | mallocFails | ftruncateFails | mmapFails | brokenGreeting | broken | errorGreeting | error
  | fileCacheNewFails | notice | free => cases hok
  | _ => exact ⟨rfl, hwell.child⟩

theorem Worker.Well.childStep {a : ChildAction} (hwell : W.Well)
    (hinv : WorkerInv cfg w W (names (W.name cfg))) (hok : (Action.child w a).ok = true)
    (h : ChildStep cfg W names a W') : W'.Well := by
  cases h with
  | @shmOpenFails n name ok hchild hfail =>
    cases ok with
    | false => cases hok
    | true =>
      have hfinds := hinv.finds hwell hchild
      rw [hfail rfl] at hfinds
      cases hfinds
  | ackNull hchild =>
    have hchild' := hwell.child
    rw [hchild] at hchild'
    cases hchild'
  | mmapFails | die => cases hok
  | _ => exact ⟨hwell.stage, rfl⟩

/-- A worker stays well as long as its steps are smooth, whatever happens to the others. -/
theorem well_run (cfg : Config) (w : Nat) : ∀ tr s, (machine cfg).run tr = some s →
    (machine cfg).StepsMeet (Smooth cfg w) tr →
      Inv cfg s ∧ (w < s.calls → (s.worker w).Well) := by
  refine Machine.stepsMeet_induction (M := machine cfg)
    (I := fun s => Inv cfg s ∧ (w < s.calls → (s.worker w).Well)) ?_ ?_
  · exact ⟨inv_start cfg, fun hw => absurd hw (Nat.not_lt_zero w)⟩
  · rintro s a s' ⟨hinv, hwell⟩ hsmooth hs
    have hupdate : ∀ {v : Nat} {W : Worker}, (w = v → W.Well) → (w ≠ v → (s.worker w).Well) →
        (Function.update s.worker v W w).Well := by
      intro v W hsame hother
      by_cases e : w = v
      · subst e
        rw [Function.update_self]
        exact hsame rfl
      · rw [Function.update_of_ne e]
        exact hother e
    refine ⟨hinv.step (exec_cases hs), fun hw => ?_⟩
    cases exec_cases hs with
    | new hpid =>
      refine hupdate (fun _ => ⟨rfl, rfl⟩) fun hne => hwell ?_
      exact Nat.lt_of_le_of_ne (Nat.le_of_lt_succ hw) hne
    | @library v b W names hv h =>
      refine hupdate ?_ fun _ => hwell hw
      rintro rfl
      obtain ⟨hok, hname⟩ := hsmooth (beq_self_eq_true w)
      exact (hwell hw).libraryStep (hinv.workers w hw) hok
        (fun e => hname (congrArg (Action.library w) e)) h
    | @child v b W hv h =>
      refine hupdate ?_ fun _ => hwell hw
      rintro rfl
      obtain ⟨hok, -⟩ := hsmooth (beq_self_eq_true w)
      exact (hwell hw).childStep (hinv.workers w hw) hok h

end HdfStream.Startup
