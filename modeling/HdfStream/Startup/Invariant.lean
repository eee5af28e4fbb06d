/-
# What holds of a worker between its start and its end

`Inv` has five parts.

* What `worker->data` is follows from the stage (`Stage.DataOk`), so that `reader_shutdown` is never
  called with a pointer to the `struct hdfstream`.
* What the library holds follows from the stage and from `worker->data` (`Holds`).
* A process id is in use until the process has been waited for (`Life`), and two processes that have
  not been waited for have different ids.  A library that found a worker dead has waited for it
  BEFORE it removes the name, so a new worker may have the same name meanwhile.
* A name that refers to the region of a worker is the name of this worker, in the stages between
  `shm_open` and `shm_unlink`; and while the process of a worker has not been waited for, its name
  refers to nothing else once its region was mapped (`Alone`).
* What the two sides have sent and received fits together (`Talks`).
-/
import HdfStream.Startup.Steps
import Std.Data.String.ToNat

namespace HdfStream.Startup

variable {cfg : Config} {w : Nat} {W W' : Worker} {names names' : Names} {s s' : State}
  {linked : Option File}

/-- Different workers have different names as long as their ids differ. -/
theorem smName_injective {parentPid pid pid' : Nat}
    (h : smName parentPid pid = smName parentPid pid') : pid = pid' := by
  simp only [smName] at h
  have h := congrArg String.toList h
  simp only [String.toList_append, List.append_cancel_left_eq] at h
  exact Nat.repr_injective (String.toList_injective h)

/-! ## 1. The stages -/

namespace Stage

/-- The name of the region is there. -/
def links : Stage → Bool
  | .ftruncate | .mmap | .sendSize | .sendLength | .sendName | .recvAck | .fileCacheNew | .unlink
  | .cleanup => true
  | _ => false

/-- The region is not mapped yet. -/
def creating : Stage → Bool
  | .ftruncate | .mmap => true
  | _ => false

/-- The process has not been waited for. -/
def early : Stage → Bool
  | .cleanup | .running | .shutdown | .freed => false
  | _ => true

/-- The process has been waited for. -/
def ended : Stage → Bool
  | .shutdown | .freed => true
  | _ => false

/-- What `worker->data` may be. -/
def DataOk : Stage → Data → Prop
  | .init, d => d = .hdfstream
  | .greeting, d | .mallocData, d | .freed, d => d = .null
  | .shmOpen, d | .ftruncate, d | .mmap, d => d = .reader { sm := none, fileCache := false }
  | .sendSize, d | .sendLength, d | .sendName, d | .recvAck, d | .fileCacheNew, d | .cleanup, d =>
    ∃ sm, d = .reader { sm := some sm, fileCache := false }
  | .unlink, d | .running, d => ∃ sm, d = .reader { sm := some sm, fileCache := true }
  | .waiting, d | .shutdown, d => d ≠ .hdfstream

/-- How many messages have been sent to the worker. -/
def nrSent : Stage → Option Nat
  | .init | .greeting | .mallocData | .shmOpen | .ftruncate | .mmap | .sendSize => some 0
  | .sendLength => some 1
  | .sendName => some 2
  | .recvAck | .fileCacheNew | .unlink | .running => some 3
  | .cleanup | .waiting | .shutdown | .freed => none

/-- What has been received from the worker. -/
def received : Stage → Option (List Int)
  | .init | .greeting => some []
  | .mallocData | .shmOpen | .ftruncate | .mmap | .sendSize | .sendLength | .sendName | .recvAck =>
    some [1]
  | .fileCacheNew | .unlink | .running => some [1, 0]
  | .cleanup | .waiting | .shutdown | .freed => none

end Stage

namespace Child

/-- How many messages the worker has received. -/
def nrRecv : Child → Nat
  | .starting | .recvSize | .dead => 0
  | .recvLength _ => 1
  | .recvName _ _ => 2
  | .shmOpen _ _ | .mmap _ | .ack _ | .ready _ | .doomed => 3

/-- What the worker has sent. -/
def answered : Child → List Int
  | .starting | .dead => []
  | .recvSize | .recvLength _ | .recvName _ _ | .shmOpen _ _ | .mmap _ | .ack _ => [1]
  | .ready _ | .doomed => [1, 0]

/-- What the worker has been told, and found, is right. -/
def Knows (cfg : Config) (w : Nat) (name : String) : Child → Prop
  | .starting | .recvSize | .dead => True
  | .recvLength n | .recvName n _ => n = cfg.totalSize
  | .shmOpen n s => n = cfg.totalSize ∧ s = name
  | .mmap sm | .ack (some sm) | .ready sm =>
    sm = { name := name, size := cfg.totalSize, file := .region w }
  | .ack none | .doomed => cfg.ndebug = true

end Child

/-! ## 2. The invariant -/

/-- What the library holds of the region of a worker. -/
structure Holds (cfg : Config) (w : Nat) (W : Worker) (linked : Option File) : Prop where
  sm : ∀ sm, W.data.sm = some sm →
    sm = { name := W.name cfg, size := cfg.totalSize, file := .region w }
  contents : W.data.sm.isSome = true → W.fileSize = cfg.totalSize ∧ W.populated = true
  size : W.stage = .mmap → W.fileSize = cfg.totalSize
  mapped : W.mapped = W.data.sm.isSome
  fd : W.fd = (W.data.sm.isSome || W.stage.creating)
  linked : linked = some (.region w) ↔ W.stage.links = true
  fault : W.fault = false

/-- What the library knows about the process. -/
structure Life (W : Worker) : Prop where
  waited : W.waited = true → W.child = .dead
  isDead : W.isDead = true → W.waited = true
  noticed : W.stage.ended = false → W.waited = true → W.isDead = true
  early : W.stage.early = true → W.waited = false
  ended : W.stage.ended = true → W.waited = true

/-- The name of a worker refers to its region or to nothing. -/
def Alone (w : Nat) (W : Worker) (linked : Option File) : Prop :=
  W.waited = false → W.data.sm.isSome = true → ∀ f, linked = some f → f = .region w

/-- The messages between the library and a worker that is not dead. -/
structure Talks (cfg : Config) (w : Nat) (W : Worker) : Prop where
  sent : ∃ n, n ≤ 3 ∧ W.child.nrRecv ≤ n ∧
    W.toChild = ((W.messages cfg).take n).drop W.child.nrRecv ∧
    (∀ m, W.stage.nrSent = some m → m = n) ∧ (0 < n → W.data.sm.isSome = true)
  knows : W.child.Knows cfg w (W.name cfg)
  answers : ∀ l, W.stage.received = some l → l ++ W.toClient = W.child.answered

/-- One worker. -/
structure WorkerInv (cfg : Config) (w : Nat) (W : Worker) (linked : Option File) : Prop where
  data : W.stage.DataOk W.data
  holds : Holds cfg w W linked
  life : Life W
  alone : Alone w W linked
  talks : W.child ≠ .dead → Talks cfg w W

/-- All workers. -/
structure Inv (cfg : Config) (s : State) : Prop where
  workers : ∀ w, w < s.calls → WorkerInv cfg w (s.worker w) (s.names ((s.worker w).name cfg))
  pids : ∀ w w', w < s.calls → w' < s.calls → (s.worker w).waited = false →
    (s.worker w').waited = false → (s.worker w).pid = (s.worker w').pid → w = w'
  regions : ∀ name r, s.names name = some (.region r) → r < s.calls ∧ name = (s.worker r).name cfg
  leftover : ∀ name, s.names name = some .leftover ↔ cfg.leftover name = true

/-! ## 3. The steps of the library -/

theorem Stage.talks_cases {st : Stage} (h : st.talks = true) (hne : st ≠ .greeting) :
    st = .sendSize ∨ st = .sendLength ∨ st = .sendName ∨ st = .recvAck := by
  cases st <;> simp_all [Stage.talks]

theorem Worker.free_dataOk {d : Data} : W.free.stage.DataOk d ↔ d ≠ .hdfstream := by
  simp only [Worker.free]
  split <;> rfl

@[simp] theorem readerShutdown_pid : (readerShutdown W).pid = W.pid := by
  unfold readerShutdown
  repeat' split
  all_goals rfl

@[simp] theorem readerShutdown_child : (readerShutdown W).child = W.child := by
  unfold readerShutdown
  repeat' split
  all_goals rfl

@[simp] theorem readerShutdown_isDead : (readerShutdown W).isDead = W.isDead := by
  unfold readerShutdown
  repeat' split
  all_goals rfl

@[simp] theorem readerShutdown_sm : (readerShutdown W).data.sm = none := by
  unfold readerShutdown
  split
  · rename_i e
    rw [e]
    rfl
  · rename_i e
    rw [e]
    rfl
  · rename_i rd e
    split
    · rfl
    · rfl

@[simp] theorem readerShutdown_waited : (readerShutdown W).waited = W.waited := by
  unfold readerShutdown
  repeat' split
  all_goals rfl

/-- No step changes the process id. -/
theorem LibraryStep.pid {a : LibraryAction} (h : LibraryStep cfg w W names a W' names') :
    W'.pid = W.pid := by
  cases h with
  | shutdown => exact readerShutdown_pid
  | _ => rfl

/-- A process that has been waited for stays so. -/
theorem LibraryStep.waited {a : LibraryAction} (h : LibraryStep cfg w W names a W' names')
    (hwaited : W'.waited = false) : W.waited = false := by
  cases h with
  | shutdown => simpa using hwaited
  | brokenGreeting | broken | notice | waitpid => cases hwaited
  | _ => exact hwaited

theorem LibraryStep.name {a : LibraryAction} (h : LibraryStep cfg w W names a W' names') :
    W'.name cfg = W.name cfg := by
  rw [Worker.name, Worker.name, h.pid]

/-- What a step of the library does to the names. -/
inductive NamesStep (cfg : Config) (w : Nat) (W : Worker) (names : Names) : Names → Prop where
  | same : NamesStep cfg w W names names
  | link (hnone : names (W.name cfg) = none) (hwaited : W.waited = false) :
      NamesStep cfg w W names (Function.update names (W.name cfg) (some (.region w)))
  | unlink (hlinked : names (W.name cfg) = some (.region w)) :
      NamesStep cfg w W names (shmUnlink names (W.name cfg))

theorem LibraryStep.namesStep {a : LibraryAction} (h : LibraryStep cfg w W names a W' names')
    (hinv : WorkerInv cfg w W (names (W.name cfg))) : NamesStep cfg w W names names' := by
  cases h with
  | shmOpen hstage hnone => exact .link hnone (hinv.life.early (by rw [hstage]; rfl))
  | ftruncateFails hstage | mmapFails hstage =>
    exact .unlink (hinv.holds.linked.mpr (by rw [hstage]; rfl))
  | unlink hstage hsm | cleanup hstage hsm =>
    rw [hinv.holds.sm _ hsm]
    exact .unlink (hinv.holds.linked.mpr (by rw [hstage]; rfl))
  | _ => exact .same

/-- `worker->data` is what it may be at the next stage. -/
theorem LibraryStep.data {a : LibraryAction} (h : LibraryStep cfg w W names a W' names')
    (hdata : W.stage.DataOk W.data) : W'.stage.DataOk W'.data := by
  cases h with
  | enter | recvGreeting | malloc | shmOpen | ftruncate | mmap | sendSize | sendLength | sendName
  | recvAck | recvOther | brokenGreeting | fileCacheNewFails | unlink | notice | waitpid =>
    simp_all [Stage.DataOk]
  | mallocFails => exact Worker.free_dataOk.mpr (fun e => by cases e)
  | shmOpenFails | ftruncateFails | mmapFails | errorGreeting | cleanup | cleanupNone | free =>
    refine Worker.free_dataOk.mpr fun e => ?_
    have e : W.data = .hdfstream := e
    simp_all [Stage.DataOk]
  | broken hstage hne | error hstage hne =>
    rcases Stage.talks_cases hstage hne with e | e | e | e <;> simpa [e, Stage.DataOk] using hdata
  | fileCacheNew hstage hrd =>
    rw [hstage, hrd] at hdata
    obtain ⟨sm, e⟩ := hdata
    cases e
    exact ⟨sm, rfl⟩
  | shutdown hstage =>
    rw [hstage] at hdata
    show (readerShutdown W).data = .null
    unfold readerShutdown
    split
    · rename_i e
      exact absurd e hdata
    · assumption
    · split <;> rfl

/-- A worker whose region is as before. -/
theorem Holds.of (h : Holds cfg w W linked) {data : Data} (hdata : data.sm = W.data.sm) {fd : Bool}
    {st : Stage} {toChild : List Message} {toClient : List Int} {isDead waited : Bool}
    {child : Child} {linked' : Option File} (hfd : fd = (W.data.sm.isSome || st.creating))
    (hlinked : linked' = some (.region w) ↔ st.links = true)
    (hsize : st = .mmap → W.fileSize = cfg.totalSize) :
    Holds cfg w
      { W with
        data := data
        fd := fd
        stage := st
        toChild := toChild
        toClient := toClient
        isDead := isDead
        waited := waited
        child := child } linked' where
  sm sm hsm := h.sm sm (by rw [← hdata]; exact hsm)
  contents hsm := h.contents (by rw [← hdata]; exact hsm)
  size := hsize
  mapped := by
    rw [h.mapped, ← hdata]
  fd := by
    rw [hfd, ← hdata]
  linked := hlinked
  fault := h.fault

/-- A worker that is to be freed. -/
theorem Holds.free (h : Holds cfg w W linked) {data : Data} (hdata : data.sm = W.data.sm)
    {fd : Bool} (hfd : fd = W.data.sm.isSome) {linked' : Option File}
    (hlinked : linked' ≠ some (.region w)) :
    Holds cfg w ({ W with data := data, fd := fd } : Worker).free linked' := by
  have hst : ∀ st : Stage, st = .shutdown ∨ st = .waiting →
      fd = (W.data.sm.isSome || st.creating) ∧ (linked' = some (.region w) ↔ st.links = true) ∧
        (st = .mmap → W.fileSize = cfg.totalSize) := by
    rintro st (rfl | rfl) <;> simp [hfd, hlinked, Stage.creating, Stage.links]
  obtain ⟨h1, h2, h3⟩ := hst (if W.isDead then .shutdown else .waiting) (by split <;> simp)
  exact h.of hdata h1 h2 h3

/-- `reader_shutdown` gives back what the library holds. -/
theorem Holds.shutdown (h : Holds cfg w W linked) (hstage : W.stage = .shutdown)
    (hdata : W.data ≠ .hdfstream) :
    Holds cfg w { readerShutdown W with stage := .freed } linked := by
  obtain ⟨hsm, hcontents, hsize, hmapped, hfd, hlinked, hfault⟩ := h
  rw [hstage] at hfd hlinked
  unfold readerShutdown
  split
  · rename_i e
    exact absurd e hdata
  · rename_i e
    rw [e] at hmapped hfd
    exact ⟨by simp [e, Data.sm], by simp [e, Data.sm], by simp, hmapped.trans (by rw [e]),
      hfd.trans (by rw [e]; rfl), hlinked, hfault⟩
  · rename_i rd e
    split
    · rename_i sm hrd
      have hsome : W.data.sm.isSome = true := by simp [e, Data.sm, hrd]
      rw [hsome] at hmapped hfd
      exact ⟨by simp [Data.sm], by simp [Data.sm], by simp, rfl, rfl, hlinked,
        by simp [hfault, hmapped, hfd]⟩
    · rename_i hrd
      have hsome : W.data.sm.isSome = false := by simp [e, Data.sm, hrd]
      rw [hsome] at hmapped hfd
      exact ⟨by simp [Data.sm], by simp [Data.sm], by simp, hmapped, hfd, hlinked, hfault⟩

/-- What the library holds follows from the next stage. -/
theorem LibraryStep.holds {a : LibraryAction} (h : LibraryStep cfg w W names a W' names')
    (hinv : WorkerInv cfg w W (names (W.name cfg))) :
    Holds cfg w W' (names' (W.name cfg)) := by
  have hdata := hinv.data
  have hholds := hinv.holds
  have hfd := hholds.fd
  have hlinked := hholds.linked
  have hgone : ∀ names : Names, shmUnlink names (W.name cfg) (W.name cfg) ≠ some (.region w) := by
    intro names
    simp [shmUnlink]
  cases h with
  | enter hstage | malloc hstage =>
    rw [hstage] at hdata hfd hlinked
    exact hholds.of (by rw [hdata]; rfl) hfd hlinked (fun e => by cases e)
  | recvGreeting hstage | brokenGreeting hstage | sendSize hstage | sendLength hstage
  | sendName hstage | recvAck hstage | recvOther hstage | waitpid hstage =>
    rw [hstage] at hfd hlinked
    exact hholds.of rfl hfd hlinked (fun e => by cases e)
  | mallocFails hstage =>
    rw [hstage] at hdata hfd hlinked
    exact hholds.free (by rw [hdata]) (by simpa [Stage.creating] using hfd)
      (fun e => by cases hlinked.mp e)
  | shmOpen hstage hnone =>
    rw [hstage] at hdata
    have hsm : W.data.sm = none := by rw [hdata]; rfl
    refine ⟨hholds.sm, by simp [hsm], by simp, hholds.mapped, ?_, ?_, hholds.fault⟩
    · simp [Stage.creating]
    · simp [Stage.links]
  | shmOpenFails hstage | errorGreeting hstage | free hstage =>
    rw [hstage] at hfd hlinked
    exact hholds.free rfl (by simpa [Stage.creating] using hfd) (fun e => by cases hlinked.mp e)
  | ftruncate hstage =>
    rw [hstage] at hdata hfd hlinked
    have hsm : W.data.sm = none := by rw [hdata]; rfl
    exact ⟨hholds.sm, by simp [hsm], fun _ => rfl, hholds.mapped, hfd, hlinked, hholds.fault⟩
  | ftruncateFails hstage | mmapFails hstage =>
    rw [hstage] at hdata
    exact hholds.free rfl (by rw [hdata]; rfl) (hgone names)
  | mmap hstage =>
    rw [hstage] at hfd hlinked
    refine ⟨?_, fun _ => ⟨hholds.size hstage, rfl⟩, by simp, rfl, ?_, hlinked, hholds.fault⟩
    · rintro sm hsm
      cases hsm
      rfl
    · simpa [Stage.creating, Data.sm] using hfd
  | broken hstage hne | error hstage hne =>
    rcases Stage.talks_cases hstage hne with e | e | e | e <;> rw [e] at hfd hlinked <;>
      exact hholds.of rfl hfd hlinked (fun e => by cases e)
  | fileCacheNew hstage hrd =>
    rw [hstage] at hfd hlinked
    exact hholds.of (by rw [hrd]; rfl) hfd hlinked (fun e => by cases e)
  | fileCacheNewFails hstage hrd =>
    rw [hstage] at hfd hlinked
    exact hholds.of rfl hfd hlinked (fun e => by cases e)
  | unlink hstage hsm =>
    rw [hstage] at hfd
    rw [hholds.sm _ hsm]
    exact hholds.of rfl hfd ⟨fun e => absurd e (hgone names), fun e => by cases e⟩
      (fun e => by cases e)
  | cleanup hstage hsm =>
    rw [hstage] at hfd
    rw [hholds.sm _ hsm]
    exact hholds.free rfl (by simpa [Stage.creating] using hfd) (hgone names)
  | cleanupNone hstage hsm =>
    rw [hstage] at hdata
    obtain ⟨sm, e⟩ := hdata
    rw [e] at hsm
    cases hsm
  | notice hstage hdead =>
    rw [hstage] at hfd hlinked
    exact hholds.of rfl (by rw [hstage]; exact hfd) (by rw [hstage]; exact hlinked)
      (fun e => by rw [hstage] at e; cases e)
  | shutdown hstage =>
    rw [hstage] at hdata
    exact hholds.shutdown hstage hdata

/-- The library has waited for the process if it says that it is dead, and before it frees it. -/
theorem LibraryStep.life {a : LibraryAction} (h : LibraryStep cfg w W names a W' names')
    (hlife : Life W) : Life W' := by
  obtain ⟨hwaited, hisDead, hnoticed, hearly, hended⟩ := hlife
  cases h with
  | free hstage | cleanup hstage | cleanupNone hstage =>
    have hnoticed := hnoticed (by rw [hstage]; rfl)
    refine ⟨hwaited, hisDead, fun _ => hnoticed, ?_, ?_⟩
    · simp only [Worker.free]
      split
      · exact fun e => by cases e
      · rename_i hnot
        exact fun _ => Bool.eq_false_iff.mpr fun e => hnot (hnoticed e)
    · simp only [Worker.free]
      split
      · rename_i hdead
        exact fun _ => hisDead hdead
      · exact fun e => by cases e
  | shutdown hstage =>
    have hended := hended (by rw [hstage]; rfl)
    constructor <;> simp_all [Stage.early, Stage.ended]
  | error hstage hne =>
    have hended : W.stage.ended = false := by
      rcases Stage.talks_cases hstage hne with e | e | e | e <;> rw [e] <;> rfl
    exact ⟨hwaited, hisDead, fun _ => hnoticed hended, (fun e => by cases e), fun e => by cases e⟩
  | _ => constructor <;> simp_all [Stage.early, Stage.ended, Worker.free]

/-- A region without a name was mapped before. -/
theorem LibraryStep.mapped_before {a : LibraryAction} (h : LibraryStep cfg w W names a W' names')
    (hwaited : W'.waited = false) (hsm : W'.data.sm.isSome = true)
    (hlinks : W'.stage.links = false) : W.waited = false ∧ W.data.sm.isSome = true := by
  cases h with
  | shutdown hstage => simp at hsm
  | enter | malloc | mallocFails => cases hsm
  | brokenGreeting | waitpid | notice => cases hwaited
  | shmOpenFails | ftruncateFails | mmapFails | errorGreeting | free | cleanup | cleanupNone
  | recvGreeting | unlink => exact ⟨hwaited, hsm⟩
  | _ => cases hlinks

/-- The name of a worker with a region refers to nothing else. -/
theorem LibraryStep.alone {a : LibraryAction} (h : LibraryStep cfg w W names a W' names')
    (hinv : WorkerInv cfg w W (names (W.name cfg))) : Alone w W' (names' (W.name cfg)) := by
  intro hwaited hsm f hf
  cases hlinks : W'.stage.links with
  | true =>
    rw [(h.holds hinv).linked.mpr hlinks] at hf
    cases hf
    rfl
  | false =>
    obtain ⟨hwaited, hsm⟩ := h.mapped_before hwaited hsm hlinks
    rcases h.namesStep hinv with _ | _ | _
    · exact hinv.alone hwaited hsm f hf
    · simpa using hf.symm
    · simp [shmUnlink] at hf

theorem Child.answered_head {c : Child} {v : Int} {rest : List Int} (h : c.answered = v :: rest) :
    v = 1 := by
  cases c <;> simp [Child.answered] at h <;> exact h.1.symm

/-- The messages fit together if nothing was sent to the worker. -/
theorem Talks.of (h : Talks cfg w W) (hpid : W'.pid = W.pid) (hchild : W'.child = W.child)
    (htoChild : W'.toChild = W.toChild)
    (hsent : ∀ m, W'.stage.nrSent = some m → W.stage.nrSent = some m)
    (hsm : W.data.sm.isSome = true → W'.data.sm.isSome = true)
    (hanswers : ∀ l, W'.stage.received = some l → l ++ W'.toClient = W.child.answered) :
    Talks cfg w W' := by
  obtain ⟨⟨n, hn, hle, htake, hnr, hpos⟩, hknows, -⟩ := h
  have hname : W'.name cfg = W.name cfg := by rw [Worker.name, Worker.name, hpid]
  refine ⟨⟨n, hn, ?_, ?_, fun m hm => hnr m (hsent m hm), fun h => hsm (hpos h)⟩, ?_, ?_⟩
  · rw [hchild]
    exact hle
  · rw [hchild, htoChild, htake, Worker.messages, Worker.messages, hname]
  · rw [hchild, hname]
    exact hknows
  · rw [hchild]
    exact hanswers

/-- The next message is sent. -/
theorem Talks.send (h : Talks cfg w W) {n : Nat} (hn : W.stage.nrSent = some n) {m : Message}
    (hm : (W.messages cfg)[n]? = some m) {st : Stage} (hst : st.nrSent = some (n + 1))
    (hsm : W.data.sm.isSome = true) (hreceived : st.received = W.stage.received) :
    Talks cfg w { W with toChild := W.toChild ++ [m], stage := st } := by
  obtain ⟨⟨n', hle, hrecv, htake, hnr, -⟩, hknows, hanswers⟩ := h
  obtain rfl := hnr n hn
  have hlt : n < 3 := (List.getElem?_eq_some_iff.mp hm).1
  refine ⟨⟨n + 1, hlt, Nat.le_succ_of_le hrecv, ?_, fun k hk => ?_, fun _ => hsm⟩, hknows, ?_⟩
  · show W.toChild ++ [m] = ((W.messages cfg).take (n + 1)).drop W.child.nrRecv
    have hlen : W.child.nrRecv ≤ ((W.messages cfg).take n).length := by
      rw [List.length_take]
      exact Nat.le_min.mpr ⟨hrecv, Nat.le_of_lt (Nat.lt_of_le_of_lt hrecv hlt)⟩
    rw [List.take_add_one, hm, htake, List.drop_append_of_le_length hlen]
    rfl
  · rw [hst] at hk
    exact (Option.some.inj hk).symm
  · rw [hreceived]
    exact hanswers

/-- The messages still fit together. -/
theorem LibraryStep.talks {a : LibraryAction} (h : LibraryStep cfg w W names a W' names')
    (hinv : WorkerInv cfg w W (names (W.name cfg))) (halive : W'.child ≠ .dead) :
    Talks cfg w W' := by
  have halive' : W.child ≠ .dead := by
    cases h with
    | shutdown => simpa using halive
    | _ => exact halive
  have htalks := hinv.talks halive'
  have hdata := hinv.data
  have hanswers := htalks.answers
  have hfree : ∀ {W : Worker} {m}, W.free.stage.nrSent ≠ some m := by
    intro W m
    simp only [Worker.free]
    split <;> simp [Stage.nrSent]
  have hfree' : ∀ {W : Worker} {l}, W.free.stage.received ≠ some l := by
    intro W l
    simp only [Worker.free]
    split <;> simp [Stage.received]
  have hsome : (∃ sm fileCache, W.data = .reader { sm := some sm, fileCache := fileCache }) →
      W.data.sm.isSome = true := by
    rintro ⟨sm, fileCache, e⟩
    rw [e]
    rfl
  cases h with
  | enter hstage | malloc hstage =>
    rw [hstage] at hdata hanswers
    have hsm : W.data.sm = none := by rw [hdata]; rfl
    exact htalks.of rfl rfl rfl (by rw [hstage]; exact fun _ => id) (by simp [hsm]) hanswers
  | shmOpen hstage | ftruncate hstage | unlink hstage =>
    rw [hstage] at hanswers
    exact htalks.of rfl rfl rfl (by rw [hstage]; exact fun _ => id) id hanswers
  | mmap hstage =>
    rw [hstage] at hanswers
    exact htalks.of rfl rfl rfl (by rw [hstage]; exact fun _ => id) (fun _ => rfl) hanswers
  | fileCacheNew hstage hrd =>
    rw [hstage] at hanswers
    refine htalks.of rfl rfl rfl (by rw [hstage]; exact fun _ => id) (fun hsm => ?_) hanswers
    rw [hrd] at hsm
    exact hsm
  | recvGreeting hstage hrecv =>
    rw [hstage] at hanswers
    have hfirst := hanswers [] rfl
    rw [hrecv, List.nil_append] at hfirst
    refine htalks.of rfl rfl rfl (by rw [hstage]; exact fun _ => id) id ?_
    rintro l ⟨⟩
    rw [← hfirst, Child.answered_head hfirst.symm]
    rfl
  | recvAck hstage hrecv =>
    rw [hstage] at hanswers
    have hfirst := hanswers [1] rfl
    rw [hrecv] at hfirst
    refine htalks.of rfl rfl rfl (by rw [hstage]; exact fun _ => id) id ?_
    rintro l ⟨⟩
    exact hfirst
  | recvOther hstage hrecv | error hstage hne | fileCacheNewFails hstage hrd =>
    exact htalks.of rfl rfl rfl (fun m hm => by cases hm) id (fun l hl => by cases hl)
  | mallocFails hstage =>
    rw [hstage] at hdata
    have hsm : W.data.sm = none := by rw [hdata]; rfl
    exact htalks.of rfl rfl rfl (fun m hm => absurd hm hfree) (by simp [hsm])
      (fun l hl => absurd hl hfree')
  | shmOpenFails | ftruncateFails | mmapFails | errorGreeting | cleanup | cleanupNone | free =>
    exact htalks.of rfl rfl rfl (fun m hm => absurd hm hfree) id (fun l hl => absurd hl hfree')
  | sendSize hstage | sendLength hstage | sendName hstage =>
    rw [hstage] at hdata
    exact htalks.send (by rw [hstage]; rfl) rfl rfl (hsome (hdata.imp fun sm e => ⟨false, e⟩))
      (by rw [hstage]; rfl)
  | brokenGreeting hstage hdead | broken hstage hne hdead | notice hstage hdead
  | waitpid hstage hdead => exact absurd hdead halive'
  | shutdown hstage =>
    exact absurd (hinv.life.waited (hinv.life.ended (by rw [hstage]; rfl))) halive'

/-- **A step of the library keeps the invariant of its worker.** -/
theorem WorkerInv.library {a : LibraryAction} (hinv : WorkerInv cfg w W (names (W.name cfg)))
    (h : LibraryStep cfg w W names a W' names') : WorkerInv cfg w W' (names' (W'.name cfg)) := by
  rw [h.name]
  exact ⟨h.data hinv.data, h.holds hinv, h.life hinv.life, h.alone hinv, h.talks hinv⟩

/-! ## 4. The steps of the worker -/

/-- The process changes, and its pipes. -/
theorem WorkerInv.process (hinv : WorkerInv cfg w W linked) {toChild : List Message}
    {toClient : List Int} {child : Child} (halive : W.child ≠ .dead)
    (htalks : child ≠ .dead →
      Talks cfg w { W with toChild := toChild, toClient := toClient, child := child }) :
    WorkerInv cfg w { W with toChild := toChild, toClient := toClient, child := child } linked where
  data := hinv.data
  holds := hinv.holds.of rfl hinv.holds.fd hinv.holds.linked hinv.holds.size
  life := ⟨fun e => absurd (hinv.life.waited e) halive, hinv.life.isDead, hinv.life.noticed,
    hinv.life.early, hinv.life.ended⟩
  alone := hinv.alone
  talks := htalks

/-- The worker receives a message. -/
theorem Talks.recv (h : Talks cfg w W) {m : Message} {rest : List Message}
    (hrecv : W.toChild = m :: rest) {child : Child}
    (hnr : child.nrRecv = W.child.nrRecv + 1) (hanswered : child.answered = W.child.answered)
    (hknows : (W.messages cfg)[W.child.nrRecv]? = some m → child.Knows cfg w (W.name cfg)) :
    Talks cfg w { W with toChild := rest, child := child } := by
  obtain ⟨⟨n, hn, hle, htake, hsent, hpos⟩, -, hanswers⟩ := h
  rw [hrecv] at htake
  have hlt : W.child.nrRecv < ((W.messages cfg).take n).length := by
    by_contra hge
    rw [List.drop_eq_nil_of_le (Nat.not_lt.mp hge)] at htake
    cases htake
  have hfirst : ((W.messages cfg).take n)[W.child.nrRecv]? = some m := by
    rw [← List.head?_drop, ← htake]
    rfl
  have hltn : W.child.nrRecv < n := by
    rw [List.length_take] at hlt
    omega
  refine ⟨⟨n, hn, ?_, ?_, hsent, hpos⟩, hknows ?_, ?_⟩
  · rw [hnr]
    exact hltn
  · show rest = ((W.messages cfg).take n).drop child.nrRecv
    rw [hnr, ← List.tail_drop, ← htake]
    rfl
  · rwa [List.getElem?_take_of_lt hltn] at hfirst
  · rw [hanswered]
    exact hanswers

/-- The worker goes on with what it knows. -/
theorem Talks.goOn (h : Talks cfg w W) {child : Child} (hnr : child.nrRecv = W.child.nrRecv)
    {toClient : List Int} (hanswers : ∀ l, l ++ W.toClient = W.child.answered →
      l ++ toClient = child.answered)
    (hknows : W.child.Knows cfg w (W.name cfg) → child.Knows cfg w (W.name cfg)) :
    Talks cfg w { W with toClient := toClient, child := child } := by
  obtain ⟨hsent, hknows', hanswers'⟩ := h
  refine ⟨?_, hknows hknows', fun l hl => hanswers l (hanswers' l hl)⟩
  rw [hnr]
  exact hsent

/-- What a worker finds under the name it was told. -/
theorem Talks.finds (h : Talks cfg w W) (halone : Alone w W (names (W.name cfg)))
    (hwaited : W.waited = false) {n : Nat} {name : String} (hchild : W.child = .shmOpen n name)
    {file : File} (hfile : names name = some file) :
    n = cfg.totalSize ∧ name = W.name cfg ∧ file = .region w := by
  obtain ⟨⟨k, -, hle, -, -, hpos⟩, hknows, -⟩ := h
  rw [hchild] at hle hknows
  obtain ⟨rfl, rfl⟩ := hknows
  have hsm : W.data.sm.isSome = true := hpos (Nat.lt_of_lt_of_le (Nat.zero_lt_succ 2) hle)
  exact ⟨rfl, rfl, halone hwaited hsm file hfile⟩

/-- `shared_memory_map` returns `NULL`. -/
theorem Talks.mapFailed (h : Talks cfg w W) (hnr : W.child.nrRecv = 3)
    (hanswered : W.child.answered = [1]) (halive : mapFailed cfg ≠ .dead) :
    Talks cfg w { W with child := mapFailed cfg } := by
  have hndebug : cfg.ndebug = true := by
    by_contra e
    exact halive (by rw [Startup.mapFailed, if_neg e])
  have hack : Startup.mapFailed cfg = .ack none := by rw [Startup.mapFailed, if_pos hndebug]
  have hnr' : (Child.ack none).nrRecv = W.child.nrRecv := hnr.symm
  rw [hack]
  exact h.goOn hnr' (fun l hl => hl.trans hanswered) (fun _ => hndebug)

/-- **A step of the worker keeps its invariant.** -/
theorem WorkerInv.child {a : ChildAction} (hinv : WorkerInv cfg w W (names (W.name cfg)))
    (h : ChildStep cfg W names a W') : WorkerInv cfg w W' (names (W'.name cfg)) := by
  have halive : W.child ≠ .dead := by
    intro e
    cases h <;> simp_all
  have htalks := hinv.talks halive
  have hwaited : W.waited = false := by
    by_contra hne
    exact halive (hinv.life.waited (Bool.not_eq_false _ ▸ hne))
  cases h with
  | greet hchild =>
    refine hinv.process halive fun _ => htalks.goOn (by rw [hchild]; rfl) ?_ (fun _ => trivial)
    rintro l hl
    rw [← List.append_assoc, hl, hchild]
    rfl
  | recvSize hchild hrecv =>
    refine hinv.process halive fun _ =>
      htalks.recv hrecv (by rw [hchild]; rfl) (by rw [hchild]; rfl) ?_
    rw [hchild]
    rintro ⟨⟩
    rfl
  | recvLength hchild hrecv =>
    refine hinv.process halive fun _ =>
      htalks.recv hrecv (by rw [hchild]; rfl) (by rw [hchild]; rfl) ?_
    have hknows := htalks.knows
    rw [hchild] at hknows
    exact fun _ => hknows
  | recvName hchild hrecv =>
    refine hinv.process halive fun _ =>
      htalks.recv hrecv (by rw [hchild]; rfl) (by rw [hchild]; rfl) ?_
    have hknows := htalks.knows
    rw [hchild] at hknows ⊢
    rintro ⟨⟩
    exact ⟨hknows, rfl⟩
  | shmOpen hchild hfile =>
    obtain ⟨rfl, rfl, rfl⟩ := htalks.finds hinv.alone hwaited hchild hfile
    exact hinv.process halive fun _ => htalks.goOn (by rw [hchild]; rfl)
      (by rw [hchild]; exact fun _ => id) (fun _ => rfl)
  | shmOpenFails hchild hfail =>
    exact hinv.process halive (htalks.mapFailed (by rw [hchild]; rfl) (by rw [hchild]; rfl))
  | mmap hchild =>
    refine hinv.process halive fun _ => htalks.goOn (by rw [hchild]; rfl)
      (by rw [hchild]; exact fun _ => id) ?_
    rw [hchild]
    exact id
  | mmapFails hchild =>
    exact hinv.process halive (htalks.mapFailed (by rw [hchild]; rfl) (by rw [hchild]; rfl))
  | ack hchild | ackNull hchild =>
    refine hinv.process halive fun _ => htalks.goOn (by rw [hchild]; rfl) ?_ ?_
    · rintro l hl
      rw [← List.append_assoc, hl, hchild]
      rfl
    · rw [hchild]
      exact id
  | die => exact hinv.process halive fun e => absurd rfl e

/-! ## 5. All workers -/

theorem worker_new (pid : Nat) (hlinked : linked ≠ some (.region w)) :
    WorkerInv cfg w (newWorker pid) linked where
  data := rfl
  holds := by
    refine ⟨?_, ?_, ?_, rfl, rfl, ?_, rfl⟩ <;> simp [newWorker, Data.sm, Stage.links, hlinked]
  life := by constructor <;> simp [newWorker, Stage.ended]
  alone _ e := by cases e
  talks _ := by
    refine ⟨⟨0, Nat.zero_le 3, Nat.le_refl 0, rfl, ?_, ?_⟩, trivial, ?_⟩ <;>
      simp [newWorker, Stage.nrSent, Stage.received, Child.answered]

theorem inv_start (cfg : Config) : Inv cfg (start cfg) where
  workers w hw := by cases hw
  pids w w' hw := by cases hw
  regions name r h := by
    simp only [start] at h
    split at h <;> cases h
  leftover name := by simp [start]

theorem NamesStep.region (h : NamesStep cfg w W names names') {name : String} {r : Nat}
    (hr : names' name = some (.region r)) :
    names name = some (.region r) ∨ (r = w ∧ name = W.name cfg) := by
  cases h with
  | same => exact .inl hr
  | link =>
    by_cases e : name = W.name cfg
    · rw [e, Function.update_self] at hr
      cases hr
      exact .inr ⟨rfl, e⟩
    · rw [Function.update_of_ne e] at hr
      exact .inl hr
  | unlink =>
    by_cases e : name = W.name cfg
    · rw [e, shmUnlink, Function.update_self] at hr
      cases hr
    · rw [shmUnlink, Function.update_of_ne e] at hr
      exact .inl hr

/-- What was left by others stays. -/
theorem NamesStep.leftover (h : NamesStep cfg w W names names') (name : String) :
    names' name = some .leftover ↔ names name = some .leftover := by
  cases h with
  | same => rfl
  | link hnone =>
    by_cases e : name = W.name cfg
    · simp [e, hnone]
    · rw [Function.update_of_ne e]
  | unlink hlinked =>
    by_cases e : name = W.name cfg
    · simp [e, hlinked, shmUnlink]
    · rw [shmUnlink, Function.update_of_ne e]

theorem ChildStep.same {a : ChildAction} (h : ChildStep cfg W names a W') :
    W'.pid = W.pid ∧ W'.waited = W.waited := by
  cases h <;> exact ⟨rfl, rfl⟩

/-- What a step does to the names is nothing to another worker. -/
theorem WorkerInv.other {w' : Nat} {V : Worker} (hV : WorkerInv cfg w' V (names (V.name cfg)))
    (hne : w' ≠ w) (hpids : V.waited = false → W.waited = false → V.pid ≠ W.pid)
    (h : NamesStep cfg w W names names') : WorkerInv cfg w' V (names' (V.name cfg)) := by
  by_cases hname : V.name cfg = W.name cfg
  · -- the process of the other worker is gone, and its id is in use again
    have hpid : V.pid = W.pid := smName_injective hname
    refine ⟨hV.data, ?_, hV.life, ?_, hV.talks⟩
    · refine { hV.holds with linked := ?_ }
      rw [← hV.holds.linked, hname]
      cases h with
      | same => rfl
      | link hnone => simp [hnone, Ne.symm hne]
      | unlink hlinked => simp [hlinked, shmUnlink, Ne.symm hne]
    · intro hwaited hsm f hf
      cases h with
      | same => exact hV.alone hwaited hsm f hf
      | link hnone hwaited' => exact absurd hpid (hpids hwaited hwaited')
      | unlink hlinked =>
        rw [hname, shmUnlink, Function.update_self] at hf
        cases hf
  · have hsame : names' (V.name cfg) = names (V.name cfg) := by
      cases h with
      | same => rfl
      | link | unlink => exact Function.update_of_ne hname _ _
    rw [hsame]
    exact hV

/-- **Every step keeps the invariant.** -/
theorem Inv.step (hinv : Inv cfg s) {a : Action} (h : Step cfg s a s') : Inv cfg s' := by
  cases h with
  | @new pid hpid =>
    have hold : ∀ v, v < s.calls →
        Function.update s.worker s.calls (newWorker pid) v = s.worker v :=
      fun v hv => Function.update_of_ne (Nat.ne_of_lt hv) _ _
    refine ⟨fun v hv => ?_, fun v v' hv hv' => ?_, fun name r hr => ?_, hinv.leftover⟩
    · dsimp only
      rcases Nat.lt_succ_iff_lt_or_eq.mp hv with hv | rfl
      · rw [hold v hv]
        exact hinv.workers v hv
      · rw [Function.update_self]
        exact worker_new pid fun hr => Nat.lt_irrefl _ (hinv.regions _ _ hr).1
    · dsimp only
      rcases Nat.lt_succ_iff_lt_or_eq.mp hv with hv | rfl <;>
        rcases Nat.lt_succ_iff_lt_or_eq.mp hv' with hv' | rfl
      · rw [hold v hv, hold v' hv']
        exact hinv.pids v v' hv hv'
      · rw [hold v hv, Function.update_self]
        exact fun hwaited _ e => absurd e (hpid v hv hwaited)
      · rw [hold v' hv', Function.update_self]
        exact fun _ hwaited e => absurd e.symm (hpid v' hv' hwaited)
      · exact fun _ _ _ => rfl
    · obtain ⟨hlt, hname⟩ := hinv.regions name r hr
      exact ⟨Nat.lt_succ_of_lt hlt, by rw [hname]; dsimp only; rw [hold r hlt]⟩
  | @library w a W names' hw h =>
    have hnames := h.namesStep (hinv.workers w hw)
    have hpid : ∀ v, (Function.update s.worker w W v).pid = (s.worker v).pid := by
      intro v
      by_cases e : v = w
      · rw [e, Function.update_self, h.pid]
      · rw [Function.update_of_ne e]
    have hwaited : ∀ v, (Function.update s.worker w W v).waited = false →
        (s.worker v).waited = false := by
      intro v hv
      by_cases e : v = w
      · rw [e, Function.update_self] at hv
        rw [e]
        exact h.waited hv
      · rwa [Function.update_of_ne e] at hv
    refine ⟨fun v hv => ?_, fun v v' hv hv' h1 h2 e => ?_, fun name r hr => ?_, fun name => ?_⟩
    · dsimp only
      by_cases e : v = w
      · rw [e, Function.update_self]
        exact (hinv.workers w hw).library h
      · rw [Function.update_of_ne e]
        exact (hinv.workers v hv).other e
          (fun h1 h2 hpid => e (hinv.pids v w hv hw h1 h2 hpid)) hnames
    · rw [hpid, hpid] at e
      exact hinv.pids v v' hv hv' (hwaited v h1) (hwaited v' h2) e
    · have hsame : r < s.calls ∧ name = (s.worker r).name cfg := by
        rcases hnames.region hr with hr | ⟨rfl, hname⟩
        · exact hinv.regions name r hr
        · exact ⟨hw, hname⟩
      refine ⟨hsame.1, ?_⟩
      rw [hsame.2, Worker.name, Worker.name]
      dsimp only
      rw [hpid]
    · rw [← hinv.leftover name]
      exact hnames.leftover name
  | @child w a W hw h =>
    have hpid : ∀ v, (Function.update s.worker w W v).pid = (s.worker v).pid ∧
        (Function.update s.worker w W v).waited = (s.worker v).waited := by
      intro v
      by_cases e : v = w
      · rw [e, Function.update_self]
        exact h.same
      · rw [Function.update_of_ne e]
        exact ⟨rfl, rfl⟩
    refine ⟨fun v hv => ?_, fun v v' hv hv' h1 h2 e => ?_, fun name r hr => ?_, hinv.leftover⟩
    · dsimp only
      by_cases e : v = w
      · rw [e, Function.update_self]
        exact (hinv.workers w hw).child h
      · rw [Function.update_of_ne e]
        exact hinv.workers v hv
    · rw [(hpid v).1, (hpid v').1] at e
      exact hinv.pids v v' hv hv' ((hpid v).2.symm.trans h1) ((hpid v').2.symm.trans h2) e
    · obtain ⟨hlt, hname⟩ := hinv.regions name r hr
      refine ⟨hlt, ?_⟩
      rw [hname, Worker.name, Worker.name]
      dsimp only
      rw [(hpid r).1]

/-- **The invariant holds in every reachable state.** -/
theorem inv_reachable (h : (machine cfg).Reachable s) : Inv cfg s :=
  (machine cfg).reachable_induction (inv_start cfg)
    (fun _ _ _ _ hinv hs => hinv.step (exec_cases hs)) s h

end HdfStream.Startup
