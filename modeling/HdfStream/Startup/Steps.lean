/-
# What a step of a start-up can do

The steps of the model as relations, with one constructor for each way a step can go.  `exec_cases`
is the only place where `libraryStep` and `childStep` are unfolded.
-/
import HdfStream.Startup.Model

namespace HdfStream.Startup

variable {cfg : Config} {w : Nat} {W W' : Worker} {names names' : Names} {s s' : State}

/-! ## 1. The library -/

/-- What a step of the library with a worker can do, to the worker and to the names. -/
inductive LibraryStep (cfg : Config) (w : Nat) (W : Worker) (names : Names) :
    LibraryAction → Worker → Names → Prop where
  | enter (hstage : W.stage = .init) :
      LibraryStep cfg w W names .enter { W with data := .null, stage := .greeting } names
  | recvGreeting {v : Int} {rest : List Int} (hstage : W.stage = .greeting)
      (hrecv : W.toClient = v :: rest) :
      LibraryStep cfg w W names .recvGreeting
        { W with toClient := rest, stage := .mallocData } names
  | malloc (hstage : W.stage = .mallocData) :
      LibraryStep cfg w W names (.malloc true)
        { W with data := .reader { sm := none, fileCache := false }, stage := .shmOpen } names
  | mallocFails (hstage : W.stage = .mallocData) :
      LibraryStep cfg w W names (.malloc false) ({ W with data := .null } : Worker).free names
  | shmOpen (hstage : W.stage = .shmOpen) (hnone : names (W.name cfg) = none) :
      LibraryStep cfg w W names (.shmOpen true)
        { W with fd := true, fileSize := 0, populated := false, stage := .ftruncate }
        (Function.update names (W.name cfg) (some (.region w)))
  | shmOpenFails {ok : Bool} (hstage : W.stage = .shmOpen)
      (hfail : ok = true → names (W.name cfg) ≠ none) :
      LibraryStep cfg w W names (.shmOpen ok) W.free names
  | ftruncate (hstage : W.stage = .ftruncate) :
      LibraryStep cfg w W names (.ftruncate true)
        { W with fileSize := cfg.totalSize, stage := .mmap } names
  | ftruncateFails (hstage : W.stage = .ftruncate) :
      LibraryStep cfg w W names (.ftruncate false) ({ W with fd := false } : Worker).free
        (shmUnlink names (W.name cfg))
  | mmap (hstage : W.stage = .mmap) :
      LibraryStep cfg w W names (.mmap true)
        { W with
          mapped := true
          populated := true
          data := .reader
            { sm := some { name := W.name cfg, size := cfg.totalSize, file := .region w }
              fileCache := false }
          stage := .sendSize } names
  | mmapFails (hstage : W.stage = .mmap) :
      LibraryStep cfg w W names (.mmap false) ({ W with fd := false } : Worker).free
        (shmUnlink names (W.name cfg))
  | sendSize (hstage : W.stage = .sendSize) :
      LibraryStep cfg w W names .send
        { W with toChild := W.toChild ++ [.size cfg.totalSize], stage := .sendLength } names
  | sendLength (hstage : W.stage = .sendLength) :
      LibraryStep cfg w W names .send
        { W with toChild := W.toChild ++ [.length ((W.name cfg).length + 1)], stage := .sendName }
        names
  | sendName (hstage : W.stage = .sendName) :
      LibraryStep cfg w W names .send
        { W with toChild := W.toChild ++ [.name (W.name cfg)], stage := .recvAck } names
  | recvAck {rest : List Int} (hstage : W.stage = .recvAck) (hrecv : W.toClient = 0 :: rest) :
      LibraryStep cfg w W names .recvAck
        { W with toClient := rest, stage := .fileCacheNew } names
  /-- The worker has sent something else. -/
  | recvOther {ack : Int} {rest : List Int} (hstage : W.stage = .recvAck)
      (hrecv : W.toClient = ack :: rest) (hack : ack ≠ 0) :
      LibraryStep cfg w W names .recvAck { W with toClient := rest, stage := .cleanup } names
  | brokenGreeting (hstage : W.stage = .greeting) (hdead : W.child = .dead) :
      LibraryStep cfg w W names .broken
        { W with isDead := true, waited := true, stage := .shutdown } names
  | broken (hstage : W.stage.talks = true) (hne : W.stage ≠ .greeting) (hdead : W.child = .dead) :
      LibraryStep cfg w W names .broken
        { W with isDead := true, waited := true, stage := .cleanup } names
  | errorGreeting (hstage : W.stage = .greeting) :
      LibraryStep cfg w W names .error W.free names
  | error (hstage : W.stage.talks = true) (hne : W.stage ≠ .greeting) :
      LibraryStep cfg w W names .error { W with stage := .cleanup } names
  | fileCacheNew {rd : ReaderData} (hstage : W.stage = .fileCacheNew)
      (hdata : W.data = .reader rd) :
      LibraryStep cfg w W names (.fileCacheNew true)
        { W with data := .reader { rd with fileCache := true }, stage := .unlink } names
  | fileCacheNewFails {rd : ReaderData} (hstage : W.stage = .fileCacheNew)
      (hdata : W.data = .reader rd) :
      LibraryStep cfg w W names (.fileCacheNew false) { W with stage := .cleanup } names
  | unlink {sm : SharedMemory} (hstage : W.stage = .unlink) (hsm : W.data.sm = some sm) :
      LibraryStep cfg w W names .unlink { W with stage := .running } (shmUnlink names sm.name)
  | cleanup {sm : SharedMemory} (hstage : W.stage = .cleanup) (hsm : W.data.sm = some sm) :
      LibraryStep cfg w W names .unlink W.free (shmUnlink names sm.name)
  | cleanupNone (hstage : W.stage = .cleanup) (hsm : W.data.sm = none) :
      LibraryStep cfg w W names .unlink W.free names
  | notice (hstage : W.stage = .running) (hdead : W.child = .dead) (hisDead : W.isDead = false) :
      LibraryStep cfg w W names .notice { W with isDead := true, waited := true } names
  | free (hstage : W.stage = .running) : LibraryStep cfg w W names .free W.free names
  | waitpid (hstage : W.stage = .waiting) (hdead : W.child = .dead) :
      LibraryStep cfg w W names .waitpid { W with waited := true, stage := .shutdown } names
  | shutdown (hstage : W.stage = .shutdown) :
      LibraryStep cfg w W names .shutdown { readerShutdown W with stage := .freed } names

/-- `LibraryStep` says all that `libraryStep` does. -/
theorem libraryStep_cases {a : LibraryAction}
    (h : libraryStep cfg w W names a = some (W', names')) :
    LibraryStep cfg w W names a W' names' := by
  cases a with
  | enter =>
    simp only [libraryStep, Option.ite_none_right_eq_some] at h
    obtain ⟨hstage, h⟩ := h
    cases h
    exact .enter hstage
  | recvGreeting =>
    simp only [libraryStep] at h
    split at h
    · rename_i hstage hrecv
      cases h
      exact .recvGreeting hstage hrecv
    · cases h
  | malloc ok =>
    simp only [libraryStep, Option.ite_none_right_eq_some] at h
    obtain ⟨hstage, h⟩ := h
    cases ok <;> cases h
    · exact .mallocFails hstage
    · exact .malloc hstage
  | shmOpen ok =>
    simp only [libraryStep, Option.ite_none_right_eq_some] at h
    obtain ⟨hstage, h⟩ := h
    split at h
    · rename_i hok
      obtain ⟨rfl, hnone⟩ := hok
      cases h
      exact .shmOpen hstage hnone
    · rename_i hok
      cases h
      exact .shmOpenFails hstage fun e hnone => hok ⟨e, hnone⟩
  | ftruncate ok =>
    simp only [libraryStep, Option.ite_none_right_eq_some] at h
    obtain ⟨hstage, h⟩ := h
    cases ok <;> cases h
    · exact .ftruncateFails hstage
    · exact .ftruncate hstage
  | mmap ok =>
    simp only [libraryStep, Option.ite_none_right_eq_some] at h
    obtain ⟨hstage, h⟩ := h
    cases ok <;> cases h
    · exact .mmapFails hstage
    · exact .mmap hstage
  | send =>
    simp only [libraryStep] at h
    split at h <;> rename_i hstage <;> cases h
    · exact .sendSize hstage
    · exact .sendLength hstage
    · exact .sendName hstage
  | recvAck =>
    simp only [libraryStep] at h
    split at h
    · rename_i ack rest hstage hrecv
      cases h
      by_cases hack : ack = 0
      · subst hack
        exact .recvAck hstage hrecv
      · rw [if_pos hack]
        exact .recvOther hstage hrecv hack
    · cases h
  | broken =>
    simp only [libraryStep, Option.ite_none_right_eq_some] at h
    obtain ⟨⟨hstage, hdead⟩, h⟩ := h
    cases h
    by_cases hne : W.stage = .greeting
    · simp only [Worker.fail, hne, Worker.free, if_true]
      exact .brokenGreeting hne hdead
    · simp only [Worker.fail]
      exact .broken hstage hne hdead
  | error =>
    simp only [libraryStep, Option.ite_none_right_eq_some] at h
    obtain ⟨hstage, h⟩ := h
    cases h
    simp only [Worker.fail]
    split
    · rename_i hgreeting
      exact .errorGreeting hgreeting
    · rename_i hne
      exact .error hstage hne
  | fileCacheNew ok =>
    simp only [libraryStep] at h
    split at h
    · rename_i rd hstage hdata
      cases ok <;> cases h
      · exact .fileCacheNewFails hstage hdata
      · exact .fileCacheNew hstage hdata
    · cases h
  | unlink =>
    simp only [libraryStep] at h
    split at h
    · rename_i sm hstage hsm
      cases h
      exact .unlink hstage hsm
    · rename_i sm hstage hsm
      cases h
      exact .cleanup hstage hsm
    · rename_i hstage hsm
      cases h
      exact .cleanupNone hstage hsm
    · cases h
  | notice =>
    simp only [libraryStep, Option.ite_none_right_eq_some] at h
    obtain ⟨⟨hstage, hdead, hisDead⟩, h⟩ := h
    cases h
    exact .notice hstage hdead hisDead
  | free =>
    simp only [libraryStep, Option.ite_none_right_eq_some] at h
    obtain ⟨hstage, h⟩ := h
    cases h
    exact .free hstage
  | waitpid =>
    simp only [libraryStep, Option.ite_none_right_eq_some] at h
    obtain ⟨⟨hstage, hdead⟩, h⟩ := h
    cases h
    exact .waitpid hstage hdead
  | shutdown =>
    simp only [libraryStep, Option.ite_none_right_eq_some] at h
    obtain ⟨hstage, h⟩ := h
    cases h
    exact .shutdown hstage

/-! ## 2. The worker -/

/-- What a step of the process of a worker can do. -/
inductive ChildStep (cfg : Config) (W : Worker) (names : Names) : ChildAction → Worker → Prop where
  | greet (hchild : W.child = .starting) :
      ChildStep cfg W names .greet { W with toClient := W.toClient ++ [1], child := .recvSize }
  | recvSize {n : Nat} {rest : List Message} (hchild : W.child = .recvSize)
      (hrecv : W.toChild = .size n :: rest) :
      ChildStep cfg W names .recv { W with toChild := rest, child := .recvLength n }
  | recvLength {n l : Nat} {rest : List Message} (hchild : W.child = .recvLength n)
      (hrecv : W.toChild = .length l :: rest) :
      ChildStep cfg W names .recv { W with toChild := rest, child := .recvName n l }
  | recvName {n l : Nat} {name : String} {rest : List Message} (hchild : W.child = .recvName n l)
      (hrecv : W.toChild = .name name :: rest) :
      ChildStep cfg W names .recv { W with toChild := rest, child := .shmOpen n name }
  | shmOpen {n : Nat} {name : String} {file : File} (hchild : W.child = .shmOpen n name)
      (hfile : names name = some file) :
      ChildStep cfg W names (.shmOpen true)
        { W with child := .mmap { name := name, size := n, file := file } }
  | shmOpenFails {n : Nat} {name : String} {ok : Bool} (hchild : W.child = .shmOpen n name)
      (hfail : ok = true → names name = none) :
      ChildStep cfg W names (.shmOpen ok) { W with child := mapFailed cfg }
  | mmap {sm : SharedMemory} (hchild : W.child = .mmap sm) :
      ChildStep cfg W names (.mmap true) { W with child := .ack (some sm) }
  | mmapFails {sm : SharedMemory} (hchild : W.child = .mmap sm) :
      ChildStep cfg W names (.mmap false) { W with child := mapFailed cfg }
  | ack {sm : SharedMemory} (hchild : W.child = .ack (some sm)) :
      ChildStep cfg W names .ack { W with toClient := W.toClient ++ [0], child := .ready sm }
  | ackNull (hchild : W.child = .ack none) :
      ChildStep cfg W names .ack { W with toClient := W.toClient ++ [0], child := .doomed }
  | die (hchild : W.child ≠ .dead) : ChildStep cfg W names .die { W with child := .dead }

/-- `ChildStep` says all that `childStep` does. -/
theorem childStep_cases {a : ChildAction} (h : childStep cfg W names a = some W') :
    ChildStep cfg W names a W' := by
  cases a with
  | greet =>
    simp only [childStep, Option.ite_none_right_eq_some] at h
    obtain ⟨hchild, h⟩ := h
    cases h
    exact .greet hchild
  | recv =>
    simp only [childStep] at h
    split at h
    · rename_i hchild hrecv
      cases h
      exact .recvSize hchild hrecv
    · rename_i hchild hrecv
      cases h
      exact .recvLength hchild hrecv
    · rename_i hchild hrecv
      cases h
      exact .recvName hchild hrecv
    · cases h
  | shmOpen ok =>
    simp only [childStep] at h
    split at h
    · rename_i n name hchild
      split at h
      · rename_i file hfile
        cases h
        exact .shmOpen hchild hfile
      · rename_i hfail
        cases h
        refine .shmOpenFails hchild fun e => ?_
        cases hname : names name with
        | none => rfl
        | some file => exact absurd hname (hfail file e)
    · cases h
  | mmap ok =>
    simp only [childStep] at h
    split at h
    · rename_i sm hchild
      cases ok <;> cases h
      · exact .mmapFails hchild
      · exact .mmap hchild
    · cases h
  | ack =>
    simp only [childStep] at h
    split at h
    · rename_i sm hchild
      cases h
      exact .ack hchild
    · rename_i hchild
      cases h
      exact .ackNull hchild
    · cases h
  | die =>
    simp only [childStep, Option.ite_none_left_eq_some] at h
    obtain ⟨hchild, h⟩ := h
    cases h
    exact .die hchild

/-! ## 3. The machine -/

/-- What a step of the machine can do. -/
inductive Step (cfg : Config) (s : State) : Action → State → Prop where
  | new {pid : Nat} (hpid : ∀ w, w < s.calls → (s.worker w).waited = false →
        (s.worker w).pid ≠ pid) :
      Step cfg s (.new pid) { s with
        calls := s.calls + 1
        worker := Function.update s.worker s.calls (newWorker pid) }
  | library {w : Nat} {a : LibraryAction} {W : Worker} {names : Names} (hw : w < s.calls)
      (h : LibraryStep cfg w (s.worker w) s.names a W names) :
      Step cfg s (.library w a) { s with worker := Function.update s.worker w W, names := names }
  | child {w : Nat} {a : ChildAction} {W : Worker} (hw : w < s.calls)
      (h : ChildStep cfg (s.worker w) s.names a W) :
      Step cfg s (.child w a) { s with worker := Function.update s.worker w W }

/-- `Step` says all that `exec` does. -/
theorem exec_cases {a : Action} (h : exec cfg s a = some s') : Step cfg s a s' := by
  cases a with
  | new pid =>
    simp only [exec, Option.ite_none_right_eq_some] at h
    obtain ⟨hpid, h⟩ := h
    cases h
    refine .new fun w hw hwaited => ?_
    simpa [hwaited] using List.all_eq_true.mp hpid w (List.mem_range.mpr hw)
  | library w a =>
    simp only [exec, Option.ite_none_right_eq_some] at h
    obtain ⟨hw, h⟩ := h
    obtain ⟨⟨W, names⟩, hstep, rfl⟩ := Option.map_eq_some_iff.mp h
    exact .library hw (libraryStep_cases hstep)
  | child w a =>
    simp only [exec, Option.ite_none_right_eq_some] at h
    obtain ⟨hw, h⟩ := h
    obtain ⟨W, hstep, rfl⟩ := Option.map_eq_some_iff.mp h
    exact .child hw (childStep_cases hstep)

end HdfStream.Startup
