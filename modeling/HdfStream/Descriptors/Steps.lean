/-
# What a step of the library or of a worker can do

`LibraryStep` and `ChildStep` have one constructor for each way a step can go, with its guards as
hypotheses.  Only `libraryStep_cases` and `childStep_cases` unfold the step functions.
-/
import HdfStream.Descriptors.Model

namespace HdfStream.Descriptors

open DescriptorTable

variable {s s' : State} {w : ℕ}

/-! ## 1. States after an update -/

@[simp] theorem setReturned_library (s : State) (w : ℕ) :
    (s.setReturned w).library = s.library := by
  unfold State.setReturned
  split <;> rfl

@[simp] theorem setReturned_calls (s : State) (w : ℕ) : (s.setReturned w).calls = s.calls := by
  unfold State.setReturned
  split <;> rfl

@[simp] theorem setReturned_stage (s : State) (w : ℕ) : (s.setReturned w).stage = s.stage := by
  unfold State.setReturned
  split <;> rfl

@[simp] theorem setReturned_isDead (s : State) (w : ℕ) : (s.setReturned w).isDead = s.isDead := by
  unfold State.setReturned
  split <;> rfl

@[simp] theorem setReturned_child (s : State) (w : ℕ) : (s.setReturned w).child = s.child := by
  unfold State.setReturned
  split <;> rfl

@[simp] theorem setReturned_libraryTable (s : State) (w : ℕ) :
    (s.setReturned w).libraryTable = s.libraryTable := by
  unfold State.setReturned
  split <;> rfl

@[simp] theorem setReturned_childTable (s : State) (w : ℕ) :
    (s.setReturned w).childTable = s.childTable := by
  unfold State.setReturned
  split <;> rfl

/-- A call that has returned is not the one that is going on. -/
theorem setReturned_starting {v : ℕ} :
    (s.setReturned w).starting = some v ↔ s.starting = some v ∧ v ≠ w := by
  unfold State.setReturned
  split
  · rename_i h
    rw [h, Option.some.injEq]
    exact ⟨fun hv => (Option.some_ne_none v hv.symm).elim, fun ⟨hv, hne⟩ => (hne hv.symm).elim⟩
  · rename_i h
    exact ⟨fun hv => ⟨hv, fun hne => h (hne ▸ hv)⟩, fun hv => hv.1⟩

/-! ## 2. The library -/

/-- What a step of the library with worker `w` can do. -/
inductive LibraryStep (s : State) (w : ℕ) : LibraryAction → State → Prop where
  | pipeInputFails (hst : s.stage w = .pipeInput) :
      LibraryStep s w (.pipe none) ((s.setStage w (.null none none)).setReturned w)
  | pipeOutputFails {input : Pipe} (hst : s.stage w = .pipeOutput input) :
      LibraryStep s w (.pipe none) ((s.setStage w (.null (some input) none)).setReturned w)
  | pipeInput {p : Pipe} (hfresh : p.Fresh s.libraryTable) (hst : s.stage w = .pipeInput) :
      LibraryStep s w (.pipe (some p)) { s.setStage w (.pipeOutput p) with
        libraryTable :=
          (s.libraryTable.insert p.read (.inputRead w)).insert p.write (.inputWrite w) }
  | pipeOutput {input p : Pipe} (hfresh : p.Fresh s.libraryTable)
      (hst : s.stage w = .pipeOutput input) :
      LibraryStep s w (.pipe (some p)) { s.setStage w (.fork input p) with
        libraryTable :=
          (s.libraryTable.insert p.read (.outputRead w)).insert p.write (.outputWrite w) }
  | fork {input output : Pipe} (hst : s.stage w = .fork input output) :
      LibraryStep s w (.fork true) ((s.setStage w (.closeInputRead input output)).setChild w
        (.branch .closeInputWrite input output) s.libraryTable)
  | forkFails {input output : Pipe} (hst : s.stage w = .fork input output) :
      LibraryStep s w (.fork false)
        ((s.setStage w (.null (some input) (some output))).setReturned w)
  /-- A `close` that is not the last one. -/
  | close {fd : ℕ} {st : Stage} (hst : (s.stage w).close = some (fd, st)) (hlast : st ≠ .freed) :
      LibraryStep s w .close { s.setStage w st with libraryTable := s.libraryTable.erase fd }
  | closeLast {output : Pipe} (hst : s.stage w = .closeOutputRead output) :
      LibraryStep s w .close (State.setReturned
        { s.setStage w .freed with libraryTable := s.libraryTable.erase output.read } w)
  | initReturns {input output : Pipe} (hst : s.stage w = .init input output) :
      LibraryStep s w (.initReturns true)
        ((s.setStage w (.running input output)).setReturned w)
  /-- `worker_process_free` is called, by `worker_process_new` or by the pool. -/
  | free {input output : Pipe} {a : LibraryAction}
      (hst : s.stage w = .init input output ∨ s.stage w = .running input output) :
      LibraryStep s w a (s.free w input output)
  | waitpid {input output : Pipe} (hst : s.stage w = .waiting input output)
      (hdead : s.child w = .dead) :
      LibraryStep s w .waitpid (s.setStage w (.closeInputWrite input output))
  | send {n : ℕ} :
      LibraryStep s w (.send n)
        { s with inputBytes := Function.update s.inputBytes w (s.inputBytes w + n) }
  | recv {n : ℕ} :
      LibraryStep s w (.recv n)
        { s with outputBytes := Function.update s.outputBytes w (s.outputBytes w - n) }
  /-- The library finds out that the worker has died. -/
  | noticed {a : LibraryAction} (hst : (s.stage w).InUse)
      (hdead : s.child w = .dead ∨ ¬ s.Held (.inputRead w) ∨ ¬ s.Held (.outputWrite w)) :
      LibraryStep s w a { s with isDead := Function.update s.isDead w true }

theorem pipe_cases {p : Option Pipe} (h : s.pipe w p = some s') : LibraryStep s w (.pipe p) s' := by
  cases p with
  | none =>
    simp only [State.pipe] at h
    split at h
    · rename_i hst
      cases h
      exact .pipeInputFails hst
    · rename_i hst
      cases h
      exact .pipeOutputFails hst
    · cases h
  | some p =>
    simp only [State.pipe] at h
    split at h
    · rename_i hfresh
      split at h
      · rename_i hst
        cases h
        exact .pipeInput hfresh hst
      · rename_i hst
        cases h
        exact .pipeOutput hfresh hst
      · cases h
    · cases h

theorem fork_cases {ok : Bool} (h : s.fork w ok = some s') : LibraryStep s w (.fork ok) s' := by
  simp only [State.fork] at h
  split at h
  · rename_i hst
    cases ok with
    | true =>
      cases h
      exact .fork hst
    | false =>
      cases h
      exact .forkFails hst
  · cases h

/-- Only the last `close` ends with a freed worker. -/
theorem close_eq_freed {st : Stage} {fd : ℕ} (h : st.close = some (fd, .freed)) :
    ∃ output, st = .closeOutputRead output ∧ fd = output.read := by
  cases st <;> simp [Stage.close] at h
  exact ⟨_, rfl, h.symm⟩

theorem close_cases (h : s.close w = some s') : LibraryStep s w .close s' := by
  simp only [State.close] at h
  split at h
  · cases h
  · rename_i fd st hst
    by_cases hlast : st = .freed
    · subst hlast
      obtain ⟨output, hout, rfl⟩ := close_eq_freed hst
      cases h
      exact .closeLast hout
    · rw [if_neg hlast] at h
      cases h
      exact .close hst hlast

/-- `LibraryStep` says all that the library does. -/
theorem libraryStep_cases {a : LibraryAction} (h : libraryStep s w a = some s') :
    LibraryStep s w a s' := by
  cases a with
  | pipe p => exact pipe_cases h
  | fork ok => exact fork_cases h
  | close => exact close_cases h
  | initReturns ok =>
    simp only [libraryStep] at h
    split at h
    · rename_i hst
      cases ok with
      | true =>
        cases h
        exact .initReturns hst
      | false =>
        cases h
        exact .free (.inl hst)
    · cases h
  | send n =>
    simp only [libraryStep] at h
    split at h
    · cases h
      exact .send
    · cases h
  | recv n =>
    simp only [libraryStep] at h
    split at h
    · cases h
      exact .recv
    · cases h
  | sendBroken =>
    simp only [libraryStep] at h
    split at h
    · rename_i hg
      cases h
      exact .noticed hg.1 (.inr (.inl hg.2.2))
    · cases h
  | recvEnd =>
    simp only [libraryStep] at h
    split at h
    · rename_i hg
      cases h
      exact .noticed hg.1 (.inr (.inr hg.2.2.2))
    · cases h
  | isAlive =>
    simp only [libraryStep] at h
    split at h
    · rename_i hg
      cases h
      exact .noticed hg.1 (.inl hg.2.2)
    · cases h
  | free =>
    simp only [libraryStep] at h
    split at h
    · rename_i hst
      cases h
      exact .free (.inr hst)
    · cases h
  | waitpid =>
    simp only [libraryStep] at h
    split at h
    · rename_i hst
      split at h
      · rename_i hdead
        cases h
        exact .waitpid hst hdead
      · cases h
    · cases h

/-! ## 3. The workers -/

/-- What a step of worker `w` can do. -/
inductive ChildStep (s : State) (w : ℕ) : ChildAction → State → Prop where
  | branch {pc : Branch} {input output : Pipe} {interrupted : Bool}
      (hc : s.child w = .branch pc input output) :
      ChildStep s w (.branch interrupted)
        (s.setChild w (branchStep (s.childTable w) input output interrupted pc).2
          (branchStep (s.childTable w) input output interrupted pc).1)
  | die {a : ChildAction} (hc : (s.child w).Alive) : ChildStep s w a (s.die w)
  | recv {n : ℕ} (hc : s.child w = .reading ∨ s.child w = .working) (hn : 0 < n)
      (hle : n ≤ s.inputBytes w) :
      ChildStep s w (.recv n) { s.setChild w .working (s.childTable w) with
        inputBytes := Function.update s.inputBytes w (s.inputBytes w - n) }
  | send {n : ℕ} :
      ChildStep s w (.send n)
        { s with outputBytes := Function.update s.outputBytes w (s.outputBytes w + n) }
  | finish (hc : s.child w = .working) :
      ChildStep s w .finish (s.setChild w .reading (s.childTable w))
  | openOther {fd n : ℕ} (hc : s.child w = .reading ∨ s.child w = .working)
      (hfree : (s.childTable w).lookup fd = none) :
      ChildStep s w (.openOther fd n)
        (s.setChild w (s.child w) ((s.childTable w).insert fd (.other n)))
  | closeOther {fd : ℕ} {o : Object} (hc : s.child w = .reading ∨ s.child w = .working)
      (hfd : (s.childTable w).lookup fd = some o) (ho : o.worker = none) :
      ChildStep s w (.closeOther fd) (s.setChild w (s.child w) ((s.childTable w).erase fd))

/-- `ChildStep` says all that a worker does. -/
theorem childStep_cases {a : ChildAction} (h : childStep s w a = some s') : ChildStep s w a s' := by
  cases a with
  | branch interrupted =>
    simp only [childStep] at h
    split at h
    · rename_i hc
      cases h
      exact .branch hc
    · cases h
  | abort =>
    simp only [childStep] at h
    split at h
    · rename_i hc
      cases h
      exact .die (by rw [hc]; exact ⟨nofun, nofun⟩)
    · cases h
  | recv n =>
    simp only [childStep] at h
    split at h
    · rename_i hg
      cases h
      exact .recv hg.1 hg.2.1 hg.2.2
    · cases h
  | recvEnd =>
    simp only [childStep] at h
    split at h
    · rename_i hg
      cases h
      exact .die (by rw [hg.1]; exact ⟨nofun, nofun⟩)
    · cases h
  | send n =>
    simp only [childStep] at h
    split at h
    · cases h
      exact .send
    · cases h
  | finish =>
    simp only [childStep] at h
    split at h
    · rename_i hc
      cases h
      exact .finish hc
    · cases h
  | openOther fd n =>
    simp only [childStep] at h
    split at h
    · rename_i hg
      cases h
      exact .openOther hg.1 hg.2
    · cases h
  | closeOther fd =>
    simp only [childStep] at h
    split at h
    · rename_i hg
      obtain ⟨hc, o, hfd, ho⟩ := hg
      cases h
      exact .closeOther hc hfd ho
    · cases h
  | die =>
    simp only [childStep] at h
    split at h
    · rename_i hc
      cases h
      exact .die hc
    · cases h

/-! ## 4. The machine -/

/-- What a step can do. -/
inductive Step (s : State) : Action → State → Prop where
  | new (hlib : s.library = true) (hidle : s.starting = none) :
      Step s .new { s.setStage s.calls .pipeInput with
        calls := s.calls + 1
        starting := some s.calls }
  | library {w : ℕ} {a : LibraryAction} {s₁ : State} (hlib : s.library = true)
      (h : LibraryStep s w a s₁) : Step s (.library w a) s₁
  | child {w : ℕ} {a : ChildAction} {s₁ : State} (h : ChildStep s w a s₁) :
      Step s (.child w a) s₁
  | openOther {fd n : ℕ} (hlib : s.library = true) (hfree : s.libraryTable.lookup fd = none) :
      Step s (.openOther fd n) { s with libraryTable := s.libraryTable.insert fd (.other n) }
  | closeOther {fd : ℕ} {o : Object} (hlib : s.library = true)
      (hfd : s.libraryTable.lookup fd = some o) (ho : o.worker = none) :
      Step s (.closeOther fd) { s with libraryTable := s.libraryTable.erase fd }
  | exit (hlib : s.library = true) :
      Step s .exit { s with library := false, libraryTable := ∅ }

/-- `Step` says all that the machine does. -/
theorem exec_cases {a : Action} (h : exec s a = some s') : Step s a s' := by
  cases a with
  | new =>
    simp only [exec] at h
    split at h
    · rename_i hg
      cases h
      exact .new hg.1 hg.2
    · cases h
  | library w a =>
    simp only [exec] at h
    split at h
    · rename_i hlib
      exact .library hlib (libraryStep_cases h)
    · cases h
  | child w a => exact .child (childStep_cases h)
  | openOther fd n =>
    simp only [exec] at h
    split at h
    · rename_i hg
      cases h
      exact .openOther hg.1 hg.2
    · cases h
  | closeOther fd =>
    simp only [exec] at h
    split at h
    · rename_i hg
      obtain ⟨hlib, o, hfd, ho⟩ := hg
      cases h
      exact .closeOther hlib hfd ho
    · cases h
  | exit =>
    simp only [exec] at h
    split at h
    · rename_i hlib
      cases h
      exact .exit hlib
    · cases h

end HdfStream.Descriptors
