/-
# Which descriptors the library has, and what it leaves behind

At every point of `worker_process_new` and `worker_process_free` the library has a known list of
ends of the worker's pipes, and no others (`Stage.descriptors`).  So every `close` of the two
functions is of a descriptor that is open and belongs to this worker, whatever other threads open
and close in the meantime.  A freed worker leaves nothing behind.  A call that fails leaves its
descriptors behind exactly when it was the second `pipe` or the `fork` that failed: these two
branches free the struct and do not close the ends.
-/
import HdfStream.Descriptors.Steps

namespace HdfStream.Descriptors

open DescriptorTable

variable {s s' : State} {w v : ℕ} {a : Action}

/-! ## 1. What the library has -/

/-- The two ends of an input pipe. -/
def Pipe.inputEnds (p : Pipe) (w : ℕ) : List (ℕ × Object) :=
  [(p.write, .inputWrite w), (p.read, .inputRead w)]

/-- The two ends of an output pipe. -/
def Pipe.outputEnds (p : Pipe) (w : ℕ) : List (ℕ × Object) :=
  [(p.write, .outputWrite w), (p.read, .outputRead w)]

/-- The descriptors of the library for the pipes of the worker. -/
def Stage.descriptors (w : ℕ) : Stage → List (ℕ × Object)
  | .unborn | .pipeInput | .freed => []
  | .pipeOutput input => input.inputEnds w
  | .fork input output | .closeInputRead input output => output.outputEnds w ++ input.inputEnds w
  | .closeOutputWrite input output =>
    [(output.write, .outputWrite w), (output.read, .outputRead w), (input.write, .inputWrite w)]
  | .init input output | .running input output | .waiting input output
  | .closeInputWrite input output =>
    [(output.read, .outputRead w), (input.write, .inputWrite w)]
  | .closeOutputRead output => [(output.read, .outputRead w)]
  | .null input output =>
    (output.elim [] fun p => p.outputEnds w) ++ (input.elim [] fun p => p.inputEnds w)

/-- The class of the ends of the worker's pipes. -/
abbrev Of (w : ℕ) (o : Object) : Prop := o.worker = some w

theorem not_of {o : Object} (ho : Of w o) (hne : v ≠ w) : ¬ Of v o := by
  intro hv
  rw [Of, ho, Option.some.injEq] at hv
  exact hne hv.symm

theorem not_of_none {o : Object} (ho : o.worker = none) : ¬ Of w o := by
  rw [Of, ho]
  exact nofun

/-- The descriptors for the pipes of each worker are those of its stage. -/
def Owned (t : Table) (stage : ℕ → Stage) : Prop :=
  ∀ w, t.Lists (Of w) ((stage w).descriptors w)

/-- A step with one worker leaves the descriptors of the others alone. -/
theorem Owned.update {t t' : Table} {stage : ℕ → Stage} {st : Stage} (h : Owned t stage)
    (hw : t'.Lists (Of w) (st.descriptors w))
    (hothers : ∀ v l, v ≠ w → t.Lists (Of v) l → t'.Lists (Of v) l) :
    Owned t' (Function.update stage w st) := by
  intro v
  by_cases hv : v = w
  · subst hv
    rwa [Function.update_self]
  · rw [Function.update_of_ne hv]
    exact hothers v _ hv (h v)

/-- A step that changes the stage and neither the table nor what the library should have. -/
theorem Owned.restage {t : Table} {stage : ℕ → Stage} {st : Stage} (h : Owned t stage)
    (hst : st.descriptors w = (stage w).descriptors w) :
    Owned t (Function.update stage w st) :=
  h.update (by rw [hst]; exact h w) fun _ _ _ hl => hl

/-! ## 2. The calls of `pipe` and `close` -/

/-- `pipe` adds its two ends. -/
theorem lists_pipe {t : Table} {p : Pipe} {l : List (ℕ × Object)} {o o' : Object}
    (h : t.Lists (Of w) l) (hp : p.Fresh t) :
    DescriptorTable.Lists ((t.insert p.read o).insert p.write o') (Of w)
      ((p.write, o') :: (p.read, o) :: l) := by
  refine (h.insert_free hp.2.1).insert_free ?_
  rw [Finmap.lookup_insert_of_ne _ hp.1.symm]
  exact hp.2.2

/-- `pipe` leaves the ends of other workers alone. -/
theorem lists_pipe_other {t : Table} {p : Pipe} {l : List (ℕ × Object)} {o o' : Object}
    (h : t.Lists (Of v) l) (hp : p.Fresh t) (ho : Of w o) (ho' : Of w o') (hne : v ≠ w) :
    DescriptorTable.Lists ((t.insert p.read o).insert p.write o') (Of v) l := by
  refine (h.insert_other hp.2.1 (not_of ho hne)).insert_other ?_ (not_of ho' hne)
  rw [Finmap.lookup_insert_of_ne _ hp.1.symm]
  exact hp.2.2

/-- `close` takes its number off the list. -/
theorem lists_close {t : Table} {st st' : Stage} {fd : ℕ} (h : t.Lists (Of w) (st.descriptors w))
    (hst : st.close = some (fd, st')) :
    DescriptorTable.Lists (t.erase fd) (Of w) (st'.descriptors w) := by
  have herase := h.erase fd
  -- two ends on the list have different numbers
  have hne : ∀ fd₁ o₁ fd₂ o₂, (fd₁, o₁) ∈ st.descriptors w → (fd₂, o₂) ∈ st.descriptors w →
      Of w o₁ → Of w o₂ → o₁ ≠ o₂ → fd₁ ≠ fd₂ :=
    fun _ _ _ _ hmem₁ hmem₂ ho₁ ho₂ hne => h.ne hmem₁ hmem₂ ho₁ ho₂ hne
  cases st with
  | closeInputRead input output =>
    cases hst
    have h₁ := hne output.write (.outputWrite w) input.read (.inputRead w)
      (by simp [Stage.descriptors, Pipe.outputEnds])
      (by simp [Stage.descriptors, Pipe.inputEnds]) rfl rfl (by simp)
    have h₂ := hne output.read (.outputRead w) input.read (.inputRead w)
      (by simp [Stage.descriptors, Pipe.outputEnds])
      (by simp [Stage.descriptors, Pipe.inputEnds]) rfl rfl (by simp)
    have h₃ := hne input.write (.inputWrite w) input.read (.inputRead w)
      (by simp [Stage.descriptors, Pipe.inputEnds])
      (by simp [Stage.descriptors, Pipe.inputEnds]) rfl rfl (by simp)
    simpa [Stage.descriptors, Pipe.inputEnds, Pipe.outputEnds, h₁, h₂, h₃] using herase
  | closeOutputWrite input output =>
    cases hst
    have h₁ := hne output.read (.outputRead w) output.write (.outputWrite w)
      (by simp [Stage.descriptors]) (by simp [Stage.descriptors]) rfl rfl (by simp)
    have h₂ := hne input.write (.inputWrite w) output.write (.outputWrite w)
      (by simp [Stage.descriptors]) (by simp [Stage.descriptors]) rfl rfl (by simp)
    simpa [Stage.descriptors, h₁, h₂] using herase
  | closeInputWrite input output =>
    cases hst
    have h₁ := hne output.read (.outputRead w) input.write (.inputWrite w)
      (by simp [Stage.descriptors]) (by simp [Stage.descriptors]) rfl rfl (by simp)
    simpa [Stage.descriptors, h₁] using herase
  | closeOutputRead output =>
    cases hst
    simpa [Stage.descriptors] using herase
  | unborn | pipeInput | pipeOutput | fork | init | running | waiting | freed | null => cases hst

/-- The number a `close` is called with is an open end of this worker. -/
theorem close_lookup {t : Table} {st st' : Stage} {fd : ℕ} (h : t.Lists (Of w) (st.descriptors w))
    (hst : st.close = some (fd, st')) : ∃ o, Of w o ∧ t.lookup fd = some o := by
  cases st with
  | closeInputRead input output =>
    cases hst
    exact ⟨_, rfl, h.lookup (o := .inputRead w)
      (by simp [Stage.descriptors, Pipe.inputEnds]) rfl⟩
  | closeOutputWrite input output =>
    cases hst
    exact ⟨_, rfl, h.lookup (o := .outputWrite w) (by simp [Stage.descriptors]) rfl⟩
  | closeInputWrite input output =>
    cases hst
    exact ⟨_, rfl, h.lookup (o := .inputWrite w) (by simp [Stage.descriptors]) rfl⟩
  | closeOutputRead output =>
    cases hst
    exact ⟨_, rfl, h.lookup (o := .outputRead w) (by simp [Stage.descriptors]) rfl⟩
  | unborn | pipeInput | pipeOutput | fork | init | running | waiting | freed | null => cases hst

/-- A `close` keeps `Owned`. -/
theorem Owned.close {t : Table} {stage : ℕ → Stage} {st : Stage} {fd : ℕ} (h : Owned t stage)
    (hst : (stage w).close = some (fd, st)) :
    Owned (t.erase fd) (Function.update stage w st) := by
  obtain ⟨o, ho, hfd⟩ := close_lookup (h w) hst
  exact h.update (lists_close (h w) hst) fun v l hne hl => hl.erase_other hfd (not_of ho hne)

/-! ## 3. Every step -/

/-- What the library has, while its process is running. -/
def LibraryOwns (s : State) : Prop := s.library = true → Owned s.libraryTable s.stage

theorem start_libraryOwns : LibraryOwns start := by
  intro _ w fd o ho
  constructor
  · intro hfd
    simp only [start, standardTable, lookup_insert_iff, Finmap.lookup_empty] at hfd
    rcases hfd with ⟨-, rfl⟩ | ⟨-, ⟨-, rfl⟩ | ⟨-, ⟨-, rfl⟩ | ⟨-, hfd⟩⟩⟩ <;> first
      | cases ho
      | cases hfd
  · intro hmem
    cases hmem

theorem LibraryOwns.libraryStep {a : LibraryAction} (h : LibraryOwns s) (hlib : s.library = true)
    (hstep : LibraryStep s w a s') : Owned s'.libraryTable s'.stage := by
  have hs := h hlib
  cases hstep with
  | pipeInputFails hst =>
    rw [setReturned_libraryTable, setReturned_stage]
    exact hs.restage (by rw [hst]; rfl)
  | pipeOutputFails hst =>
    rw [setReturned_libraryTable, setReturned_stage]
    exact hs.restage (by rw [hst]; rfl)
  | pipeInput hfresh hst =>
    refine hs.update ?_ fun v l hne hl => lists_pipe_other hl hfresh rfl rfl hne
    have hw := hs w
    rw [hst] at hw
    exact lists_pipe hw hfresh
  | pipeOutput hfresh hst =>
    refine hs.update ?_ fun v l hne hl => lists_pipe_other hl hfresh rfl rfl hne
    have hw := hs w
    rw [hst] at hw
    exact lists_pipe hw hfresh
  | fork hst => exact hs.restage (by rw [hst]; rfl)
  | forkFails hst =>
    rw [setReturned_libraryTable, setReturned_stage]
    exact hs.restage (by rw [hst]; rfl)
  | close hst hlast => exact hs.close hst
  | closeLast hst =>
    rw [setReturned_libraryTable, setReturned_stage]
    exact hs.close (by rw [hst]; rfl)
  | initReturns hst =>
    rw [setReturned_libraryTable, setReturned_stage]
    exact hs.restage (by rw [hst]; rfl)
  | free hst =>
    refine hs.restage ?_
    rcases hst with hst | hst <;> rw [hst] <;> split <;> rfl
  | waitpid hst hdead => exact hs.restage (by rw [hst]; rfl)
  | send | recv | noticed => exact hs

/-- The steps of the workers change neither the library's table nor its stages. -/
theorem childStep_library {a : ChildAction} (hstep : ChildStep s w a s') :
    s'.library = s.library ∧ s'.libraryTable = s.libraryTable ∧ s'.stage = s.stage ∧
      s'.calls = s.calls ∧ s'.starting = s.starting ∧ s'.isDead = s.isDead := by
  cases hstep <;> exact ⟨rfl, rfl, rfl, rfl, rfl, rfl⟩

/-- A worker that has not been asked for has no descriptors. -/
theorem LibraryOwns.exec (h : LibraryOwns s) (hunborn : s.stage s.calls = .unborn)
    (ha : exec s a = some s') : LibraryOwns s' := by
  intro hlib'
  cases exec_cases ha with
  | new hlib hidle => exact (h hlib).restage (by rw [hunborn]; rfl)
  | library hlib hstep => exact h.libraryStep hlib hstep
  | child hstep =>
    obtain ⟨hlib, htable, hstage, -⟩ := childStep_library hstep
    rw [htable, hstage]
    exact h (hlib ▸ hlib')
  | openOther hlib hfree =>
    exact fun v => (h hlib v).insert_other hfree (not_of_none rfl)
  | closeOther hlib hfd ho => exact fun v => (h hlib v).erase_other hfd (not_of_none ho)
  | exit hlib => cases hlib'

/-! ## 4. The calls -/

/-- `worker_process_new` is at a `pipe`, the `fork`, or the closing of the child's ends. -/
def Stage.Starting : Stage → Prop
  | .pipeInput | .pipeOutput _ | .fork _ _ | .closeInputRead _ _ | .closeOutputWrite _ _ => True
  | _ => False

/-- No process has been made. -/
def Stage.Childless : Stage → Prop
  | .unborn | .pipeInput | .pipeOutput _ | .fork _ _ | .null _ _ => True
  | _ => False

/-- The calls of `worker_process_new`: they are numbered in turn, and one goes on at a time. -/
structure Calls (s : State) : Prop where
  unborn : ∀ w, s.calls ≤ w → s.stage w = .unborn
  starting : ∀ w, s.starting = some w → w + 1 = s.calls
  started : ∀ w, (s.stage w).Starting → s.starting = some w
  childless : ∀ w, s.child w = .unborn ↔ (s.stage w).Childless

theorem start_calls : Calls start where
  unborn _ _ := rfl
  starting _ h := by cases h
  started _ h := h.elim
  childless _ := ⟨fun _ => trivial, fun _ => rfl⟩

/-- A worker that the library does something with has been asked for. -/
theorem Calls.lt (h : Calls s) (hst : s.stage w ≠ .unborn) : w < s.calls := by
  by_contra hle
  exact hst (h.unborn w (Nat.le_of_not_lt hle))

/-- A step that changes stage and process of one worker. -/
theorem Calls.update (h : Calls s) {st : Stage} {c : Child} (hw : w < s.calls)
    (hcalls : s'.calls = s.calls) (hstage : s'.stage = Function.update s.stage w st)
    (hchild : s'.child = Function.update s.child w c)
    (hstarting : ∀ v, s'.starting = some v → s.starting = some v)
    (hothers : ∀ v, v ≠ w → s.starting = some v → s'.starting = some v)
    (hst : st.Starting → s'.starting = some w) (hc : c = .unborn ↔ st.Childless) : Calls s' where
  unborn v hle := by
    rw [hcalls] at hle
    rw [hstage, Function.update_of_ne (ne_of_gt (hw.trans_le hle))]
    exact h.unborn v hle
  starting v hv := by
    rw [hcalls]
    exact h.starting v (hstarting v hv)
  started v hv := by
    rw [hstage] at hv
    by_cases hvw : v = w
    · subst hvw
      rw [Function.update_self] at hv
      exact hst hv
    · rw [Function.update_of_ne hvw] at hv
      exact hothers v hvw (h.started v hv)
  childless v := by
    rw [hstage, hchild]
    by_cases hvw : v = w
    · subst hvw
      rw [Function.update_self, Function.update_self]
      exact hc
    · rw [Function.update_of_ne hvw, Function.update_of_ne hvw]
      exact h.childless v

/-- A step of the library that makes no process and goes on with its call. -/
theorem Calls.restage (h : Calls s) {st : Stage} (hold : s.stage w ≠ .unborn)
    (hcalls : s'.calls = s.calls) (hstage : s'.stage = Function.update s.stage w st)
    (hchild : s'.child = s.child) (hstarting : s'.starting = s.starting)
    (hst : st.Starting → (s.stage w).Starting)
    (hc : st.Childless ↔ (s.stage w).Childless) : Calls s' := by
  refine h.update (h.lt hold) hcalls hstage (hchild.trans (Function.update_eq_self w _).symm)
    (fun v hv => hstarting ▸ hv) (fun v _ hv => hstarting ▸ hv) (fun hs => ?_) ?_
  · rw [hstarting]
    exact h.started w (hst hs)
  · rw [hc]
    exact h.childless w

/-- A step of the library that makes no process and may end its call. -/
theorem Calls.returned (h : Calls s) {st : Stage} (hold : s.stage w ≠ .unborn)
    (hcalls : s'.calls = s.calls) (hstage : s'.stage = Function.update s.stage w st)
    (hchild : s'.child = s.child)
    (hstarting : ∀ v, s'.starting = some v ↔ s.starting = some v ∧ v ≠ w)
    (hst : ¬ st.Starting) (hc : st.Childless ↔ (s.stage w).Childless) : Calls s' := by
  refine h.update (h.lt hold) hcalls hstage (hchild.trans (Function.update_eq_self w _).symm)
    (fun v hv => ((hstarting v).mp hv).1) (fun v hne hv => (hstarting v).mpr ⟨hv, hne⟩)
    (fun hs => (hst hs).elim) ?_
  rw [hc]
  exact h.childless w

theorem Calls.libraryStep {a : LibraryAction} (h : Calls s) (hstep : LibraryStep s w a s') :
    Calls s' := by
  cases hstep with
  | pipeInputFails hst | pipeOutputFails hst | forkFails hst =>
    exact h.returned (by rw [hst]; simp) (by simp [State.setStage]) (by rw [setReturned_stage]; rfl)
      (by rw [setReturned_child]; rfl) (fun v => setReturned_starting) id
      (by rw [hst]; exact Iff.rfl)
  | pipeInput hfresh hst | pipeOutput hfresh hst =>
    exact h.restage (by rw [hst]; simp) rfl rfl rfl rfl (fun _ => by rw [hst]; trivial)
      (by rw [hst]; exact Iff.rfl)
  | fork hst =>
    refine h.update (h.lt (by rw [hst]; simp)) rfl rfl rfl (fun v hv => hv) (fun v _ hv => hv)
      (fun _ => h.started w (by rw [hst]; trivial)) ⟨(fun hc => by cases hc), fun hc => hc.elim⟩
  | @close fd st hst hlast =>
    have hold : s.stage w ≠ .unborn := fun he => by rw [he] at hst; cases hst
    refine h.restage hold rfl rfl rfl rfl (fun hs => ?_) ?_
    · revert hst hs
      cases s.stage w <;> simp [Stage.close] <;> rintro - rfl <;> simp [Stage.Starting]
    · revert hst
      cases s.stage w <;> simp [Stage.close] <;> rintro - rfl <;> simp [Stage.Childless]
  | closeLast hst =>
    exact h.returned (by rw [hst]; simp) (by simp [State.setStage]) (by rw [setReturned_stage]; rfl)
      (by rw [setReturned_child]; rfl) (fun v => setReturned_starting) id
      (by rw [hst]; exact Iff.rfl)
  | initReturns hst =>
    exact h.returned (by rw [hst]; simp) (by simp [State.setStage]) (by rw [setReturned_stage]; rfl)
      (by rw [setReturned_child]; rfl) (fun v => setReturned_starting) id
      (by rw [hst]; exact Iff.rfl)
  | free hst =>
    refine h.restage (by rcases hst with hst | hst <;> rw [hst] <;> simp) rfl rfl rfl rfl ?_ ?_
    · split <;> exact False.elim
    · rcases hst with hst | hst <;> rw [hst] <;> split <;> exact Iff.rfl
  | waitpid hst hdead =>
    exact h.restage (by rw [hst]; simp) rfl rfl rfl rfl (fun hs => hs.elim)
      (by rw [hst]; exact Iff.rfl)
  | send | recv | noticed => exact ⟨h.unborn, h.starting, h.started, h.childless⟩

/-- A step of a worker neither makes nor unmakes a process. -/
theorem childStep_unborn {a : ChildAction} (hstep : ChildStep s w a s') (v : ℕ) :
    s'.child v = .unborn ↔ s.child v = .unborn := by
  have key : ∀ c t, c ≠ .unborn → s.child w ≠ .unborn →
      ((s.setChild w c t).child v = .unborn ↔ s.child v = .unborn) := by
    intro c t hc hold
    change Function.update s.child w c v = .unborn ↔ _
    by_cases hv : v = w
    · subst hv
      rw [Function.update_self]
      exact iff_of_false hc hold
    · rw [Function.update_of_ne hv]
  cases hstep with
  | @branch pc input output interrupted hc =>
    refine key _ _ ?_ (by rw [hc]; nofun)
    cases pc <;> cases interrupted <;> simp [branchStep]
  | die hc => exact key _ _ nofun hc.1
  | recv hc hn hle =>
    exact key _ (s.childTable w) nofun (by rcases hc with hc | hc <;> rw [hc] <;> nofun)
  | send => exact Iff.rfl
  | finish hc => exact key _ _ nofun (by rw [hc]; nofun)
  | openOther hc hfree =>
    have hold : s.child w ≠ .unborn := by rcases hc with hc | hc <;> rw [hc] <;> nofun
    exact key _ _ hold hold
  | closeOther hc hfd ho =>
    have hold : s.child w ≠ .unborn := by rcases hc with hc | hc <;> rw [hc] <;> nofun
    exact key _ _ hold hold

theorem Calls.exec (h : Calls s) (ha : exec s a = some s') : Calls s' := by
  cases exec_cases ha with
  | new hlib hidle =>
    -- no call goes on, so no stage is a starting one
    have hnone : ∀ v, ¬ (s.stage v).Starting := fun v hv => by
      have := h.started v hv
      rw [hidle] at this
      cases this
    refine ⟨fun v hle => ?_, fun v hv => ?_, fun v hv => ?_, fun v => ?_⟩
    · have hlt : s.calls < v := Nat.lt_of_succ_le hle
      change Function.update s.stage s.calls _ v = _
      rw [Function.update_of_ne hlt.ne']
      exact h.unborn v hlt.le
    · cases hv
      rfl
    · change (Function.update s.stage s.calls _ v).Starting at hv
      by_cases hvw : v = s.calls
      · rw [hvw]
      · rw [Function.update_of_ne hvw] at hv
        exact (hnone v hv).elim
    · change s.child v = .unborn ↔ (Function.update s.stage s.calls Stage.pipeInput v).Childless
      by_cases hvw : v = s.calls
      · subst hvw
        rw [Function.update_self, h.childless, h.unborn _ le_rfl]
        exact Iff.rfl
      · rw [Function.update_of_ne hvw]
        exact h.childless v
  | library hlib hstep => exact h.libraryStep hstep
  | child hstep =>
    obtain ⟨-, -, hstage, hcalls, hstarting, -⟩ := childStep_library hstep
    refine ⟨fun v hle => ?_, fun v hv => ?_, fun v hv => ?_, fun v => ?_⟩
    · rw [hstage]
      exact h.unborn v (hcalls ▸ hle)
    · rw [hcalls]
      exact h.starting v (hstarting ▸ hv)
    · rw [hstarting]
      exact h.started v (hstage ▸ hv)
    · rw [childStep_unborn hstep, hstage]
      exact h.childless v
  | openOther hlib hfree => exact ⟨h.unborn, h.starting, h.started, h.childless⟩
  | closeOther hlib hfd ho => exact ⟨h.unborn, h.starting, h.started, h.childless⟩
  | exit hlib => exact ⟨h.unborn, h.starting, h.started, h.childless⟩

/-! ## 5. Every run -/

theorem reachable_calls (h : machine.Reachable s) : Calls s :=
  machine.reachable_induction (I := Calls) start_calls (fun _ _ _ _ hi ha => hi.exec ha) s h

theorem reachable_libraryOwns (h : machine.Reachable s) : LibraryOwns s :=
  machine.reachable_induction (I := LibraryOwns) start_libraryOwns
    (fun _ _ _ hr hi ha => hi.exec ((reachable_calls hr).unborn _ le_rfl) ha) s h

/-- **The library closes what it has opened, and nothing else.**  At every moment of every run the
process of the library holds, for each worker, exactly the ends of the stage the worker is in.
Hence each `close` of `worker_process_new` and `worker_process_free` is of an open end of that
worker's pipes, a freed worker has none left, and a call that has returned `NULL` after a failed
`pipe` or `fork` has left some behind exactly if it had made a pipe. -/
theorem descriptors_owned (h : machine.Reachable s) (hlib : s.library = true) :
    (∀ w fd o, o.worker = some w →
      (s.libraryTable.lookup fd = some o ↔ (fd, o) ∈ (s.stage w).descriptors w)) ∧
    (∀ w fd st, (s.stage w).close = some (fd, st) →
      ∃ o, o.worker = some w ∧ s.libraryTable.lookup fd = some o) ∧
    (∀ w, s.stage w = .freed → ∀ o, o.worker = some w → ¬ s.libraryTable.Holds o) ∧
    (∀ w input output, s.stage w = .null input output →
      ((∃ o, o.worker = some w ∧ s.libraryTable.Holds o) ↔ input.isSome ∨ output.isSome)) := by
  have howns := reachable_libraryOwns h hlib
  refine ⟨howns, fun w fd st hst => close_lookup (howns w) hst, fun w hst o ho hheld => ?_,
    fun w input output hst => ?_⟩
  · obtain ⟨fd, hmem⟩ := ((howns w).holds_iff ho).mp hheld
    rw [hst] at hmem
    cases hmem
  · have hw := howns w
    rw [hst] at hw
    constructor
    · rintro ⟨o, ho, hheld⟩
      obtain ⟨fd, hmem⟩ := (hw.holds_iff ho).mp hheld
      cases input <;> cases output <;> simp_all [Stage.descriptors]
    · intro hsome
      cases output with
      | some p =>
        exact ⟨.outputRead w, rfl, (hw.holds_iff rfl).mpr
          ⟨p.read, by simp [Stage.descriptors, Pipe.outputEnds]⟩⟩
      | none =>
        obtain ⟨p, rfl⟩ := Option.isSome_iff_exists.mp (hsome.resolve_right (by simp))
        exact ⟨.inputRead w, rfl, (hw.holds_iff rfl).mpr
          ⟨p.read, by simp [Stage.descriptors, Pipe.inputEnds]⟩⟩

/-- The first worker is made and freed while other code opens a descriptor at a number that was
closed; the `fork` of the second one fails. -/
def failedFork : List Action :=
  [.new, .library 0 (.pipe (some ⟨3, 4⟩)), .library 0 (.pipe (some ⟨5, 6⟩)),
    .library 0 (.fork true),
    .library 0 .close, .openOther 3 7, .library 0 .close, .library 0 (.initReturns false),
    .child 0 .die, .library 0 .waitpid, .library 0 .close, .library 0 .close,
    .new, .library 1 (.pipe (some ⟨4, 5⟩)), .library 1 (.pipe (some ⟨6, 8⟩)),
    .library 1 (.fork false)]

theorem descriptors_owned_failedFork :
    ∃ s, machine.run failedFork = some s ∧
      (∀ o, o.worker = some 0 → ¬ s.libraryTable.Holds o) ∧
      ∃ o, o.worker = some 1 ∧ s.libraryTable.Holds o := by
  have hrun : (machine.run failedFork).map
      (fun s => (s.library, s.stage 0, s.stage 1)) =
        some (true, .freed, .null (some ⟨4, 5⟩) (some ⟨6, 8⟩)) := by decide +kernel
  obtain ⟨s, hs, hst⟩ := Option.map_eq_some_iff.mp hrun
  rw [Prod.mk.injEq, Prod.mk.injEq] at hst
  obtain ⟨-, -, hfreed, hnull⟩ := descriptors_owned ⟨failedFork, hs⟩ hst.1
  exact ⟨s, hs, hfreed 0 hst.2.1, (hnull 1 _ _ hst.2.2).mpr (.inl rfl)⟩

end HdfStream.Descriptors
