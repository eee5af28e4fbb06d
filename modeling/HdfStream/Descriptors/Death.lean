/-
# A pipe is broken exactly when the worker has died

The library learns of the death of a worker from its pipes: `worker_process_send` takes `EPIPE`,
and `worker_process_recv` the end of the file, as a sign that the process has gone, set `is_dead`
and wait for it without a limit.  This is right only if no other process keeps the worker's ends
open.  Nothing is marked close-on-exec, so a worker has copies of what the library had open when
it was forked.  Since one call of `worker_process_new` goes on at a time, and the library closes
the worker's ends before the next `fork`, these copies are only of the library's own ends of older
workers (`Inherits`).  The worker's own ends end up at 0 and 1 (`Child.descriptors`), if these
numbers were taken when the pipes were made: `dup2` to the same number does nothing, and the
`close` after it would then close the only copy.
-/
import HdfStream.Descriptors.Ownership

namespace HdfStream.Descriptors

open DescriptorTable

variable {s s' : State} {w v : ℕ} {a : Action} {t : Table}

/-! ## 1. What a worker has of its own pipes -/

/-- The descriptors of a worker for its own pipes. -/
def Child.descriptors (w : ℕ) : Child → List (ℕ × Object)
  | .unborn | .dead => []
  | .branch .closeInputWrite input output => output.outputEnds w ++ input.inputEnds w
  | .branch .closeOutputRead input output =>
    [(output.write, .outputWrite w), (output.read, .outputRead w), (input.read, .inputRead w)]
  | .branch .dupOutput input output =>
    [(output.write, .outputWrite w), (input.read, .inputRead w)]
  | .branch .dupInput input output =>
    [(1, .outputWrite w), (output.write, .outputWrite w), (input.read, .inputRead w)]
  | .branch .closeInputRead input output =>
    [(0, .inputRead w), (1, .outputWrite w), (output.write, .outputWrite w),
      (input.read, .inputRead w)]
  | .branch .closeOutputWrite _ output =>
    [(0, .inputRead w), (1, .outputWrite w), (output.write, .outputWrite w)]
  | .branch .execv _ _ | .reading | .working => [(0, .inputRead w), (1, .outputWrite w)]

/-- A number of the library's standard input or output. -/
def Taken (t : Table) (fd : ℕ) : Prop := ∃ n, t.lookup fd = some (.other n)

theorem Taken.erase {fd fd' : ℕ} (h : Taken t fd) (hne : fd ≠ fd') : Taken (t.erase fd') fd := by
  obtain ⟨n, hn⟩ := h
  exact ⟨n, lookup_erase_iff.mpr ⟨hne, hn⟩⟩

theorem Taken.insert {fd fd' : ℕ} {o : Object} (h : Taken t fd) (hne : fd ≠ fd') :
    Taken (t.insert fd' o) fd := by
  obtain ⟨n, hn⟩ := h
  exact ⟨n, lookup_insert_iff.mpr (.inr ⟨hne, hn⟩)⟩

/-- A number that is taken is not one of the worker's. -/
theorem Taken.ne {fd fd' : ℕ} {o : Object} {l : List (ℕ × Object)} (h : Taken t fd)
    (hl : t.Lists (Of w) l) (hmem : (fd', o) ∈ l) (ho : Of w o) : fd' ≠ fd := by
  obtain ⟨n, hn⟩ := h
  exact hl.ne_of_lookup hmem ho hn nofun

theorem Taken.ne_of_free {fd fd' : ℕ} (h : Taken t fd) (hfree : t.lookup fd' = none) :
    fd ≠ fd' := by
  rintro rfl
  obtain ⟨n, hn⟩ := h
  rw [hfree] at hn
  cases hn

/-- The numbers of a pipe that is not at the standard input or output. -/
def Pipe.Above (p : Pipe) : Prop := 1 < p.read ∧ 1 < p.write

/-- In the child branch, `dup2` has not yet put an end of the worker at this number. -/
def Branch.Before : Branch → ℕ → Prop
  | .closeInputWrite, _ | .closeOutputRead, _ | .dupOutput, _ => True
  | .dupInput, fd => fd = 0
  | .closeInputRead, _ | .closeOutputWrite, _ | .execv, _ => False

/-- The table of the worker is that of its control point, as far as its own pipes go. -/
structure ChildOwns (w : ℕ) (c : Child) (t : Table) : Prop where
  lists : t.Lists (Of w) (c.descriptors w)
  above : ∀ pc input output, c = .branch pc input output → input.Above ∧ output.Above
  taken : ∀ pc input output fd, c = .branch pc input output → fd < 2 → pc.Before fd → Taken t fd
  gone : ¬ c.Alive → t = ∅

/-- A worker that has left the child branch. -/
theorem childOwns_main {c : Child} (hc : c = .reading ∨ c = .working)
    (hl : t.Lists (Of w) [(0, .inputRead w), (1, .outputWrite w)]) : ChildOwns w c t := by
  rcases hc with rfl | rfl <;>
    exact ⟨hl, fun _ _ _ h => (Child.noConfusion h), fun _ _ _ _ h => (Child.noConfusion h),
      fun h => (h ⟨nofun, nofun⟩).elim⟩

theorem ChildOwns.main {c : Child} (h : ChildOwns w c t) (hc : c = .reading ∨ c = .working) :
    t.Lists (Of w) [(0, .inputRead w), (1, .outputWrite w)] := by
  have hl := h.lists
  rcases hc with rfl | rfl <;> exact hl

theorem childOwns_gone {c : Child} (hc : ¬ c.Alive) : ChildOwns w c ∅ := by
  cases c with
  | unborn | dead =>
    exact ⟨lists_empty, fun _ _ _ h => (Child.noConfusion h),
      fun _ _ _ _ h => (Child.noConfusion h),
      fun _ => rfl⟩
  | branch | reading | working => exact (hc ⟨nofun, nofun⟩).elim

/-- The next point of the child branch, with the same copy of the struct. -/
theorem ChildOwns.next {pc pc' : Branch} {input output : Pipe} {t' : Table}
    (h : ChildOwns w (.branch pc input output) t)
    (hl : t'.Lists (Of w) ((Child.branch pc' input output).descriptors w))
    (htaken : ∀ fd, fd < 2 → pc'.Before fd → Taken t' fd) :
    ChildOwns w (.branch pc' input output) t' where
  lists := hl
  above pc₁ input₁ output₁ heq := by
    cases heq
    exact h.above _ _ _ rfl
  taken pc₁ input₁ output₁ fd heq hfd hbefore := by
    cases heq
    exact htaken fd hfd hbefore
  gone halive := (halive ⟨nofun, nofun⟩).elim

/-- One call of the child branch. -/
theorem ChildOwns.branchStep {pc : Branch} {input output : Pipe} (interrupted : Bool)
    (h : ChildOwns w (.branch pc input output) t) :
    ChildOwns w (branchStep t input output interrupted pc).2
      (branchStep t input output interrupted pc).1 := by
  obtain ⟨⟨hir, hiw⟩, hor, how⟩ := h.above _ _ _ rfl
  have hl := h.lists
  have htaken := fun fd hfd hbefore => h.taken _ _ _ fd rfl hfd hbefore
  have hne : ∀ o₁ o₂ {fd₁ fd₂}, (fd₁, o₁) ∈ (Child.branch pc input output).descriptors w →
      (fd₂, o₂) ∈ (Child.branch pc input output).descriptors w → Of w o₁ → Of w o₂ → o₁ ≠ o₂ →
        fd₁ ≠ fd₂ :=
    fun _ _ _ _ hmem₁ hmem₂ ho₁ ho₂ hne => hl.ne hmem₁ hmem₂ ho₁ ho₂ hne
  cases pc with
  | closeInputWrite =>
    have h₁ : output.write ≠ input.write := hne (.outputWrite w) (.inputWrite w)
      (by simp [Child.descriptors, Pipe.outputEnds])
      (by simp [Child.descriptors, Pipe.inputEnds]) rfl rfl (by simp)
    have h₂ : output.read ≠ input.write := hne (.outputRead w) (.inputWrite w)
      (by simp [Child.descriptors, Pipe.outputEnds])
      (by simp [Child.descriptors, Pipe.inputEnds]) rfl rfl (by simp)
    have h₃ : input.read ≠ input.write := hne (.inputRead w) (.inputWrite w)
      (by simp [Child.descriptors, Pipe.inputEnds])
      (by simp [Child.descriptors, Pipe.inputEnds]) rfl rfl (by simp)
    refine h.next ?_ fun fd hfd _ => (htaken fd hfd trivial).erase (by omega)
    simpa [Descriptors.branchStep, Child.descriptors, Pipe.inputEnds, Pipe.outputEnds, h₁, h₂,
      h₃] using
      hl.erase input.write
  | closeOutputRead =>
    have h₁ : output.write ≠ output.read := hne (.outputWrite w) (.outputRead w)
      (by simp [Child.descriptors]) (by simp [Child.descriptors]) rfl rfl (by simp)
    have h₂ : input.read ≠ output.read := hne (.inputRead w) (.outputRead w)
      (by simp [Child.descriptors]) (by simp [Child.descriptors]) rfl rfl (by simp)
    refine h.next ?_ fun fd hfd _ => (htaken fd hfd trivial).erase (by omega)
    simpa [Descriptors.branchStep, Child.descriptors, h₁, h₂] using hl.erase output.read
  | dupOutput =>
    cases interrupted with
    | true => exact h
    | false =>
      have hout : t.lookup output.write = some (.outputWrite w) :=
        hl.lookup (by simp [Child.descriptors]) rfl
      simp only [Descriptors.branchStep, Bool.false_eq_true, if_false]
      rw [dup2_of_lookup hout]
      refine h.next (hl.insert fun e hmem ho => ?_) fun fd hfd hbefore => ?_
      · exact (htaken 1 (by omega) trivial).ne hl hmem ho
      · -- only the standard input is still to come
        cases hbefore
        exact (htaken 0 hfd trivial).insert (by omega)
  | dupInput =>
    cases interrupted with
    | true => exact h
    | false =>
      have hin : t.lookup input.read = some (.inputRead w) :=
        hl.lookup (by simp [Child.descriptors]) rfl
      simp only [Descriptors.branchStep, Bool.false_eq_true, if_false]
      rw [dup2_of_lookup hin]
      refine h.next (hl.insert fun e hmem ho => ?_) fun fd hfd hbefore => hbefore.elim
      exact (htaken 0 (by omega) rfl).ne hl hmem ho
  | closeInputRead =>
    have h₁ : output.write ≠ input.read := hne (.outputWrite w) (.inputRead w)
      (by simp [Child.descriptors]) (by simp [Child.descriptors]) rfl rfl (by simp)
    have h₂ : 0 ≠ input.read := by omega
    have h₃ : 1 ≠ input.read := by omega
    refine h.next ?_ fun fd hfd hbefore => hbefore.elim
    simpa [Descriptors.branchStep, Child.descriptors, h₁, h₂, h₃] using hl.erase input.read
  | closeOutputWrite =>
    have h₁ : 0 ≠ output.write := by omega
    have h₂ : 1 ≠ output.write := by omega
    refine h.next ?_ fun fd hfd hbefore => hbefore.elim
    simpa [Descriptors.branchStep, Child.descriptors, h₁, h₂] using hl.erase output.write
  | execv => exact childOwns_main (.inr rfl) hl

/-- Every live worker has a copy of each of its two ends. -/
theorem ChildOwns.alive {c : Child} (h : ChildOwns w c t) (hc : c.Alive) :
    t.Holds (.inputRead w) ∧ t.Holds (.outputWrite w) := by
  rw [h.lists.holds_iff rfl, h.lists.holds_iff rfl]
  cases c with
  | unborn => exact (hc.1 rfl).elim
  | dead => exact (hc.2 rfl).elim
  | branch pc input output =>
    cases pc <;> simp [Child.descriptors, Pipe.inputEnds, Pipe.outputEnds]
  | reading | working => simp [Child.descriptors]

/-! ## 2. What a worker has of the pipes of others -/

/-- The ends that a worker has inherited are those that the library keeps of older workers, and
what calls without a process have left behind. -/
def Inherits (s : State) (w : ℕ) : Prop :=
  ∀ v o, (s.childTable w).Holds o → o.worker = some v → v ≠ w →
    v < w ∧ (s.child v ≠ .unborn → o = .inputWrite v ∨ o = .outputRead v)

/-- The standard input and output of the library are open. -/
def Standard (s : State) : Prop := s.library = true → ∀ fd < 2, Taken s.libraryTable fd

/-- The invariant of the tables of the workers. -/
structure Inv (s : State) : Prop where
  calls : Calls s
  libraryOwns : LibraryOwns s
  libraryGone : s.library = false → s.libraryTable = ∅
  standard : Standard s
  childOwns : ∀ w, ChildOwns w (s.child w) (s.childTable w)
  inherits : ∀ w, Inherits s w
  isDead : ∀ w, s.isDead w = true → s.child w = .dead

theorem start_inv : Inv start where
  calls := start_calls
  libraryOwns := start_libraryOwns
  libraryGone h := by cases h
  standard _ fd hfd := ⟨fd, by
    simp only [start, standardTable, lookup_insert_iff, Finmap.lookup_empty]
    rcases Nat.lt_succ_iff_lt_or_eq.mp hfd with hfd | rfl
    · rw [Nat.lt_one_iff.mp hfd]
      exact .inr ⟨by decide, .inr ⟨by decide, .inl ⟨rfl, rfl⟩⟩⟩
    · exact .inr ⟨by decide, .inl ⟨rfl, rfl⟩⟩⟩
  childOwns _ := childOwns_gone fun h => h.1 rfl
  inherits _ _ _ h := (not_holds_empty h).elim
  isDead _ h := by cases h

/-- The library has both its ends of a worker's pipes, or has closed them again, and the other two
only until it comes to `worker->init`. -/
theorem descriptors_kept {st : Stage} {fd : ℕ} {o : Object} (hchild : ¬ st.Childless)
    (hst : ¬ st.Starting) (hmem : (fd, o) ∈ st.descriptors w) :
    o = .inputWrite w ∨ o = .outputRead w := by
  cases st with
  | unborn | pipeInput | pipeOutput | fork | null => exact (hchild trivial).elim
  | closeInputRead | closeOutputWrite => exact (hst trivial).elim
  | init | running | waiting | closeInputWrite =>
    simp only [Stage.descriptors, List.mem_cons, Prod.mk.injEq, List.not_mem_nil, or_false] at hmem
    rcases hmem with ⟨-, rfl⟩ | ⟨-, rfl⟩
    · exact .inr rfl
    · exact .inl rfl
  | closeOutputRead =>
    simp only [Stage.descriptors, List.mem_cons, Prod.mk.injEq, List.not_mem_nil, or_false] at hmem
    exact .inr hmem.2
  | freed => cases hmem

/-- **Who has an end of a worker's pipes open**: its process, and for the ends of the library the
library and younger workers. -/
theorem Inv.held (h : Inv s) (hw : s.child w ≠ .unborn)
    (hst : s.library = false ∨ ¬ (s.stage w).Starting) {o : Object} (ho : Of w o)
    (hend : o = .inputRead w ∨ o = .outputWrite w) : s.Held o ↔ s.child w ≠ .dead := by
  have hends : ¬ (o = .inputWrite w ∨ o = .outputRead w) := by
    rcases hend with rfl | rfl <;> rintro (h | h) <;> cases h
  have hchild : ¬ (s.stage w).Childless := fun hc => hw ((h.calls.childless w).mpr hc)
  constructor
  · rintro (hheld | ⟨v, -, hheld⟩) hdead
    · -- the library has closed its copies of them
      cases hlib : s.library with
      | false =>
        rw [h.libraryGone hlib] at hheld
        exact not_holds_empty hheld
      | true =>
        obtain ⟨fd, hmem⟩ := ((h.libraryOwns hlib w).holds_iff ho).mp hheld
        exact hends (descriptors_kept hchild (hst.resolve_left (by rw [hlib]; nofun)) hmem)
    · by_cases hv : w = v
      · subst hv
        rw [(h.childOwns w).gone fun halive => halive.2 hdead] at hheld
        exact not_holds_empty hheld
      · exact hends ((h.inherits v w o hheld ho hv).2 hw)
  · intro hdead
    have halive := (h.childOwns w).alive ⟨hw, hdead⟩
    refine .inr ⟨w, h.calls.lt fun hu => hchild (by rw [hu]; trivial), ?_⟩
    rcases hend with rfl | rfl
    · exact halive.1
    · exact halive.2

/-! ## 3. The steps of the library -/

theorem Inv.fork (h : Inv s) (hlib : s.library = true) {input output : Pipe}
    (hst : s.stage w = .fork input output) :
    Inv ((s.setStage w (.closeInputRead input output)).setChild w
      (.branch .closeInputWrite input output) s.libraryTable) := by
  have hstep : LibraryStep s w (.fork true) ((s.setStage w (.closeInputRead input output)).setChild
    w (.branch .closeInputWrite input output) s.libraryTable) := .fork hst
  have hstarting := h.calls.started w (by rw [hst]; trivial)
  have hlists := h.libraryOwns hlib w
  rw [hst] at hlists
  -- the numbers of the four ends are not the standard ones
  have habove : ∀ fd o, (fd, o) ∈ (Stage.fork input output).descriptors w → Of w o → 1 < fd := by
    intro fd o hmem ho
    have h₀ := (h.standard hlib 0 (by omega)).ne hlists hmem ho
    have h₁ := (h.standard hlib 1 (by omega)).ne hlists hmem ho
    omega
  have hunborn : s.child w = .unborn := (h.calls.childless w).mpr (by rw [hst]; trivial)
  refine ⟨h.calls.libraryStep hstep, fun _ => h.libraryOwns.libraryStep hlib hstep, h.libraryGone,
    h.standard, fun v => ?_, fun v u o hheld ho hne => ?_, fun v hv => ?_⟩
  · change ChildOwns v (Function.update s.child w _ v) (Function.update s.childTable w _ v)
    by_cases hvw : v = w
    · subst hvw
      rw [Function.update_self, Function.update_self]
      refine ⟨hlists, fun pc i o heq => ?_, fun pc i o fd heq hfd _ => h.standard hlib fd hfd,
        fun halive => (halive ⟨nofun, nofun⟩).elim⟩
      cases heq
      exact ⟨⟨habove _ (.inputRead v) (by simp [Stage.descriptors, Pipe.inputEnds]) rfl,
        habove _ (.inputWrite v) (by simp [Stage.descriptors, Pipe.inputEnds]) rfl⟩,
        habove _ (.outputRead v) (by simp [Stage.descriptors, Pipe.outputEnds]) rfl,
        habove _ (.outputWrite v) (by simp [Stage.descriptors, Pipe.outputEnds]) rfl⟩
    · rw [Function.update_of_ne hvw, Function.update_of_ne hvw]
      exact h.childOwns v
  · change DescriptorTable.Holds (Function.update s.childTable w _ v) o at hheld
    change u < v ∧ (Function.update s.child w _ u ≠ .unborn → _)
    by_cases hvw : v = w
    · -- the new worker: it has what the library has at this moment
      subst hvw
      rw [Function.update_self] at hheld
      rw [Function.update_of_ne hne]
      obtain ⟨fd, hmem⟩ := ((h.libraryOwns hlib u).holds_iff ho).mp hheld
      have hborn : s.stage u ≠ .unborn := fun hu => by rw [hu] at hmem; cases hmem
      have hlt : u < s.calls := h.calls.lt hborn
      have hcalls := h.calls.starting v hstarting
      refine ⟨by omega, fun hchild => ?_⟩
      refine descriptors_kept (fun hc => hchild ((h.calls.childless u).mpr hc)) (fun hs => ?_) hmem
      have hsu := h.calls.started u hs
      rw [hstarting, Option.some.injEq] at hsu
      exact hne hsu.symm
    · rw [Function.update_of_ne hvw] at hheld
      obtain ⟨hlt, hkept⟩ := h.inherits v u o hheld ho hne
      refine ⟨hlt, fun hchild => ?_⟩
      -- an older worker was there before this one
      have huw : u ≠ w := by
        rintro rfl
        have hcalls := h.calls.starting u hstarting
        have hv : v < s.calls := by
          refine h.calls.lt fun hu => ?_
          rw [(h.childOwns v).gone fun halive => halive.1 ((h.calls.childless v).mpr
            (by rw [hu]; trivial))] at hheld
          exact not_holds_empty hheld
        omega
      rw [Function.update_of_ne huw] at hchild
      exact hkept hchild
  · change Function.update s.child w _ v = _
    have hvw : v ≠ w := by
      rintro rfl
      rw [h.isDead v hv] at hunborn
      cases hunborn
    rw [Function.update_of_ne hvw]
    exact h.isDead v hv

/-- A step that leaves the processes and their tables alone. -/
theorem Inv.ofLibrary (h : Inv s) (hcalls : Calls s') (hlib : s'.library = true)
    (howns : Owned s'.libraryTable s'.stage) (hstandard : ∀ fd < 2, Taken s'.libraryTable fd)
    (hchild : s'.child = s.child) (htable : s'.childTable = s.childTable)
    (hdead : ∀ v, s'.isDead v = true → s.isDead v = true ∨ s.child v = .dead) : Inv s' where
  calls := hcalls
  libraryOwns _ := howns
  libraryGone hgone := by
    rw [hlib] at hgone
    cases hgone
  standard _ := hstandard
  childOwns v := by
    rw [hchild, htable]
    exact h.childOwns v
  inherits v u o := by
    rw [hchild, htable]
    exact h.inherits v u o
  isDead v hv := by
    rw [hchild]
    rcases hdead v hv with hv | hv
    · exact h.isDead v hv
    · exact hv

/-- The standard input and output stay open: `pipe` returns free numbers, and `close` is of an
end of a pipe. -/
theorem Inv.libraryStep_standard {a : LibraryAction} (h : Inv s) (hlib : s.library = true)
    (hstep : LibraryStep s w a s') : ∀ fd < 2, Taken s'.libraryTable fd := by
  intro fd hfd
  have htaken := h.standard hlib fd hfd
  have hpipe : ∀ {p : Pipe} {o o'}, p.Fresh s.libraryTable →
      Taken ((s.libraryTable.insert p.read o).insert p.write o') fd := fun hp =>
    (htaken.insert (htaken.ne_of_free hp.2.1)).insert (htaken.ne_of_free hp.2.2)
  have hclose : ∀ st fd', (s.stage w).close = some (fd', st) →
      Taken (s.libraryTable.erase fd') fd := by
    intro st fd' hst
    obtain ⟨o, ho, hfd'⟩ := close_lookup (h.libraryOwns hlib w) hst
    refine htaken.erase ?_
    rintro rfl
    obtain ⟨n, hn⟩ := htaken
    rw [hfd', Option.some.injEq] at hn
    subst hn
    cases ho
  cases hstep with
  | pipeInput hfresh hst | pipeOutput hfresh hst => exact hpipe hfresh
  | close hst hlast => exact hclose _ _ hst
  | closeLast hst =>
    rw [setReturned_libraryTable]
    exact hclose .freed _ (by rw [hst]; rfl)
  | pipeInputFails | pipeOutputFails | forkFails | initReturns =>
    rw [setReturned_libraryTable]
    exact htaken
  | fork | free | waitpid | send | recv | noticed => exact htaken

/-- `is_dead` is set only for a worker that has died. -/
theorem Inv.noticed (h : Inv s) (hst : (s.stage w).InUse)
    (hdead : s.child w = .dead ∨ ¬ s.Held (.inputRead w) ∨ ¬ s.Held (.outputWrite w)) :
    s.child w = .dead := by
  have hstarting : ¬ (s.stage w).Starting := by
    revert hst
    cases s.stage w <;> simp [Stage.InUse, Stage.Starting]
  have hborn : s.child w ≠ .unborn := by
    rw [Ne, h.calls.childless w]
    revert hst
    cases s.stage w <;> simp [Stage.InUse, Stage.Childless]
  rcases hdead with hdead | hheld | hheld
  · exact hdead
  · by_contra hne
    exact hheld ((h.held hborn (.inr hstarting) rfl (.inl rfl)).mpr hne)
  · by_contra hne
    exact hheld ((h.held hborn (.inr hstarting) rfl (.inr rfl)).mpr hne)

theorem Inv.libraryStep {a : LibraryAction} (h : Inv s) (hlib : s.library = true)
    (hstep : LibraryStep s w a s') : Inv s' := by
  have hcalls := h.calls.libraryStep hstep
  have howns := h.libraryOwns.libraryStep hlib hstep
  have hstandard := h.libraryStep_standard hlib hstep
  cases hstep with
  | fork hst => exact h.fork hlib hst
  | pipeInputFails | pipeOutputFails | forkFails | closeLast | initReturns =>
    exact h.ofLibrary hcalls ((setReturned_library _ w).trans hlib) howns hstandard
      (by rw [setReturned_child]; rfl) (by rw [setReturned_childTable]; rfl)
      fun v hv => .inl (by rw [setReturned_isDead] at hv; exact hv)
  | noticed hst hdead =>
    refine h.ofLibrary hcalls hlib howns hstandard rfl rfl fun v hv => ?_
    change Function.update s.isDead w true v = true at hv
    by_cases hvw : v = w
    · exact .inr (hvw ▸ h.noticed hst hdead)
    · rw [Function.update_of_ne hvw] at hv
      exact .inl hv
  | pipeInput | pipeOutput | close | free | waitpid | send | recv =>
    exact h.ofLibrary hcalls hlib howns hstandard rfl rfl fun v hv => .inl hv

/-! ## 4. The steps of a worker -/

/-- A step of a live worker. -/
theorem Inv.setChild (h : Inv s) {c : Child} (hcalls : Calls (s.setChild w c t))
    (halive : (s.child w).Alive) (hown : ChildOwns w c t)
    (hold : ∀ o, t.Holds o → (s.childTable w).Holds o ∨ o.worker = none) :
    Inv (s.setChild w c t) := by
  -- the other workers were there before, and so was this one
  have hunborn : ∀ u, Function.update s.child w c u ≠ .unborn → s.child u ≠ .unborn := by
    intro u hu
    by_cases huw : u = w
    · exact huw ▸ halive.1
    · rwa [Function.update_of_ne huw] at hu
  refine ⟨hcalls, h.libraryOwns, h.libraryGone, h.standard, fun v => ?_,
    fun v u o hheld ho hne => ?_,
    fun v hv => ?_⟩
  · change ChildOwns v (Function.update s.child w c v) (Function.update s.childTable w t v)
    by_cases hvw : v = w
    · subst hvw
      rwa [Function.update_self, Function.update_self]
    · rw [Function.update_of_ne hvw, Function.update_of_ne hvw]
      exact h.childOwns v
  · change DescriptorTable.Holds (Function.update s.childTable w t v) o at hheld
    have hheld' : (s.childTable v).Holds o := by
      by_cases hvw : v = w
      · subst hvw
        rw [Function.update_self] at hheld
        refine (hold o hheld).resolve_right fun hnone => ?_
        rw [ho] at hnone
        cases hnone
      · rwa [Function.update_of_ne hvw] at hheld
    obtain ⟨hlt, hkept⟩ := h.inherits v u o hheld' ho hne
    exact ⟨hlt, fun hu => hkept (hunborn u hu)⟩
  · change Function.update s.child w c v = _
    have hvw : v ≠ w := fun hvw => halive.2 (hvw ▸ h.isDead v hv)
    rw [Function.update_of_ne hvw]
    exact h.isDead v hv

theorem alive_of_main {c : Child} (hc : c = .reading ∨ c = .working) : c.Alive := by
  rcases hc with rfl | rfl <;> exact ⟨nofun, nofun⟩

theorem Inv.childStep {a : ChildAction} (h : Inv s) (hcalls : Calls s')
    (hstep : ChildStep s w a s') : Inv s' := by
  have hown := h.childOwns w
  cases hstep with
  | @branch pc input output interrupted hc =>
    rw [hc] at hown
    refine h.setChild hcalls (by rw [hc]; exact ⟨nofun, nofun⟩) (hown.branchStep interrupted) ?_
    intro o ho
    cases pc <;> cases interrupted <;> first
      | exact .inl ho.of_erase
      | exact .inl ho.of_dup2
      | exact .inl ho
  | die hc =>
    exact h.setChild hcalls hc (childOwns_gone fun halive => halive.2 rfl)
      fun o ho => (not_holds_empty ho).elim
  | recv hc hn hle =>
    have hinv := h.setChild (w := w) (c := .working) (t := s.childTable w)
      ⟨hcalls.unborn, hcalls.starting, hcalls.started, hcalls.childless⟩
      (alive_of_main hc) (childOwns_main (.inr rfl) (hown.main hc)) fun o ho => .inl ho
    exact ⟨hcalls, hinv.libraryOwns, hinv.libraryGone, hinv.standard, hinv.childOwns,
      hinv.inherits, hinv.isDead⟩
  | send =>
    exact ⟨hcalls, h.libraryOwns, h.libraryGone, h.standard, h.childOwns, h.inherits, h.isDead⟩
  | finish hc =>
    exact h.setChild hcalls (alive_of_main (.inr hc))
      (childOwns_main (.inl rfl) (hown.main (.inr hc))) fun o ho => .inl ho
  | openOther hc hfree =>
    refine h.setChild hcalls (alive_of_main hc)
      (childOwns_main hc ((hown.main hc).insert_other hfree (not_of_none rfl))) fun o ho => ?_
    rcases ho.of_insert with rfl | ho
    · exact .inr rfl
    · exact .inl ho
  | closeOther hc hfd ho =>
    exact h.setChild hcalls (alive_of_main hc)
      (childOwns_main hc ((hown.main hc).erase_other hfd (not_of_none ho)))
      fun o ho => .inl ho.of_erase

/-! ## 5. Every run -/

theorem Inv.exec (h : Inv s) (hstd : a.KeepsStandard) (ha : exec s a = some s') : Inv s' := by
  have hcalls := h.calls.exec ha
  have howns := h.libraryOwns.exec (h.calls.unborn _ le_rfl) ha
  cases exec_cases ha with
  | new hlib hidle =>
    exact h.ofLibrary hcalls hlib (howns hlib) (h.standard hlib) rfl rfl fun v hv => .inl hv
  | library hlib hstep => exact h.libraryStep hlib hstep
  | child hstep => exact h.childStep hcalls hstep
  | openOther hlib hfree =>
    exact h.ofLibrary hcalls hlib (howns hlib)
      (fun fd hfd => (h.standard hlib fd hfd).insert ((h.standard hlib fd hfd).ne_of_free hfree))
      rfl rfl fun v hv => .inl hv
  | @closeOther fd' o hlib hfd ho =>
    have habove : 1 < fd' := hstd
    exact h.ofLibrary hcalls hlib (howns hlib)
      (fun fd hfd => (h.standard hlib fd hfd).erase (by omega)) rfl rfl fun v hv => .inl hv
  | exit hlib =>
    exact ⟨hcalls, howns, fun _ => rfl, nofun, h.childOwns, h.inherits, h.isDead⟩

theorem run_inv {tr : List Action} (h : machine.run tr = some s)
    (hstd : machine.StepsMeet (fun _ a => a.KeepsStandard) tr) : Inv s :=
  machine.stepsMeet_induction (I := Inv) start_inv (fun _ _ _ hi hc ha => hi.exec hc ha) tr s h hstd

/-- The start of a worker with these numbers, up to `worker->init`. -/
def startWorker (w : ℕ) (input output : Pipe) : List Action :=
  [.new, .library w (.pipe (some input)), .library w (.pipe (some output)), .library w (.fork true),
    .library w .close, .library w .close]

/-- The child branch, with one interrupted call. -/
def branchSteps (w : ℕ) : List Action :=
  [.child w (.branch false), .child w (.branch false), .child w (.branch true),
    .child w (.branch false), .child w (.branch false), .child w (.branch false),
    .child w (.branch false), .child w (.branch false)]

/-- A worker dies while a younger one, which has copies of the library's ends, lives on. -/
def olderDies : List Action :=
  startWorker 0 ⟨3, 4⟩ ⟨5, 6⟩ ++ branchSteps 0 ++ [.library 0 (.initReturns true)] ++
    startWorker 1 ⟨3, 6⟩ ⟨7, 8⟩ ++ branchSteps 1 ++ [.child 0 .die, .library 0 .sendBroken]

end HdfStream.Descriptors
