/-
# The workers end when the library has gone

When the process of the library ends, a worker is told by the end of the file at its standard
input, and only if no other process has the writing end open.  Younger workers do have it open,
since they have inherited it.  But they hold only the ends of workers that are older than they
are, so the youngest worker sees the end of the file at once, and with it goes the copy that has
kept the next one waiting.

What can go wrong is a worker that does not come back to its main loop, such as one that waits for
a buffer which nobody will hand back: it keeps itself and all the older workers, and no one else.
-/
import HdfStream.Descriptors.Death
import Mathlib.Algebra.Order.BigOperators.Group.Finset

namespace HdfStream.Descriptors

open DescriptorTable

variable {s s' : State} {w v : ℕ} {a : Action}

/-! ## 1. How much is left to do -/

/-- The calls of the child branch that are left. -/
def Branch.rank : Branch → ℕ
  | .closeInputWrite => 7
  | .closeOutputRead => 6
  | .dupOutput => 5
  | .dupInput => 4
  | .closeInputRead => 3
  | .closeOutputWrite => 2
  | .execv => 1

/-- How far the process is from its end. -/
def Child.weight : Child → ℕ
  | .unborn | .dead => 0
  | .reading => 1
  | .working => 2
  | .branch pc _ _ => pc.rank + 2

/-- The weight of one worker, with the bytes that it has still to read. -/
def State.weightOf (s : State) (w : ℕ) : ℕ := (s.child w).weight + 2 * s.inputBytes w

/-- What is left to do for all workers. -/
def State.weight (s : State) : ℕ := ∑ w ∈ Finset.range s.calls, s.weightOf w

/-- The steps that bring a worker nearer to its end: all but an interrupted `dup2`, output, and
the opening and closing of other files. -/
def ChildAction.progress : ChildAction → Bool
  | .branch interrupted => !interrupted
  | .abort | .recv _ | .recvEnd | .finish | .die => true
  | .send _ | .openOther _ _ | .closeOther _ => false

def Action.progress : Action → Bool
  | .child _ a => a.progress
  | _ => false

/-- Nothing is left to do for a worker that is dead, except for bytes nobody will read. -/
theorem weight_pos {c : Child} (hc : c.Alive) : 0 < c.weight := by
  cases c with
  | unborn => exact (hc.1 rfl).elim
  | dead => exact (hc.2 rfl).elim
  | branch | reading | working => simp [Child.weight]

theorem weight_branchStep (t : Table) (input output : Pipe) (interrupted : Bool) (pc : Branch) :
    (branchStep t input output interrupted pc).2.weight + (if interrupted then 0 else 1) ≤
      (Child.branch pc input output).weight := by
  cases pc <;> cases interrupted <;> simp [branchStep, Child.weight, Branch.rank]

/-- A step of one worker changes the weight of that worker only. -/
theorem weight_le {n : ℕ} (hw : w < s.calls) (hcalls : s'.calls = s.calls)
    (hothers : ∀ v, v ≠ w → s'.weightOf v = s.weightOf v)
    (hself : n + s'.weightOf w ≤ s.weightOf w) :
    n + s'.weight ≤ s.weight := by
  have hmem : w ∈ Finset.range s.calls := Finset.mem_range.mpr hw
  unfold State.weight
  rw [hcalls, ← Finset.add_sum_erase _ _ hmem, ← Finset.add_sum_erase _ _ hmem, ← add_assoc]
  exact Nat.add_le_add hself
    (Finset.sum_le_sum fun v hv => (hothers v (Finset.ne_of_mem_erase hv)).le)

/-- A step of a worker, with its process and its bytes after it. -/
theorem weight_setChild {c : Child} {t : Table} (bytes : ℕ → ℕ) {n : ℕ} (hw : w < s.calls)
    (hbytes : ∀ v, v ≠ w → bytes v = s.inputBytes v)
    (hself : n + (c.weight + 2 * bytes w) ≤ (s.child w).weight + 2 * s.inputBytes w) :
    n + State.weight { s.setChild w c t with inputBytes := bytes } ≤ s.weight := by
  refine weight_le (s := s) hw rfl (fun v hv => ?_) ?_
  · change (Function.update s.child w c v).weight + 2 * bytes v = _
    rw [Function.update_of_ne hv, hbytes v hv]
    rfl
  · change n + ((Function.update s.child w c w).weight + 2 * bytes w) ≤ _
    rw [Function.update_self]
    exact hself

/-- **Each step of a worker** that is progress takes something off the weight, and no step adds
to it. -/
theorem weight_childStep {b : ChildAction} (hcalls : Calls s) (hstep : ChildStep s w b s') :
    (if b.progress then 1 else 0) + s'.weight ≤ s.weight := by
  -- a worker that makes a step has been asked for
  have hlt : (s.child w).Alive → w < s.calls := fun halive =>
    hcalls.lt fun hu => halive.1 ((hcalls.childless w).mpr (by rw [hu]; trivial))
  have hle : (if b.progress then 1 else 0) ≤ 1 := by split <;> omega
  cases hstep with
  | @branch pc input output interrupted hc =>
    refine weight_setChild s.inputBytes (hlt (by rw [hc]; exact ⟨nofun, nofun⟩))
      (fun _ _ => rfl) ?_
    have hstep := weight_branchStep (s.childTable w) input output interrupted pc
    rw [hc]
    cases interrupted <;> simp [ChildAction.progress] at hstep ⊢ <;> omega
  | die hc =>
    refine weight_setChild s.inputBytes (hlt hc) (fun _ _ => rfl) ?_
    have hpos := weight_pos hc
    have hdead : Child.dead.weight = 0 := rfl
    omega
  | @recv n hc hn hbytes =>
    refine weight_setChild _ (hlt (alive_of_main hc)) (fun v hv => Function.update_of_ne hv _ _) ?_
    rw [Function.update_self]
    rcases hc with hc | hc <;> rw [hc] <;> simp only [Child.weight] <;> omega
  | send => exact (Nat.zero_add _).le
  | finish hc =>
    refine weight_setChild s.inputBytes (hlt (alive_of_main (.inr hc)))
      (fun _ _ => rfl) ?_
    rw [hc]
    simp only [Child.weight]
    omega
  | openOther hc hfree | closeOther hc hfd ho =>
    exact weight_setChild s.inputBytes (hlt (alive_of_main hc)) (fun _ _ => rfl)
      (Nat.zero_add _).le

/-- Once the library has gone only the workers make steps. -/
theorem weight_exec (hcalls : Calls s) (hlib : s.library = false) (ha : exec s a = some s') :
    s'.library = false ∧ (if a.progress then 1 else 0) + s'.weight ≤ s.weight := by
  cases exec_cases ha with
  | child hstep => exact ⟨(childStep_library hstep).1.trans hlib, weight_childStep hcalls hstep⟩
  | new h | library h | openOther h | closeOther h | exit h =>
    rw [hlib] at h
    cases h

/-- **A run of the orphans**: it has at most as many steps of progress as there is weight. -/
theorem weight_runFrom {tr : List Action} : ∀ {s : State}, Calls s → s.library = false →
    machine.runFrom s tr = some s' →
    s'.library = false ∧ tr.countP Action.progress + s'.weight ≤ s.weight := by
  induction tr with
  | nil =>
    intro s hcalls hlib hrun
    cases hrun
    exact ⟨hlib, (Nat.zero_add _).le⟩
  | cons a tr ih =>
    intro s hcalls hlib hrun
    rw [Machine.runFrom_cons, Option.bind_eq_some_iff] at hrun
    obtain ⟨s₁, ha, hrun⟩ := hrun
    obtain ⟨hlib₁, hle₁⟩ := weight_exec hcalls hlib ha
    obtain ⟨hlib', hle'⟩ := ih (hcalls.exec ha) hlib₁ hrun
    refine ⟨hlib', ?_⟩
    rw [List.countP_cons]
    omega

/-! ## 2. Who can go on -/

/-- The writing end of a worker's input pipe, once the library has gone: only the worker itself,
before it has closed its copy, and younger ones have it. -/
theorem Inv.held_inputWrite (h : Inv s) (hlib : s.library = false)
    (hc : s.child w = .reading ∨ s.child w = .working) (hheld : s.Held (.inputWrite w)) :
    ∃ v, w < v ∧ (s.child v).Alive := by
  rcases hheld with hheld | ⟨v, -, hheld⟩
  · rw [h.libraryGone hlib] at hheld
    exact (not_holds_empty hheld).elim
  · refine ⟨v, ?_, ?_⟩
    · by_cases hv : w = v
      · subst hv
        obtain ⟨fd, hmem⟩ := (((h.childOwns w).main hc).holds_iff rfl).mp hheld
        simp at hmem
      · exact (h.inherits v w _ hheld rfl hv).1
    · by_contra hdead
      rw [(h.childOwns v).gone hdead] at hheld
      exact not_holds_empty hheld

/-- Nothing that a worker has to wait for: the child branch, the bytes in its pipe, the end of the
file. -/
def Stuck (s : State) : Prop :=
  ∀ w, childStep s w (.branch false) = none ∧ (∀ n, childStep s w (.recv n) = none) ∧
    childStep s w .recvEnd = none

/-- The youngest worker can go on, unless it is in the middle of something. -/
theorem Inv.youngest (h : Inv s) (hlib : s.library = false) (hstuck : Stuck s)
    (hv : (s.child v).Alive) (hyoungest : ∀ u, v < u → ¬ (s.child u).Alive) :
    s.child v = .working := by
  obtain ⟨hbranch, hrecv, hend⟩ := hstuck v
  cases hc : s.child v with
  | unborn => exact (hv.1 hc).elim
  | dead => exact (hv.2 hc).elim
  | working => rfl
  | branch pc input output =>
    simp only [Descriptors.childStep, hc] at hbranch
    cases hbranch
  | reading =>
    exfalso
    by_cases hbytes : s.inputBytes v = 0
    · have hfree : ¬ s.Held (.inputWrite v) := fun hheld => by
        obtain ⟨u, hlt, halive⟩ := h.held_inputWrite hlib (.inl hc) hheld
        exact hyoungest u hlt halive
      simp only [Descriptors.childStep] at hend
      rw [if_pos ⟨hc, hbytes, hfree⟩] at hend
      cases hend
    · have hone := hrecv 1
      simp only [Descriptors.childStep] at hone
      rw [if_pos ⟨.inl hc, by omega, by omega⟩] at hone
      cases hone

/-- Of the workers from this one on that are alive, there is a youngest. -/
theorem exists_youngest (hcalls : Calls s) (hw : (s.child w).Alive) :
    ∃ v, w ≤ v ∧ (s.child v).Alive ∧ ∀ u, v < u → ¬ (s.child u).Alive := by
  have hlt : ∀ u, (s.child u).Alive → u < s.calls := fun u hu =>
    hcalls.lt fun hun => hu.1 ((hcalls.childless u).mpr (by rw [hun]; trivial))
  refine ⟨Nat.findGreatest (fun u => (s.child u).Alive) s.calls, ?_, ?_, fun u hu halive => ?_⟩
  · exact Nat.le_findGreatest (hlt w hw).le hw
  · exact Nat.findGreatest_spec (P := fun u => (s.child u).Alive) (hlt w hw).le hw
  · exact Nat.findGreatest_is_greatest hu (hlt u halive).le halive

/-- Two workers; the library goes while the second one is being made. -/
def libraryGoes : List Action :=
  startWorker 0 ⟨3, 4⟩ ⟨5, 6⟩ ++ branchSteps 0 ++
    [.child 0 .finish, .library 0 (.initReturns true)] ++
    startWorker 1 ⟨3, 6⟩ ⟨7, 8⟩ ++ [.exit]

/-- The younger worker comes to its main loop and sees the end of the file, and so does then the
older one. -/
def bothEnd : List Action :=
  branchSteps 1 ++ [.child 1 .finish, .child 1 .recvEnd, .child 0 .recvEnd]

end HdfStream.Descriptors
