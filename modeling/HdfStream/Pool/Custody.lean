/-
# Who has a worker

What the steps of the pool say about one thread and its worker: a thread keeps the worker it holds
until it gives it back, and it comes to a worker by an assignment only.  A worker that is given
back and found dead is freed.
-/
import HdfStream.Pool.Transitions
import HdfStream.Pool.Interrupted

namespace HdfStream.Pool

variable {cfg : Config} {n : Nat} {s s' : State} {t : Nat} {a : Action} {w : Ptr}

/-- The worker a thread holds, or has been assigned and not yet found alive. -/
def ThreadPc.keeps : ThreadPc → Option Ptr
  | .check _ w | .holding w => some w
  | _ => none

theorem ThreadPc.worker_of_keeps {pc : ThreadPc} (h : pc.keeps = some w) : pc.worker = some w := by
  cases pc with
  | check | holding => exact h
  | _ => cases h

/-! ## 1. The threads -/

theorem Started.thread {new : Option Ptr} (h : Started n s new s') : s'.thread = s.thread := by
  cases h <;> rfl

theorem Released.thread {r : State × Bool} (h : Released n s w r) : r.1.thread = s.thread := by
  cases h with
  | dead hslot hw halive => exact (discardSlot_later w _ _).1
  | _ => rfl

/-- A step of one thread leaves the others where they are. -/
theorem ThreadStep.others (h : ThreadStep n s t a s') {t' : Nat} (hne : t' ≠ t) :
    s'.thread t' = s.thread t' := by
  cases h with
  | startWorker hpc hstart => simp [hne, hstart.thread]
  | startAlone hpc hstart => rw [hstart.thread]
  | discard hpc => simp [hne, foldl_discardSlot_thread]
  | release hpc hr => simp [hne, hr.thread]
  | freeNext hpc hj => simp [hne, (freeSlot_later s _).1]
  | stop hpc => simp [hne, processPoolStop]
  | _ => simp [hne]

/-- A thread that holds a worker holds it until the release. -/
theorem ThreadStep.holds (h : ThreadStep n s t a s') (hpc : s.thread t = .holding w)
    (hne : ∀ t', a ≠ .release t') : s'.thread t = .holding w := by
  cases h with
  | release hpc' hr => exact absurd rfl (hne _)
  | noticeFreed hpc' hw | notice hpc' hw => exact hpc
  | _ => simp_all

/-- A thread comes to a worker by an assignment only. -/
theorem ThreadStep.keeps_back (h : ThreadStep n s t a s') (hw : (s'.thread t).keeps = some w)
    (hne : ∀ t' cb, a ≠ .assign t' cb) : (s.thread t).keeps = some w := by
  cases h with
  | assignStopped hpc hstop => exact absurd rfl (hne _ _)
  | assignNone hpc hstop hsearch => exact absurd rfl (hne _ _)
  | assign hpc hstop hsearch hw' => exact absurd rfl (hne _ _)
  | assignEmpty hpc hstop hsearch hw' => exact absurd rfl (hne _ _)
  | startAlone hpc hstart => rwa [hstart.thread] at hw
  | checkFreed hpc hw' | noticeFreed hpc hw' | notice hpc hw' | pollBusy hpc hbusy => exact hw
  | check hpc hw' =>
    simp only [State.setThread_thread, Function.update_self] at hw
    split at hw
    · rw [hpc]
      exact hw
    · cases hw
  | getValue hpc =>
    simp only [State.setThread_thread, Function.update_self] at hw
    split at hw <;> cases hw
  | startWorker hpc hstart =>
    simp only [State.setThread_thread, Function.update_self, afterStart] at hw
    split at hw <;> cases hw
  | discard hpc =>
    simp only [State.setThread_thread, Function.update_self, nextTry] at hw
    split at hw <;> cases hw
  | release hpc hr =>
    simp only [State.setThread_thread, Function.update_self] at hw
    split at hw <;> cases hw
  | _ =>
    simp only [State.setThread_thread, Function.update_self] at hw
    cases hw

/-! ## 2. The machine -/

theorem Step.holds (h : Step cfg s a s') (hpc : s.thread t = .holding w) (hne : a ≠ .release t) :
    s'.thread t = .holding w := by
  cases h with
  | die => exact hpc
  | @thread t' _ _ ht hthread h =>
    by_cases e : t = t'
    · subst e
      refine h.holds hpc fun t' e => ?_
      subst e
      simp only [Action.thread?, Option.some.injEq] at hthread
      exact hne (by rw [hthread])
    · rw [h.others e, hpc]

theorem Step.keeps_back (h : Step cfg s a s') (hw : (s'.thread t).keeps = some w)
    (hne : ∀ cb, a ≠ .assign t cb) : (s.thread t).keeps = some w := by
  cases h with
  | die => exact hw
  | @thread t' _ _ ht hthread h =>
    by_cases e : t = t'
    · subst e
      refine h.keeps_back hw fun t' cb e => ?_
      subst e
      simp only [Action.thread?, Option.some.injEq] at hthread
      exact hne cb (by rw [hthread])
    · rwa [← h.others e]

theorem Step.called (h : Step cfg s (.call t) s') : s'.thread t = .getValue 0 := by
  cases h with
  | @thread t' _ _ ht hthread h =>
    simp only [Action.thread?, Option.some.injEq] at hthread
    subst hthread
    cases h with
    | call hpc => simp

/-- An assignment that has found a worker: its slot was idle, and had the highest score. -/
theorem Step.assigned {cb : Option (Option Ptr → Nat)} (h : Step cfg s (.assign t cb) s')
    (hw : (s'.thread t).keeps = some w) :
    s'.heap = s.heap ∧ ∃ j, highScoreIndex cfg.maxNrProcesses s.pool cb = some j ∧
      s.pool.worker j = some w := by
  cases h with
  | @thread t' _ _ ht hthread h =>
    simp only [Action.thread?, Option.some.injEq] at hthread
    subst hthread
    cases h with
    | assignStopped | assignNone | assignEmpty =>
      simp only [State.setThread_thread, Function.update_self] at hw
      cases hw
    | @assign _ _ j _ v hpc hstop hsearch hv =>
      simp only [State.setThread_thread, Function.update_self] at hw
      cases hw
      exact ⟨rfl, j, hsearch, hv⟩

/-- The search ends at an idle slot. -/
theorem highScoreIndex_idle {p : ProcessPool} {cb : Option Ptr → Nat} {j : Nat}
    (h : highScoreIndex n p (some cb) = some j) : j < n ∧ p.workerState j = .idle := by
  obtain ⟨hspec, -⟩ := foldl_scoreStep p cb (searchOrder n p.next) (none, -1) (fun _ => rfl)
  rcases hspec j h with hnone | ⟨hmem, hidle⟩
  · cases hnone
  · exact ⟨mem_searchOrder.mp hmem, hidle⟩

/-- A worker that is found dead when it is given back is freed. -/
theorem Step.released_dead (h : Inv cfg s) (hstep : Step cfg s (.release t) s')
    (hpc : s.thread t = .holding w)
    (hdead : ∀ wp, s.heap w = some wp → (workerProcessIsAlive wp).1 = false) :
    s'.heap w = none ∧ s'.thread t = .outside := by
  cases hstep with
  | @thread t' _ _ ht hthread hstep =>
    simp only [Action.thread?, Option.some.injEq] at hthread
    subst hthread
    obtain ⟨j, wp, hj, hjw, -, hwp, -⟩ := h.holder (a := w) ht (by rw [hpc]; rfl)
    cases hstep with
    | release hpc' hr =>
      rw [hpc] at hpc'
      cases hpc'
      cases hr with
      | notFound hslot =>
        exact absurd (List.find?_eq_none.mp hslot j (List.mem_range.mpr hj)) (by simp [hjw])
      | freed hslot hnone =>
        rw [hwp] at hnone
        cases hnone
      | alive hslot hwp' halive =>
        rw [hdead _ hwp'] at halive
        cases halive
      | @dead i _ hslot hwp' halive =>
        have hslot : s.pool.worker i = some w := by simpa using List.find?_some hslot
        simp [discardSlot, hslot, workerProcessFree]

end HdfStream.Pool
