/-
# Labelled machines: deterministic steps under named actions

A `Machine` is a start state and a partial step function.  Every source of nondeterminism
(which thread moves next, whether a system call fails) is put into the ACTION, so a run is a
list of actions and can be evaluated, while a statement about every run is a statement about
every list of actions.

The file gives the vocabulary (`run`, `Reachable`, `Enabled`) and the two induction rules
every safety proof uses: `Machine.run_induction`, where the invariant may read the history,
and `Machine.reachable_induction`, where it reads the state only.  A third rule is for
properties that some steps break: `Machine.throughout_iff_stepsMeet` turns a property of all
states of a run into a condition on its steps.
-/
import Mathlib.Data.List.Induction

/-- A machine over states `σ` whose steps are named by actions `α`.  `exec s a = none` says
that `a` is not possible in `s`. -/
structure Machine (σ α : Type*) where
  init : σ
  exec : σ → α → Option σ

namespace Machine

variable {σ α : Type*} (M : Machine σ α)

/-! ## 1. Runs -/

/-- Run a list of actions from a given state. -/
def runFrom (s : σ) (tr : List α) : Option σ := tr.foldlM M.exec s

/-- Run a list of actions from the start. -/
def run (tr : List α) : Option σ := M.runFrom M.init tr

/-- The states some run ends in. -/
def Reachable (s : σ) : Prop := ∃ tr, M.run tr = some s

/-- The action is possible in the state. -/
def Enabled (s : σ) (a : α) : Prop := (M.exec s a).isSome

@[simp] theorem runFrom_nil (s : σ) : M.runFrom s [] = some s := rfl

@[simp] theorem run_nil : M.run [] = some M.init := rfl

theorem runFrom_cons (s : σ) (a : α) (tr : List α) :
    M.runFrom s (a :: tr) = (M.exec s a).bind (fun s' => M.runFrom s' tr) := rfl

theorem runFrom_append (s : σ) (tr tr' : List α) :
    M.runFrom s (tr ++ tr') = (M.runFrom s tr).bind (fun s' => M.runFrom s' tr') := by
  simp only [runFrom, List.foldlM_append]
  rfl

/-- The last step of a run. -/
theorem run_snoc (tr : List α) (a : α) :
    M.run (tr ++ [a]) = (M.run tr).bind (fun s => M.exec s a) := by
  unfold run
  rw [runFrom_append]
  congr 1
  funext s
  rw [runFrom_cons]
  cases M.exec s a <;> rfl

theorem run_snoc_eq_some {tr : List α} {a : α} {s' : σ} :
    M.run (tr ++ [a]) = some s' ↔ ∃ s, M.run tr = some s ∧ M.exec s a = some s' := by
  rw [run_snoc, Option.bind_eq_some_iff]

/-- A run that is a prefix of another run is a run. -/
theorem run_split {tr tr' : List α} {s : σ} (h : M.run (tr ++ tr') = some s) :
    ∃ s₀, M.run tr = some s₀ ∧ M.runFrom s₀ tr' = some s := by
  unfold run at h ⊢
  rw [runFrom_append, Option.bind_eq_some_iff] at h
  exact h

/-! ## 2. Induction over runs -/

/-- **Invariants with a history.**  What holds at the start and survives every step of a run,
holds after every run. -/
theorem run_induction {I : List α → σ → Prop} (hinit : I [] M.init)
    (hstep : ∀ tr s a s', M.run tr = some s → I tr s → M.exec s a = some s' → I (tr ++ [a]) s') :
    ∀ tr s, M.run tr = some s → I tr s := by
  intro tr
  induction tr using List.reverseRecOn with
  | nil =>
    intro s h
    rw [run_nil, Option.some.injEq] at h
    exact h ▸ hinit
  | append_singleton tr a ih =>
    intro s' h
    obtain ⟨s, hs, ha⟩ := (M.run_snoc_eq_some).mp h
    exact hstep tr s a s' hs (ih s hs) ha

theorem reachable_init : M.Reachable M.init := ⟨[], rfl⟩

theorem Reachable.step {M : Machine σ α} {s s' : σ} {a : α} (h : M.Reachable s)
    (ha : M.exec s a = some s') : M.Reachable s' := by
  obtain ⟨tr, hs⟩ := h
  exact ⟨tr ++ [a], (M.run_snoc_eq_some).mpr ⟨s, hs, ha⟩⟩

/-- **Invariants of the state.** -/
theorem reachable_induction {I : σ → Prop} (hinit : I M.init)
    (hstep : ∀ s a s', M.Reachable s → I s → M.exec s a = some s' → I s') :
    ∀ s, M.Reachable s → I s := by
  rintro s ⟨tr, h⟩
  exact M.run_induction (I := fun _ s => I s) hinit
    (fun tr s a s' hr hi ha => hstep s a s' ⟨tr, hr⟩ hi ha) tr s h

/-! ## 3. Conditions on the steps of a run -/

/-- Every state the run goes through has the property. -/
def Throughout (P : σ → Prop) (tr : List α) : Prop :=
  ∀ tr₁ tr₂ s, tr = tr₁ ++ tr₂ → M.run tr₁ = some s → P s

/-- Every step of the run meets the condition. -/
def StepsMeet (C : σ → α → Prop) (tr : List α) : Prop :=
  ∀ tr₁ a tr₂ s, tr = tr₁ ++ a :: tr₂ → M.run tr₁ = some s → C s a

/-- **When a property of the states is a condition on the steps.**  If the property holds at
the start, and a step of this run that starts with the property ends with it exactly when the
step meets the condition, then it holds throughout the run exactly when all steps do. -/
theorem throughout_iff_stepsMeet {M : Machine σ α} {P : σ → Prop} {C : σ → α → Prop} {tr : List α}
    {s : σ} (h : M.run tr = some s) (hinit : P M.init)
    (hstep : ∀ tr₁ a tr₂ s₁ s₂, tr = tr₁ ++ a :: tr₂ → M.run tr₁ = some s₁ →
      M.exec s₁ a = some s₂ → P s₁ → (P s₂ ↔ C s₁ a)) :
    M.Throughout P tr ↔ M.StepsMeet C tr := by
  constructor
  · intro hP tr₁ a tr₂ s₁ htr hs₁
    -- the step from `s₁` succeeds, since the whole run does
    have hrun : M.run ((tr₁ ++ [a]) ++ tr₂) = some s := by
      rw [List.append_assoc, List.singleton_append, ← htr, h]
    obtain ⟨s₂, hs₂, -⟩ := M.run_split hrun
    obtain ⟨s₁', hs₁', ha⟩ := (M.run_snoc_eq_some).mp hs₂
    rw [hs₁, Option.some.injEq] at hs₁'
    subst hs₁'
    have h₁ := hP tr₁ (a :: tr₂) s₁ htr hs₁
    have h₂ := hP (tr₁ ++ [a]) tr₂ s₂ (by rw [htr]; simp) hs₂
    exact (hstep tr₁ a tr₂ s₁ s₂ htr hs₁ ha h₁).mp h₂
  · intro hC tr₁
    induction tr₁ using List.reverseRecOn with
    | nil =>
      intro tr₂ s₀ _ hs₀
      rw [run_nil, Option.some.injEq] at hs₀
      exact hs₀ ▸ hinit
    | append_singleton tr₁ a ih =>
      intro tr₂ s₂ htr hs₂
      have htr' : tr = tr₁ ++ a :: tr₂ := by
        rw [htr]
        simp
      obtain ⟨s₁, hs₁, ha⟩ := (M.run_snoc_eq_some).mp hs₂
      exact (hstep tr₁ a tr₂ s₁ s₂ htr' hs₁ ha (ih _ s₁ htr' hs₁)).mpr (hC tr₁ a tr₂ s₁ htr' hs₁)

/-- A condition on the steps of a run is one on the steps of its beginnings. -/
theorem StepsMeet.left {M : Machine σ α} {C : σ → α → Prop} {tr tr' : List α}
    (h : M.StepsMeet C (tr ++ tr')) : M.StepsMeet C tr := by
  rintro tr₁ a tr₂ s rfl hs
  exact h tr₁ a (tr₂ ++ tr') s (by rw [List.append_assoc, List.cons_append]) hs

/-- **Invariants of the runs whose steps meet a condition.** -/
theorem stepsMeet_induction {I : σ → Prop} {C : σ → α → Prop} (hinit : I M.init)
    (hstep : ∀ s a s', I s → C s a → M.exec s a = some s' → I s') :
    ∀ tr s, M.run tr = some s → M.StepsMeet C tr → I s := by
  refine M.run_induction (I := fun tr s => M.StepsMeet C tr → I s) (fun _ => hinit) ?_
  intro tr s a s' hrun ih ha hC
  exact hstep s a s' (ih hC.left) (hC tr a [] s rfl hrun) ha

/-- The steps of a list of actions, checked one after the other. -/
def meets (C : σ → α → Prop) [∀ s a, Decidable (C s a)] (M : Machine σ α) : σ → List α → Bool
  | _, [] => true
  | s, a :: tr =>
    decide (C s a) &&
      match M.exec s a with
      | none => true
      | some s' => meets C M s' tr

theorem stepsMeet_of_meets {C : σ → α → Prop} [∀ s a, Decidable (C s a)] {tr : List α}
    (h : meets C M M.init tr = true) : M.StepsMeet C tr := by
  have key : ∀ tr₁ s₀ s a tr₂, meets C M s₀ (tr₁ ++ a :: tr₂) = true →
      M.runFrom s₀ tr₁ = some s → C s a := by
    intro tr₁
    induction tr₁ with
    | nil =>
      intro s₀ s a tr₂ hmeet hrun
      cases hrun
      exact of_decide_eq_true (Bool.and_eq_true_iff.mp hmeet).1
    | cons b tr₁ ih =>
      intro s₀ s a tr₂ hmeet hrun
      rw [runFrom_cons, Option.bind_eq_some_iff] at hrun
      obtain ⟨s₁, hs₁, hrun⟩ := hrun
      have hrest := (Bool.and_eq_true_iff.mp hmeet).2
      rw [hs₁] at hrest
      exact ih s₁ s a tr₂ hrest hrun
  rintro tr₁ a tr₂ s rfl hs
  exact key tr₁ M.init s a tr₂ h hs

/-- The machine, started in another state. -/
def startedIn (s : σ) : Machine σ α where
  init := s
  exec := M.exec

/-- It is also one on the steps after a beginning. -/
theorem StepsMeet.right {M : Machine σ α} {C : σ → α → Prop} {tr tr' : List α} {s : σ}
    (h : M.StepsMeet C (tr ++ tr')) (hs : M.run tr = some s) :
    (M.startedIn s).StepsMeet C tr' := by
  rintro tr₁ a tr₂ s₁ rfl hs₁
  refine h (tr ++ tr₁) a tr₂ s₁ (by rw [List.append_assoc]) ?_
  unfold run at hs ⊢
  rw [runFrom_append, hs]
  exact hs₁

theorem StepsMeet.head {M : Machine σ α} {C : σ → α → Prop} {s : σ} {a : α} {tr : List α}
    (h : (M.startedIn s).StepsMeet C (a :: tr)) : C s a := h [] a tr s rfl rfl

theorem StepsMeet.tail {M : Machine σ α} {C : σ → α → Prop} {s s' : σ} {a : α} {tr : List α}
    (h : (M.startedIn s).StepsMeet C (a :: tr)) (ha : M.exec s a = some s') :
    (M.startedIn s').StepsMeet C tr := by
  rintro tr₁ b tr₂ s₁ rfl hs₁
  refine h (a :: tr₁) b tr₂ s₁ rfl ?_
  show M.runFrom s (a :: tr₁) = some s₁
  rw [runFrom_cons, ha]
  exact hs₁

end Machine
