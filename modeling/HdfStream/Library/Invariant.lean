/-
# Every shadow follows its worker

`Inv` says, while the pool is not stopped, that the shadow of a worker mirrors its cache
(`Cache.Inv`), but for the time between an answer and its arrival: then it will, whatever the time
is when the code arrives (`Settles`).  This is one invariant for all workers, since no two threads
have the same worker, a struct is not freed while a thread has it, and a worker that died without an
answer being received is freed with its shadow.  A worker that lives and is given back without its
answer having been received would break it (`State.Completes`).
-/
import HdfStream.Pool.Custody
import HdfStream.Library.Model

namespace HdfStream.Library

open Pool Cache

variable {cfg : Config} {exact : Prop} {s s' : State} {a : Action} {t : Nat} {w : Ptr}
  {cbd : CallbackData}

/-! ## 1. What a step can do -/

/-- A step of the pool. -/
structure PoolStep (cfg : Config) (s : State) (a : Pool.Action) (s' : State) : Prop where
  exec : Pool.exec cfg.toConfig s.pool a = some s'.pool
  kept : ∀ w, (s.pool.heap w).isSome = true → s'.caches w = s.caches w
  started : ∀ w, s.pool.heap w = none → (s'.pool.heap w).isSome = true →
    s'.caches w = Cache.start cfg.maxOpenFiles cfg.maxOpenDatasets
  request : ∀ t, s'.pool.thread t ≠ .outside → s'.request t = s.request t
  outside : ∀ t, s'.pool.thread t = .outside → s'.request t = none

theorem poolStep_spec {a : Pool.Action} (h : poolStep cfg s a = some s') : PoolStep cfg s a s' := by
  obtain ⟨p, hp, rfl⟩ := Option.map_eq_some_iff.mp h
  refine ⟨hp, fun w hw => ?_, fun w hw hw' => ?_, fun t ht => if_neg ht, fun t ht => if_pos ht⟩
  · simp [Option.ne_none_iff_isSome.mpr hw]
  · simp [hw, hw']

/-- What a step of the library can do. -/
inductive Step (cfg : Config) (s : State) : Action → State → Prop where
  | request {t : Nat} {cbd : CallbackData} {s₁ : State} (h : PoolStep cfg s (.call t) s₁) :
      Step cfg s (.request t cbd)
        { s₁ with request := Function.update s₁.request t (some ⟨cbd, .asked⟩) }
  | assign {t : Nat} {r : Request} {s' : State} (hr : s.request t = some r)
      (h : PoolStep cfg s (.assign t (some (s.score r.cbd))) s') : Step cfg s (.assign t) s'
  | work {t : Nat} {w : Ptr} {cbd : CallbackData} {env : Cache.Env} {answer : Reader × Nat}
      (ht : t < cfg.nrThreads) (hpc : s.pool.thread t = .holding w)
      (hr : s.request t = some ⟨cbd, .asked⟩)
      (hanswer : carryOut (s.caches w) cbd env = some answer) :
      Step cfg s (.work t env) { s with
        caches := Function.update s.caches w { s.caches w with reader := answer.1 }
        request := Function.update s.request t (some ⟨cbd, .answered answer.2⟩) }
  | receive {t : Nat} {w : Ptr} {cbd : CallbackData} {retcode : Nat} {now : Int}
      {shadow : FileCache} (hpc : s.pool.thread t = .holding w)
      (hr : s.request t = some ⟨cbd, .answered retcode⟩)
      (hshadow : updateShadow (s.caches w) cbd retcode now = some shadow) :
      Step cfg s (.receive t now) { s with
        caches := Function.update s.caches w { s.caches w with shadow := shadow }
        request := Function.update s.request t (some ⟨cbd, .done⟩) }
  | release {t : Nat} {w : Ptr} {cbd : CallbackData} {s' : State}
      (hpc : s.pool.thread t = .holding w) (hr : s.request t = some ⟨cbd, .done⟩)
      (h : PoolStep cfg s (.release t) s') : Step cfg s (.release t) s'
  | abandon {t : Nat} {w : Ptr} {s' : State} (hpc : s.pool.thread t = .holding w)
      (h : PoolStep cfg s (.release t) s') : Step cfg s (.abandon t) s'
  | expire (w : Ptr) (maxAge now : Int) :
      Step cfg s (.expire w maxAge now) { s with
        caches := Function.update s.caches w { s.caches w with
          reader := { (s.caches w).reader with
            fc := (fileCacheExpireEntries (s.caches w).reader.fc maxAge now).1 } } }
  | pool {a : Pool.Action} {s' : State} (hne : ofRequest a = false) (h : PoolStep cfg s a s') :
      Step cfg s (.pool a) s'

/-- `Step` says all that `exec` does. -/
theorem exec_cases (h : exec cfg s a = some s') : Step cfg s a s' := by
  cases a with
  | request t cbd =>
    obtain ⟨s₁, hs₁, rfl⟩ := Option.map_eq_some_iff.mp h
    exact .request (poolStep_spec hs₁)
  | assign t =>
    simp only [exec] at h
    split at h
    · rename_i r hr
      exact .assign hr (poolStep_spec h)
    · cases h
  | work t env =>
    simp only [exec] at h
    split at h
    · rename_i w cbd hpc hr
      split at h
      · rename_i hcond
        obtain ⟨answer, hanswer, rfl⟩ := Option.map_eq_some_iff.mp h
        exact .work hcond.1 hpc hr hanswer
      · cases h
    · cases h
  | receive t now =>
    simp only [exec] at h
    split at h
    · rename_i w cbd retcode hpc hr
      obtain ⟨shadow, hshadow, rfl⟩ := Option.map_eq_some_iff.mp h
      exact .receive hpc hr hshadow
    · cases h
  | release t =>
    simp only [exec] at h
    split at h
    · rename_i w cbd hpc hr
      exact .release hpc hr (poolStep_spec h)
    · cases h
  | abandon t =>
    simp only [exec] at h
    split at h
    · rename_i w r hpc hr
      split at h
      · cases h
      · exact .abandon hpc (poolStep_spec h)
    · cases h
  | expire w maxAge now =>
    simp only [exec] at h
    split at h
    · cases h
      exact .expire w maxAge now
    · cases h
  | pool a =>
    simp only [exec] at h
    split at h
    · cases h
    · rename_i hne
      exact .pool (Bool.eq_false_of_not_eq_true hne) (poolStep_spec h)

/-- The step of the pool in a step of the library, if there is one. -/
theorem Step.pool_exec (h : Step cfg s a s') :
    s'.pool = s.pool ∨ ∃ b, Pool.exec cfg.toConfig s.pool b = some s'.pool := by
  cases h with
  | request h => exact .inr ⟨_, h.exec⟩
  | assign hr h => exact .inr ⟨_, h.exec⟩
  | release hpc hr h => exact .inr ⟨_, h.exec⟩
  | abandon hpc h => exact .inr ⟨_, h.exec⟩
  | pool hne h => exact .inr ⟨_, h.exec⟩
  | work | receive | expire => exact .inl rfl

/-- The pool was not stopped before if it is not stopped after a step. -/
theorem Step.up (h : Step cfg s a s') (hup : s'.pool.pool.stop = false) :
    s.pool.pool.stop = false := by
  rcases h.pool_exec with e | ⟨b, hb⟩
  · rwa [← e]
  · exact (not_stopped_before hb hup).1

/-! ## 2. The invariant -/

/-- The shadow will mirror the cache of the worker when this code has arrived. -/
def Settles (exact : Prop) (c : Cache.State) (cbd : CallbackData) (retcode : Nat) : Prop :=
  ∀ now, ∃ shadow, updateShadow c cbd retcode now = some shadow ∧
    Cache.Inv exact { reader := c.reader, shadow := shadow }

/-- The answer of this worker is on its way. -/
def Answered (s : State) (w : Ptr) : Prop :=
  ∃ t cbd retcode, s.pool.thread t = .holding w ∧ s.request t = some ⟨cbd, .answered retcode⟩

/-- The invariant, while the pool is not stopped. -/
structure Inv (cfg : Config) (exact : Prop) (s : State) : Prop where
  pool : Pool.Inv cfg.toConfig s.pool
  settled : ∀ w, (s.pool.heap w).isSome = true → ¬ Answered s w → Cache.Inv exact (s.caches w)
  answered : ∀ t cbd retcode, s.request t = some ⟨cbd, .answered retcode⟩ →
    ∃ w, t < cfg.nrThreads ∧ s.pool.thread t = .holding w ∧ Settles exact (s.caches w) cbd retcode

/-- The worker has carried out a command. -/
theorem settles_of_carryOut {c : Cache.State} (h : Cache.Inv exact c) {env : Cache.Env}
    {answer : Reader × Nat} (hanswer : carryOut c cbd env = some answer) :
    Settles exact { c with reader := answer.1 } cbd answer.2 := by
  intro now
  unfold carryOut at hanswer
  unfold updateShadow
  split at hanswer
  · exact h.openDataset hanswer now
  · exact h.openObject hanswer now

/-- Files expire in the worker. -/
theorem expired {c : Cache.State} (h : Cache.Inv exact c) (hexact : ¬ exact) (maxAge now : Int) :
    Cache.Inv exact { c with
      reader := { c.reader with fc := (fileCacheExpireEntries c.reader.fc maxAge now).1 } } :=
  ⟨h.mirrored.expire hexact maxAge now, h.sized⟩

theorem Settles.expire {c : Cache.State} {retcode : Nat} (h : Settles exact c cbd retcode)
    (hexact : ¬ exact) (maxAge now : Int) :
    Settles exact { c with
      reader := { c.reader with fc := (fileCacheExpireEntries c.reader.fc maxAge now).1 } }
      cbd retcode := by
  intro later
  obtain ⟨shadow, hshadow, hinv⟩ := h later
  exact ⟨shadow, hshadow, expired hinv hexact maxAge now⟩

/-! ## 3. The holders of workers -/

/-- What a thread holds is allocated. -/
theorem Inv.held (h : Inv cfg exact s) (ht : t < cfg.nrThreads)
    (hw : (s.pool.thread t).keeps = some w) : (s.pool.heap w).isSome = true :=
  h.pool.held_live ht (ThreadPc.worker_of_keeps hw)

/-- No two threads hold the same worker. -/
theorem Inv.only (h : Inv cfg exact s) {t' : Nat} (ht : t < cfg.nrThreads)
    (ht' : t' < cfg.nrThreads) (hw : (s.pool.thread t).keeps = some w)
    (hw' : (s.pool.thread t').keeps = some w) : t = t' :=
  h.pool.holders.excl t t' w ht ht' (ThreadPc.worker_of_keeps hw) (ThreadPc.worker_of_keeps hw')

/-- The worker of a thread that has no answer is settled. -/
theorem Inv.settled_of_holder (h : Inv cfg exact s) (ht : t < cfg.nrThreads)
    (hpc : (s.pool.thread t).keeps = some w)
    (hr : ∀ cbd retcode, s.request t ≠ some ⟨cbd, .answered retcode⟩) :
    Cache.Inv exact (s.caches w) := by
  refine h.settled w (h.held ht hpc) ?_
  rintro ⟨t', cbd, retcode, hpc', hr'⟩
  obtain ⟨-, ht', -, -⟩ := h.answered t' cbd retcode hr'
  obtain rfl := h.only ht ht' hpc (by rw [hpc']; rfl)
  exact hr cbd retcode hr'

/-- A worker in an idle slot is settled. -/
theorem Inv.settled_of_idle (h : Inv cfg exact s) {j : Nat} (hw : IdleAt cfg.toConfig s.pool j w) :
    Cache.Inv exact (s.caches w) := by
  obtain ⟨hj, hidle, hjw⟩ := hw
  refine h.settled w (h.pool.slots.live j w hj hjw) ?_
  rintro ⟨t, cbd, retcode, hpc, hr⟩
  obtain ⟨-, ht, -, -⟩ := h.answered t cbd retcode hr
  obtain ⟨i, hi, hiw, hbusy⟩ := h.pool.holders.slot t w ht (by rw [hpc]; rfl)
  rw [h.pool.slots.inj i j w hi hj hiw hjw, hidle] at hbusy
  cases hbusy

/-! ## 4. Steps -/

theorem inv_start (cfg : Config) (exact : Prop) : Inv cfg exact (start cfg) where
  pool := Pool.inv_start cfg.toConfig
  settled w hw := by cases hw
  answered t cbd retcode hr := by cases hr

/-- A step of the pool.  A worker is given back after its answer, or dead. -/
theorem Inv.poolStep (h : Inv cfg exact s) {a : Pool.Action} (hstep : PoolStep cfg s a s')
    (hup : s'.pool.pool.stop = false)
    (hrelease : ∀ t w cbd retcode, a = .release t → s.pool.thread t = .holding w →
      s.request t = some ⟨cbd, .answered retcode⟩ → s.alive w = false) : Inv cfg exact s' := by
  obtain ⟨hup, hne⟩ := not_stopped_before hstep.exec hup
  have hpool := Pool.exec_cases hstep.exec
  -- an answer that is on its way stays with the thread, unless the worker is freed
  have hkept : ∀ t w cbd retcode, s.pool.thread t = .holding w →
      s.request t = some ⟨cbd, .answered retcode⟩ →
      (s'.pool.thread t = .holding w ∧ s'.request t = s.request t) ∨
        (s'.pool.heap w = none ∧ s'.pool.thread t = .outside) := by
    intro t w cbd retcode hpc hr
    by_cases e : a = .release t
    · subst e
      have halive := hrelease t w cbd retcode rfl hpc hr
      refine .inr (hpool.released_dead h.pool hpc fun wp hwp => ?_)
      simpa [State.alive, hwp] using halive
    · have hpc' := hpool.holds hpc e
      exact .inl ⟨hpc', hstep.request t (by rw [hpc']; exact fun e => by cases e)⟩
  refine ⟨h.pool.step hup hne hstep.exec, ?_, ?_⟩
  · intro w hw hnone
    cases hheap : s.pool.heap w with
    | none =>
      rw [hstep.started w hheap hw]
      exact Cache.start_inv exact cfg.maxOpenFiles cfg.maxOpenDatasets
    | some wp =>
      have hsome : (s.pool.heap w).isSome = true := by rw [hheap]; rfl
      rw [hstep.kept w hsome]
      refine h.settled w hsome ?_
      rintro ⟨t, cbd, retcode, hpc, hr⟩
      rcases hkept t w cbd retcode hpc hr with ⟨hpc', hr'⟩ | ⟨hfreed, -⟩
      · exact hnone ⟨t, cbd, retcode, hpc', by rw [hr', hr]⟩
      · rw [hfreed] at hw
        cases hw
  · intro t cbd retcode hr'
    have hout : s'.pool.thread t ≠ .outside := by
      intro hout
      rw [hstep.outside t hout] at hr'
      cases hr'
    have hr : s.request t = some ⟨cbd, .answered retcode⟩ := by rw [← hstep.request t hout, hr']
    obtain ⟨w, ht, hpc, hsettles⟩ := h.answered t cbd retcode hr
    rcases hkept t w cbd retcode hpc hr with ⟨hpc', -⟩ | ⟨-, hfreed⟩
    · refine ⟨w, ht, hpc', ?_⟩
      rwa [hstep.kept w (h.held ht (by rw [hpc]; rfl))]
    · exact absurd hfreed hout

/-- A thread outside starts a request. -/
theorem Inv.asked (h : Inv cfg exact s) (hpc : ∀ w, s.pool.thread t ≠ .holding w) :
    Inv cfg exact { s with request := Function.update s.request t (some ⟨cbd, .asked⟩) } where
  pool := h.pool
  settled w hw hnone := by
    refine h.settled w hw ?_
    rintro ⟨t', cbd', retcode, hpc', hr'⟩
    have hne : t' ≠ t := by
      rintro rfl
      exact hpc w hpc'
    exact hnone ⟨t', cbd', retcode, hpc', by simpa [hne] using hr'⟩
  answered t' cbd' retcode hr' := by
    by_cases hne : t' = t
    · subst hne
      simp at hr'
    · exact h.answered t' cbd' retcode (by simpa [hne] using hr')

/-- The caches of one worker change, and the request of the thread that holds it. -/
theorem Inv.update (h : Inv cfg exact s) (ht : t < cfg.nrThreads)
    (hpc : s.pool.thread t = .holding w) {c : Cache.State} {stage : Stage}
    (hanswered : ∀ retcode, stage = .answered retcode → Settles exact c cbd retcode)
    (hsettled : (∀ retcode, stage ≠ .answered retcode) → Cache.Inv exact c) :
    Inv cfg exact { s with
      caches := Function.update s.caches w c
      request := Function.update s.request t (some ⟨cbd, stage⟩) } where
  pool := h.pool
  settled v hv hnone := by
    by_cases e : v = w
    · subst e
      simp only [Function.update_self]
      refine hsettled fun retcode e => hnone ⟨t, cbd, retcode, hpc, ?_⟩
      simp [e]
    · simp only [Function.update_of_ne e]
      refine h.settled v hv ?_
      rintro ⟨t', cbd', retcode, hpc', hr'⟩
      have hne : t' ≠ t := by
        rintro rfl
        rw [hpc] at hpc'
        cases hpc'
        exact e rfl
      exact hnone ⟨t', cbd', retcode, hpc', by simpa [hne] using hr'⟩
  answered t' cbd' retcode hr' := by
    by_cases hne : t' = t
    · subst hne
      simp only [Function.update_self, Option.some.injEq, Request.mk.injEq] at hr'
      obtain ⟨rfl, hstage⟩ := hr'
      refine ⟨w, ht, hpc, ?_⟩
      simp only [Function.update_self]
      exact hanswered retcode hstage
    · obtain ⟨v, ht', hpc', hsettles⟩ :=
        h.answered t' cbd' retcode (by simpa [hne] using hr')
      refine ⟨v, ht', hpc', ?_⟩
      have e : v ≠ w := by
        rintro rfl
        exact hne (h.only ht' ht (by rw [hpc']; rfl) (by rw [hpc]; rfl))
      simpa [e] using hsettles

/-- Files expire in a worker. -/
theorem Inv.expire (h : Inv cfg exact s) (hexact : ¬ exact) (w : Ptr) (maxAge now : Int) :
    Inv cfg exact { s with
      caches := Function.update s.caches w { s.caches w with
        reader := { (s.caches w).reader with
          fc := (fileCacheExpireEntries (s.caches w).reader.fc maxAge now).1 } } } where
  pool := h.pool
  settled v hv hnone := by
    by_cases e : v = w
    · subst e
      simp only [Function.update_self]
      exact expired (h.settled v hv hnone) hexact maxAge now
    · simp only [Function.update_of_ne e]
      exact h.settled v hv hnone
  answered t cbd retcode hr := by
    obtain ⟨v, ht, hpc, hsettles⟩ := h.answered t cbd retcode hr
    refine ⟨v, ht, hpc, ?_⟩
    by_cases e : v = w
    · subst e
      simp only [Function.update_self]
      exact hsettles.expire hexact maxAge now
    · simpa only [Function.update_of_ne e] using hsettles

/-- **Every step keeps the invariant**, unless it abandons a worker that lives. -/
theorem Inv.step (h : Inv cfg exact s) (hstep : Step cfg s a s') (hmeet : s.Completes a)
    (hexact : exact → a.isExpire = false) (hup : s'.pool.pool.stop = false) :
    Inv cfg exact s' := by
  cases hstep with
  | @request t _ s₁ hpool =>
    have h₁ : Inv cfg exact s₁ := h.poolStep hpool hup (fun _ _ _ _ e => by cases e)
    refine h₁.asked fun w => ?_
    rw [(Pool.exec_cases hpool.exec).called]
    exact fun e => by cases e
  | assign hr hpool => exact h.poolStep hpool hup (fun _ _ _ _ e => by cases e)
  | @work t w cbd env answer ht hpc hr hanswer =>
    have hinv := h.settled_of_holder (w := w) ht (by rw [hpc]; rfl)
      (fun _ _ => by rw [hr]; exact fun e => by cases e)
    refine h.update ht hpc (fun retcode e => ?_) (fun hne => absurd rfl (hne answer.2))
    cases e
    exact settles_of_carryOut hinv hanswer
  | @receive t w cbd retcode now shadow hpc hr hshadow =>
    obtain ⟨v, ht, hpc', hsettles⟩ := h.answered t cbd retcode hr
    rw [hpc] at hpc'
    cases hpc'
    obtain ⟨shadow', hshadow', hinv⟩ := hsettles now
    rw [hshadow, Option.some.injEq] at hshadow'
    subst hshadow'
    exact h.update ht hpc (fun _ e => by cases e) (fun _ => hinv)
  | @release t w cbd _ hpc hr hpool =>
    refine h.poolStep hpool hup fun t' v cbd' retcode e hpc' hr' => ?_
    cases e
    rw [hr] at hr'
    cases hr'
  | @abandon t w _ hpc hpool =>
    refine h.poolStep hpool hup fun t' v cbd' retcode e hpc' hr' => ?_
    cases e
    exact hmeet v hpc'
  | expire w maxAge now =>
    exact h.expire (fun hexact' => by cases hexact hexact') w maxAge now
  | pool hne hpool =>
    refine h.poolStep hpool hup fun t v cbd retcode e => ?_
    subst e
    cases hne

/-- **The invariant holds in every run before a shutdown**, and exactly if no files expire. -/
theorem inv_run (cfg : Config) (exact : Prop) {tr : List Action}
    (h : (machine cfg).run tr = some s)
    (hmeet : (machine cfg).StepsMeet State.Completes tr) (hup : s.pool.pool.stop = false)
    (hexact : exact → ∀ a ∈ tr, a.isExpire = false) : Inv cfg exact s := by
  have key : ∀ tr s, (machine cfg).run tr = some s →
      (machine cfg).StepsMeet State.Completes tr → s.pool.pool.stop = false →
        (exact → ∀ a ∈ tr, a.isExpire = false) → Inv cfg exact s := by
    refine (machine cfg).run_induction
      (I := fun tr s => (machine cfg).StepsMeet State.Completes tr → s.pool.pool.stop = false →
        (exact → ∀ a ∈ tr, a.isExpire = false) → Inv cfg exact s)
      (fun _ _ _ => inv_start cfg exact) ?_
    intro tr s a s' hrun ih hs hmeet hup hexact
    have hstep := exec_cases hs
    exact (ih hmeet.left (hstep.up hup) fun e b hb => hexact e b (List.mem_append_left _ hb)).step
      hstep (hmeet tr a [] s rfl hrun)
      (fun e => hexact e a (List.mem_append_right _ List.mem_cons_self)) hup
  exact key tr s h hmeet hup hexact

end HdfStream.Library
