/-
# A request goes where its file is open

`cache_score` is a bet on the shadows: the worker with the highest score should have the file open,
and the dataset.  `served_from_cache` says that without expiry the bet is won.  If some idle worker
has the file in the cache of its process when the callback is evaluated, then the worker that is
assigned has it, and still has it when it carries out the command, whatever the other threads do
meanwhile; if some idle worker has file and dataset, then so has that one.

The proof goes back from the command to the assignment.  A thread that is about to send a command
has been assigned its worker, and nobody has touched the caches of this worker since
(`waits_back`).
-/
import HdfStream.Cache.Handles
import HdfStream.Library.Invariant

namespace HdfStream.Library

open Pool Cache LinkedMap

variable {cfg : Config} {exact : Prop} {s s' : State} {a : Action} {t : Nat} {w : Ptr}
  {cbd : CallbackData}

/-! ## 1. The score -/

/-- What a cache has of a request: the file, and the dataset. -/
def found (fc : FileCache) (cbd : CallbackData) : Int × Int :=
  fileCacheQuery fc cbd.fileName cbd.datasetName

theorem found_cases (fc : FileCache) (cbd : CallbackData) :
    found fc cbd = (0, 0) ∨ found fc cbd = (1, 0) ∨ found fc cbd = (1, 1) := by
  unfold found fileCacheQuery
  split
  · split
    · split <;> simp
    · simp
  · simp

/-- A higher score has more of the request. -/
theorem found_le_of_cacheScore {fc fc' : FileCache} (h : cacheScore fc cbd ≤ cacheScore fc' cbd) :
    (found fc cbd).1 ≤ (found fc' cbd).1 ∧ (found fc cbd).2 ≤ (found fc' cbd).2 := by
  have hscore : ∀ fc, cacheScore fc cbd =
      (if (found fc cbd).1 ≠ 0 then 1 else 0) + (if (found fc cbd).2 ≠ 0 then 1 else 0) :=
    fun _ => rfl
  rw [hscore, hscore] at h
  rcases found_cases fc cbd with e | e | e <;> rcases found_cases fc' cbd with e' | e' | e' <;>
    simp [e, e'] at h ⊢

/-- A cache and its shadow have the same, if nothing has expired. -/
theorem found_same {c : Cache.State} (h : Cache.Inv True c) (cbd : CallbackData) :
    found c.reader.fc cbd = found c.shadow cbd := by
  unfold found fileCacheQuery
  cases hfile : get c.reader.fc.map cbd.fileName with
  | none => rw [OrderedMap.get_eq_none_of_keys (h.mirrored.same trivial) hfile]
  | some file =>
    obtain ⟨file', hfile', hds⟩ := h.mirrored.mirrors.get hfile
    have hsame : ∀ name,
        (get file.dsCache.map name).isSome = (get file'.dsCache.map name).isSome := by
      intro name
      rw [Bool.eq_iff_iff, get_isSome_iff, get_isSome_iff, DatasetsMirrored.same hds trivial]
    simp only [hfile', hsame]

/-! ## 2. A command that finds its file open -/

/-- The answer that opens all that was asked for. -/
def allOpened (cbd : CallbackData) : Nat :=
  if cbd.datasetName.isSome then resultFileOpened ||| resultDatasetOpened else resultFileOpened

/-- The command is carried out with the file at hand: it is a hit, and what `H5Fopen` would return
does not matter. -/
structure Hit (c : Cache.State) (cbd : CallbackData) (env : Cache.Env) (answer : Reader × Nat) :
    Prop where
  hits : answer.1.fc.nrCacheHits = c.reader.fc.nrCacheHits + 1
  misses : answer.1.fc.nrCacheMisses = c.reader.fc.nrCacheMisses
  opened : answer.2 &&& resultFileOpened ≠ 0
  unopened : ∀ fileId, carryOut c cbd { env with fileId := fileId } = some answer

/-- The dataset is at hand as well: the command succeeds whatever the HDF5 library returns. -/
structure FullHit (c : Cache.State) (cbd : CallbackData) (env : Cache.Env)
    (answer : Reader × Nat) : Prop extends Hit c cbd env answer where
  succeeds : answer.2 = allOpened cbd
  independent : ∀ fileId datasetId,
    carryOut c cbd { fileId := fileId, datasetId := datasetId, now := env.now } = some answer

/-- A dataset of a file that is open. -/
theorem doReadDataset_hit {r : Reader} {fileName : Name} {file : FileCacheEntry}
    (h : get r.fc.map fileName = some file) (datasetName : Name) (env : Cache.Env) :
    doReadDataset r fileName datasetName env =
      (datasetCacheOpenDataset file.dsCache datasetName env.datasetId).map fun dataset =>
        (({ r with
            fc := FileCache.setDatasets { r.fc with
              map := (fileName, file.access env.now) :: OrderedMap.erase r.fc.map fileName
              nrCacheHits := r.fc.nrCacheHits + 1 } fileName dataset.cache } : Reader).share,
          if 0 ≤ dataset.datasetId then resultFileOpened ||| resultDatasetOpened
          else resultFileOpened) := by
  rw [doReadDataset, fileCacheOpenFile_hit h]
  simp only [fileCacheOpenDataset, get_cons_self, FileCacheEntry.access, Option.map_map]
  rfl

/-- An object of a file that is open. -/
theorem doReadObject_hit {r : Reader} {fileName : Name} {file : FileCacheEntry}
    (h : get r.fc.map fileName = some file) (env : Cache.Env) :
    doReadObject r fileName env = some
      (({ r with
          fc := { r.fc with
            map := (fileName, file.access env.now) :: OrderedMap.erase r.fc.map fileName
            nrCacheHits := r.fc.nrCacheHits + 1 } } : Reader).share, resultFileOpened) := by
  rw [doReadObject, fileCacheOpenFile_hit h]
  rfl

/-- **The file is open.** -/
theorem hit_of_found {c : Cache.State} (h : (found c.reader.fc cbd).1 = 1) {env : Cache.Env}
    {answer : Reader × Nat} (hanswer : carryOut c cbd env = some answer) :
    Hit c cbd env answer := by
  cases hfile : get c.reader.fc.map cbd.fileName with
  | none => simp [found, fileCacheQuery, hfile] at h
  | some file =>
    unfold carryOut at hanswer
    cases hname : cbd.datasetName with
    | none =>
      simp only [hname, doReadObject_hit hfile, Option.some.injEq] at hanswer
      subst hanswer
      refine ⟨rfl, rfl, ?_, fun fileId => ?_⟩
      · dsimp only
        decide
      · simp only [carryOut, hname, doReadObject_hit hfile]
    | some datasetName =>
      simp only [hname, doReadDataset_hit hfile] at hanswer
      obtain ⟨d, hd, rfl⟩ := Option.map_eq_some_iff.mp hanswer
      refine ⟨rfl, rfl, ?_, fun fileId => ?_⟩
      · dsimp only
        split <;> decide
      · simp only [carryOut, hname, doReadDataset_hit hfile, hd, Option.map_some]

/-- **File and dataset are open.** -/
theorem fullHit_of_found {c : Cache.State} (hinv : Cache.Inv exact c)
    (h : (found c.reader.fc cbd).2 = 1) {env : Cache.Env} {answer : Reader × Nat}
    (hanswer : carryOut c cbd env = some answer) : FullHit c cbd env answer := by
  have hfile : (found c.reader.fc cbd).1 = 1 := by
    rcases found_cases c.reader.fc cbd with e | e | e <;> simp [e] at h ⊢
  have hhit := hit_of_found hfile hanswer
  suffices hfull : answer.2 = allOpened cbd ∧ ∀ fileId datasetId,
      carryOut c cbd { fileId := fileId, datasetId := datasetId, now := env.now } = some answer from
    ⟨hhit, hfull.1, hfull.2⟩
  cases hget : get c.reader.fc.map cbd.fileName with
  | none => simp [found, fileCacheQuery, hget] at h
  | some file =>
    unfold carryOut at hanswer
    cases hname : cbd.datasetName with
    | none =>
      simp only [hname, doReadObject_hit hget, Option.some.injEq] at hanswer
      subst hanswer
      refine ⟨by simp [allOpened, hname], fun fileId datasetId => ?_⟩
      simp only [carryOut, hname, doReadObject_hit hget]
    | some datasetName =>
      cases hentry : get file.dsCache.map datasetName with
      | none => simp [found, fileCacheQuery, hget, hname, hentry] at h
      | some entry =>
        -- a handle in the cache is valid
        have hid : 0 ≤ entry.datasetId := by
          obtain ⟨file', -, hds⟩ := hinv.mirrored.mirrors.get hget
          obtain ⟨entry', -, hid⟩ := DatasetsMirrored.mirrors hds |>.get hentry
          exact hid
        simp only [hname, doReadDataset_hit hget, datasetCacheOpenDataset_hit hentry,
          Option.map_some, Option.some.injEq] at hanswer
        subst hanswer
        refine ⟨by simp [allOpened, hname, hid], fun fileId datasetId => ?_⟩
        simp only [carryOut, hname, doReadDataset_hit hget, datasetCacheOpenDataset_hit hentry,
          Option.map_some]

/-! ## 3. From the command back to the assignment -/

/-- A thread with this request is about to send the command to its worker. -/
structure Waits (s : State) (t : Nat) (w : Ptr) (cbd : CallbackData) : Prop where
  keeps : (s.pool.thread t).keeps = some w
  request : s.request t = some ⟨cbd, .asked⟩

theorem Waits.not_outside (h : Waits s t w cbd) : s.pool.thread t ≠ .outside := by
  intro e
  have hkeeps := h.keeps
  rw [e] at hkeeps
  cases hkeeps

/-- A step of the pool leaves the worker of a waiting thread alone. -/
theorem PoolStep.waits_back {b : Pool.Action} (hstep : PoolStep cfg s b s') (h : Inv cfg exact s)
    (ht : t < cfg.nrThreads) (hne : ∀ cb, b ≠ .assign t cb) (hw : Waits s' t w cbd) :
    Waits s t w cbd ∧ s'.caches w = s.caches w := by
  have hkeeps := (Pool.exec_cases hstep.exec).keeps_back hw.keeps hne
  refine ⟨⟨hkeeps, ?_⟩, hstep.kept w (h.held ht hkeeps)⟩
  rw [← hstep.request t hw.not_outside]
  exact hw.request

/-- So does a step of a thread that holds another worker. -/
theorem Inv.waits_back_update (h : Inv cfg exact s) (ht : t < cfg.nrThreads) {t' : Nat} {v : Ptr}
    (ht' : t' < cfg.nrThreads) (hpc : s.pool.thread t' = .holding v) {c : Cache.State}
    {r : Request} (hr : r.stage ≠ .asked)
    (hw : Waits { s with
      caches := Function.update s.caches v c
      request := Function.update s.request t' (some r) } t w cbd) :
    Waits s t w cbd ∧ Function.update s.caches v c w = s.caches w := by
  obtain ⟨hkeeps, hrequest⟩ := hw
  have hne : t ≠ t' := by
    rintro rfl
    simp only [Function.update_self, Option.some.injEq] at hrequest
    exact hr (by rw [hrequest])
  have hv : w ≠ v := by
    rintro rfl
    exact hne (h.only ht ht' hkeeps (by rw [hpc]; rfl))
  exact ⟨⟨hkeeps, by simpa [hne] using hrequest⟩, Function.update_of_ne hv _ _⟩

/-- **One step back.** -/
theorem Step.waits_back (hstep : Step cfg s a s') (h : Inv cfg exact s) (ht : t < cfg.nrThreads)
    (hne : a ≠ .assign t) (hfresh : a.isExpire = false) (hw : Waits s' t w cbd) :
    Waits s t w cbd ∧ s'.caches w = s.caches w := by
  cases hstep with
  | @request t' _ s₁ hpool =>
    have hcall := (Pool.exec_cases hpool.exec).called
    have hne : t ≠ t' := by
      rintro rfl
      have hkeeps := hw.keeps
      simp only [hcall] at hkeeps
      cases hkeeps
    have hw₁ : Waits s₁ t w cbd := ⟨hw.keeps, by simpa [hne] using hw.request⟩
    exact hpool.waits_back h ht (fun cb e => by cases e) hw₁
  | @assign t' r _ hr hpool =>
    refine hpool.waits_back h ht (fun cb e => ?_) hw
    cases e
    exact hne rfl
  | work ht' hpc hr hanswer =>
    exact h.waits_back_update ht ht' hpc (fun e => by cases e) hw
  | receive hpc hr hshadow =>
    obtain ⟨-, ht', -, -⟩ := h.answered _ _ _ hr
    exact h.waits_back_update ht ht' hpc (fun e => by cases e) hw
  | release hpc hr hpool => exact hpool.waits_back h ht (fun cb e => by cases e) hw
  | abandon hpc hpool => exact hpool.waits_back h ht (fun cb e => by cases e) hw
  | expire => cases hfresh
  | pool hother hpool =>
    refine hpool.waits_back h ht (fun cb e => ?_) hw
    subst e
    cases hother

theorem up_run {tr : List Action} : ∀ {s : State}, (machine cfg).runFrom s tr = some s' →
    s'.pool.pool.stop = false → s.pool.pool.stop = false := by
  induction tr with
  | nil =>
    intro s h hup
    cases h
    exact hup
  | cons a tr ih =>
    intro s h hup
    rw [Machine.runFrom_cons, Option.bind_eq_some_iff] at h
    obtain ⟨s₁, hs₁, h⟩ := h
    exact (exec_cases hs₁).up (ih h hup)

/-- **A run back.**  Since the assignment nobody has touched the worker. -/
theorem waits_back {tr : List Action} (ht : t < cfg.nrThreads) (hup : s'.pool.pool.stop = false)
    (hw : Waits s' t w cbd) : ∀ {s : State}, Inv cfg True s →
      (machine cfg).runFrom s tr = some s' →
      ((machine cfg).startedIn s).StepsMeet State.Completes tr →
      .assign t ∉ tr → (∀ a ∈ tr, a.isExpire = false) →
      Waits s t w cbd ∧ s'.caches w = s.caches w := by
  induction tr with
  | nil =>
    intro s _ h _ _ _
    cases h
    exact ⟨hw, rfl⟩
  | cons a tr ih =>
    intro s hinv h hmeet hne hfresh
    rw [Machine.runFrom_cons, Option.bind_eq_some_iff] at h
    obtain ⟨s₁, hs₁, h⟩ := h
    have hstep := exec_cases hs₁
    rw [List.mem_cons, not_or] at hne
    obtain ⟨hne, hne'⟩ := hne
    obtain ⟨ha, hfresh⟩ := List.forall_mem_cons.mp hfresh
    obtain ⟨hw₁, hc₁⟩ := ih (hinv.step hstep hmeet.head (fun _ => ha) (up_run h hup)) h
      (hmeet.tail hs₁) hne' hfresh
    obtain ⟨hw, hc⟩ := hstep.waits_back hinv ht (Ne.symm hne) ha hw₁
    exact ⟨hw, hc₁.trans hc⟩

/-! ## 4. The assignment -/

/-- What an assignment has found: an idle worker, and none has a higher score. -/
theorem Step.assigned (hstep : Step cfg s (.assign t) s') (h : Inv cfg exact s)
    (hw : Waits s' t w cbd) :
    s.request t = some ⟨cbd, .asked⟩ ∧ s'.caches w = s.caches w ∧
      (∃ j, IdleAt cfg.toConfig s.pool j w) ∧
      ∀ i v, IdleAt cfg.toConfig s.pool i v →
        cacheScore (s.caches v).shadow cbd ≤ cacheScore (s.caches w).shadow cbd := by
  cases hstep with
  | @assign _ r _ hr hpool =>
    have hrequest : s.request t = some ⟨cbd, .asked⟩ := by
      rw [← hpool.request t hw.not_outside]
      exact hw.request
    rw [hr, Option.some.injEq] at hrequest
    subst hrequest
    obtain ⟨-, j, hsearch, hjw⟩ := (Pool.exec_cases hpool.exec).assigned hw.keeps
    -- the search ends at an idle slot, since it has found one
    have hj : j < cfg.maxNrProcesses ∧ s.pool.pool.workerState j = .idle :=
      highScoreIndex_idle hsearch
    refine ⟨hr, hpool.kept w (h.pool.slots.live j w hj.1 hjw), ⟨j, hj.1, hj.2, hjw⟩, ?_⟩
    rintro i v ⟨hi, hidle, hiv⟩
    have hmax := highScoreIndex_max hsearch hi hidle
    rwa [hiv, hjw] at hmax

/-! ## 5. The results -/

/-- **No worker is underestimated.**  In every run before a shutdown in which exchanges with live
workers complete, with any number of threads and workers and with files that expire, the shadow of
a worker whose answer is not on its way has what the process has, and no more if nothing has
expired.  An answer can be received at any time. -/
theorem shadows_follow (cfg : Config) {tr : List Action} {s : State}
    (h : (machine cfg).run tr = some s)
    (hmeet : (machine cfg).StepsMeet State.Completes tr) (hup : s.pool.pool.stop = false) :
    (∀ w, (s.pool.heap w).isSome = true → ¬ Answered s w →
      keys (s.caches w).reader.fc.map <+: keys (s.caches w).shadow.map ∧
      (∀ cbd, (found (s.caches w).reader.fc cbd).1 ≤ (found (s.caches w).shadow cbd).1 ∧
        (found (s.caches w).reader.fc cbd).2 ≤ (found (s.caches w).shadow cbd).2) ∧
      ((∀ a ∈ tr, a.isExpire = false) →
        (s.caches w).reader.fc.contents = (s.caches w).shadow.contents)) ∧
      ∀ t cbd retcode now, s.request t = some ⟨cbd, .answered retcode⟩ →
        (machine cfg).Enabled s (.receive t now) := by
  refine ⟨fun w hw hanswered => ?_, fun t cbd retcode now hr => ?_⟩
  · have hinv := ((inv_run cfg False h hmeet hup fun e => e.elim).settled w hw hanswered).mirrored
    refine ⟨hinv.mirrors.keys_isPrefix, fun cbd => hinv.query _ _, fun hfresh => ?_⟩
    have hsame := ((inv_run cfg True h hmeet hup fun _ => hfresh).settled w hw hanswered).mirrored
    exact contents_eq hsame.mirrors (hsame.same trivial)
  · obtain ⟨w, -, hpc, hsettles⟩ :=
      (inv_run cfg False h hmeet hup fun e => e.elim).answered t cbd retcode hr
    obtain ⟨shadow, hshadow, -⟩ := hsettles now
    simp [Machine.Enabled, machine, exec, hpc, hr, hshadow]

/-- **A request goes where its file is open.**  Consider a run in which no files expire and no live
worker is abandoned: thread `t` is assigned a worker in `s`, and this worker carries out its command
in `s₂`.  It was idle, nobody has used it in between, and if an idle worker had the file open then
the command is a hit; if one had file and dataset open, it succeeds without either being opened. -/
theorem served_from_cache (cfg : Config) {tr tr' : List Action} {s s₁ s₂ s₃ : State} {t : Nat}
    {env : Cache.Env} (hrun : (machine cfg).run tr = some s)
    (hassign : exec cfg s (.assign t) = some s₁) (hrun' : (machine cfg).runFrom s₁ tr' = some s₂)
    (hwork : exec cfg s₂ (.work t env) = some s₃) (hsame : .assign t ∉ tr')
    (hmeet : (machine cfg).StepsMeet State.Completes ((tr ++ [.assign t]) ++ tr'))
    (hfresh : ∀ a ∈ tr ++ tr', a.isExpire = false) (hup : s₃.pool.pool.stop = false) :
    ∃ w cbd answer, (∃ j, IdleAt cfg.toConfig s.pool j w) ∧ s.request t = some ⟨cbd, .asked⟩ ∧
      s₂.pool.thread t = .holding w ∧ s₂.caches w = s.caches w ∧
      (s₃.caches w).reader = answer.1 ∧ s₃.request t = some ⟨cbd, .answered answer.2⟩ ∧
      ∀ i v, IdleAt cfg.toConfig s.pool i v →
        ((found (s.caches v).reader.fc cbd).1 = 1 → Hit (s.caches w) cbd env answer) ∧
        ((found (s.caches v).reader.fc cbd).2 = 1 → FullHit (s.caches w) cbd env answer) := by
  obtain ⟨hfresh, hfresh'⟩ := List.forall_mem_append.mp hfresh
  have hwork := exec_cases hwork
  have hup₂ := hwork.up hup
  have hup₁ := up_run hrun' hup₂
  have hrun₁ : (machine cfg).run (tr ++ [.assign t]) = some s₁ :=
    (Machine.run_snoc_eq_some _).mpr ⟨s, hrun, hassign⟩
  have hassign := exec_cases hassign
  have hinv : Inv cfg True s :=
    inv_run cfg True hrun hmeet.left.left (hassign.up hup₁) fun _ => hfresh
  have hinv₁ : Inv cfg True s₁ := hinv.step hassign trivial (fun _ => rfl) hup₁
  cases hwork with
  | @work _ w cbd _ answer ht hpc hr hanswer =>
    have hw₂ : Waits s₂ t w cbd := ⟨by rw [hpc]; rfl, hr⟩
    obtain ⟨hw₁, hc₂⟩ := waits_back ht hup₂ hw₂ hinv₁ hrun' (hmeet.right hrun₁) hsame hfresh'
    obtain ⟨hrequest, hc₁, ⟨j, hidle⟩, hmax⟩ := hassign.assigned hinv hw₁
    have hc : s₂.caches w = s.caches w := hc₂.trans hc₁
    rw [hc] at hanswer
    refine ⟨w, cbd, answer, ⟨j, hidle⟩, hrequest, hpc, hc, by simp, by simp, ?_⟩
    intro i v hv
    -- the shadows that the callback has read are what the processes have
    have hle := found_le_of_cacheScore (hmax i v hv)
    rw [← found_same (hinv.settled_of_idle hv), ← found_same (hinv.settled_of_idle hidle)] at hle
    have hcases := found_cases (s.caches w).reader.fc cbd
    refine ⟨fun hfile => hit_of_found ?_ hanswer,
      fun hdataset => fullHit_of_found (hinv.settled_of_idle hidle) ?_ hanswer⟩
    · rw [hfile] at hle
      rcases hcases with e | e | e <;> simp [e] at hle ⊢
    · rw [hdataset] at hle
      rcases hcases with e | e | e <;> simp [e] at hle ⊢

/-- Two workers, for two threads. -/
def twoWorkers : Config :=
  { maxNrProcesses := 2, nrThreads := 2, maxOpenFiles := 4, maxOpenDatasets := 4 }

/-- Thread 0 has read a dataset of file 1 with one worker and thread 1 an object of file 2 with the
other.  Now thread 0 wants an object of file 2, and it would be the turn of the first worker. -/
def warmUp : List Action :=
  [.request 0 ⟨[1], some [5]⟩, .pool (.getValue 0), .pool (.startWorker 0 (some 10)),
    .pool (.semWait 0), .assign 0, .pool (.check 0), .request 1 ⟨[2], none⟩,
    .pool (.getValue 1), .pool (.startWorker 1 (some 11)), .pool (.semWait 1), .assign 1,
    .pool (.check 1), .work 0 ⟨3, 4, 0⟩, .work 1 ⟨5, 0, 0⟩, .receive 1 7, .receive 0 7,
    .release 0, .pool (.post 0), .release 1, .pool (.post 1),
    .request 0 ⟨[2], none⟩, .pool (.getValue 0), .pool (.semWait 0)]

theorem warmUp_slot : ((machine twoWorkers).run warmUp).map (fun s =>
    (s.pool.pool.workerState 1, s.pool.pool.worker 1,
      found (s.caches 11).reader.fc ⟨[2], none⟩)) = some (.idle, some 11, (1, 1)) := by
  decide +kernel

theorem warmUp_request : ((machine twoWorkers).run warmUp).map (fun s =>
    (s.request 0).map fun r => (r.cbd.fileName, r.cbd.datasetName)) = some (some ([2], none)) := by
  decide +kernel

theorem warmUp_completes : (machine twoWorkers).StepsMeet State.Completes warmUp :=
  completes_of_none (by decide)

theorem shadows_follow_twoWorkers : ∃ s, (machine twoWorkers).run warmUp = some s ∧
    keys (s.caches 11).reader.fc.map <+: keys (s.caches 11).shadow.map := by
  have hrun : ((machine twoWorkers).run warmUp).map (fun s =>
      (s.pool.pool.stop, (s.pool.heap 11).isSome, s.pool.thread 0, s.pool.thread 1)) =
        some (false, true, .lock 0, .outside) := by
    decide +kernel
  obtain ⟨s, hs, hend⟩ := Option.map_eq_some_iff.mp hrun
  simp only [Prod.mk.injEq] at hend
  obtain ⟨hup, hheap, h0, h1⟩ := hend
  have hanswered : ¬ Answered s 11 := by
    rintro ⟨t, cbd, retcode, hpc, hr⟩
    obtain ⟨-, ht, -, -⟩ :=
      (inv_run twoWorkers False hs warmUp_completes hup fun e => e.elim).answered t cbd retcode hr
    obtain rfl | rfl : t = 0 ∨ t = 1 := by
      have ht : t < 2 := ht
      omega
    · rw [h0] at hpc
      cases hpc
    · rw [h1] at hpc
      cases hpc
  exact ⟨s, hs, ((shadows_follow twoWorkers hs warmUp_completes hup).1 11 hheap hanswered).1⟩

theorem served_from_cache_twoWorkers : ∃ s w answer, (machine twoWorkers).run warmUp = some s ∧
    FullHit (s.caches w) ⟨[2], none⟩ ⟨-1, -1, 9⟩ answer := by
  have hall : ((machine twoWorkers).run
      (((warmUp ++ [.assign 0]) ++ [.pool (.check 0)]) ++ [.work 0 ⟨-1, -1, 9⟩])).map
        (fun s => s.pool.pool.stop) = some false := by
    decide +kernel
  obtain ⟨s₃, hs₃, hup⟩ := Option.map_eq_some_iff.mp hall
  obtain ⟨s₂, hs₂, hwork⟩ := (Machine.run_snoc_eq_some _).mp hs₃
  obtain ⟨s₁, hs₁, hrun'⟩ := (machine twoWorkers).run_split hs₂
  obtain ⟨s, hs, hassign⟩ := (Machine.run_snoc_eq_some _).mp hs₁
  have hslot := warmUp_slot
  have hrequest := warmUp_request
  rw [hs, Option.map_some, Option.some.injEq] at hslot hrequest
  simp only [Prod.mk.injEq] at hslot
  obtain ⟨hstate, hworker, hfound⟩ := hslot
  obtain ⟨w, cbd, answer, -, hr, -, -, -, -, hserved⟩ := served_from_cache twoWorkers hs hassign
    hrun' hwork (fun hmem => by cases hmem with | tail _ h => cases h)
    (completes_of_none (by decide)) (by decide) hup
  obtain ⟨fileName, datasetName⟩ := cbd
  simp only [hr, Option.map_some, Option.some.injEq, Prod.mk.injEq] at hrequest
  obtain ⟨rfl, rfl⟩ := hrequest
  exact ⟨s, w, answer, hs, (hserved 1 11 ⟨by decide, hstate, hworker⟩).2 (by rw [hfound])⟩

end HdfStream.Library
