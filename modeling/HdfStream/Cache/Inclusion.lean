/-
# More open files, fewer misses

A reader process keeps `max_open_files` files open.  This module compares the caches of two
processes, with different numbers of files and other handles, that are asked for the same files in
the same order: the smaller cache has the first files of the larger one, so that the larger one is
never asked to open a file which the smaller one has at hand.

Both counters of a cache follow from the files that were asked for: there is a hit or a miss for
each time that a file was opened, and the misses are the faults of an LRU cache of this size
(`counted_run`).  Entries that expire break the comparison, because the age of an entry depends on
when it was used last and not on the size of the cache; the runs here have none.
-/
import HdfStream.Cache.Handles

namespace HdfStream.Cache

open LinkedMap OrderedMap Recency

variable {maxFiles maxDatasets : Int} {s s' : Usage} {fc : FileCache} {name : Name}
  {opened now : Int}
  {calls : List Call}

/-! ## 1. The counters -/

/-- What `file_cache_open_file` does with the counters and the record. -/
inductive FileStep (s : Usage) (fc : FileCache) (name : Name) (opened : Int) (s' : Usage) :
    Prop where
  /-- `H5Fopen` fails. -/
  | failed (hnew : name ∉ keys fc.map) (hfail : opened < 0) (hcache : s'.cache = some fc)
      (hlog : s'.log = s.log)
  | miss (hnew : name ∉ keys fc.map) (hopened : 0 ≤ opened) (fc' : FileCache)
      (hcache : s'.cache = some fc') (hhits : fc'.nrCacheHits = fc.nrCacheHits)
      (hmisses : fc'.nrCacheMisses = fc.nrCacheMisses + 1)
      (hlog : s'.log = .file name opened true :: s.log)
  | hit (hold : name ∈ keys fc.map) (fc' : FileCache) (fileId : Int)
      (hcache : s'.cache = some fc') (hhits : fc'.nrCacheHits = fc.nrCacheHits + 1)
      (hmisses : fc'.nrCacheMisses = fc.nrCacheMisses)
      (hlog : s'.log = .file name fileId false :: s.log)

theorem openFile_cases (hmax : 1 ≤ fc.maxOpenFiles)
    (h : s.openFile fc name now opened = some s') : FileStep s fc name opened s' := by
  rw [Usage.openFile] at h
  split at h
  · cases h
  rcases hget : get fc.map name with _ | entry
  · have hnew : name ∉ keys fc.map := get_eq_none_iff.mp hget
    by_cases hfail : opened < 0
    · rw [fileCacheOpenFile_failed hget now hfail] at h
      cases h
      exact .failed hnew hfail rfl rfl
    · rw [fileCacheOpenFile_new hmax hget now (Int.not_lt.mp hfail)] at h
      cases h
      refine .miss hnew (Int.not_lt.mp hfail) _ rfl rfl rfl ?_
      simp [hget, fileCacheEntryNew]
  · have hold : name ∈ keys fc.map := get_isSome_iff.mp (by rw [hget]; rfl)
    rw [fileCacheOpenFile_hit hget] at h
    cases h
    refine .hit hold _ entry.fileId rfl rfl rfl ?_
    simp [hget, FileCacheEntry.access]

/-- `file_cache_open_dataset` leaves the counters and the record of the files alone. -/
theorem openDataset_counters (h : s.openDataset fc name opened = some s') :
    ∃ fc', s'.cache = some fc' ∧ fc'.nrCacheHits = fc.nrCacheHits ∧
      fc'.nrCacheMisses = fc.nrCacheMisses ∧ fileUses s'.log = fileUses s.log := by
  rw [Usage.openDataset] at h
  split at h
  · cases h
  split at h
  · cases h
  rename_i fileName _ file hfile
  dsimp only at h
  split at h
  · cases h
  rw [fileCacheOpenDataset, hfile] at h
  dsimp only at h
  cases hr : datasetCacheOpenDataset file.dsCache name opened with
  | none =>
    rw [hr] at h
    cases h
  | some r =>
    rw [hr] at h
    simp only [Option.map_some, Option.some.injEq] at h
    subst h
    split <;> exact ⟨_, rfl, rfl, rfl, rfl⟩

/-- The counters are those of the files that were opened. -/
def Counted (maxFiles : Int) (s : Usage) : Prop :=
  ∀ fc, s.cache = some fc →
    fc.nrCacheHits + fc.nrCacheMisses = (fileUses s.log).length ∧
      fc.nrCacheMisses = faults maxFiles.toNat (fileUses s.log)

theorem Counted.openFile (hmax : 1 ≤ fc.maxOpenFiles) (h : Counted maxFiles s)
    (hrecent : Recent maxFiles s) (hs : s.cache = some fc)
    (hstep : s.openFile fc name now opened = some s') : Counted maxFiles s' := by
  obtain ⟨htotal, hmisses⟩ := h fc hs
  have hkeys : keys fc.map = (recent (fileUses s.log)).take maxFiles.toNat := hrecent fc hs
  intro fc' hfc'
  cases openFile_cases hmax hstep with
  | failed hnew hfail hcache hlog =>
    rw [hcache, Option.some.injEq] at hfc'
    rw [← hfc', hlog]
    exact ⟨htotal, hmisses⟩
  | miss hnew hopened fc₁ hcache hhits₁ hmisses₁ hlog =>
    rw [hcache, Option.some.injEq] at hfc'
    subst hfc'
    rw [hkeys] at hnew
    have huses : fileUses s'.log = name :: fileUses s.log := by rw [hlog]; rfl
    rw [huses, hhits₁, hmisses₁, List.length_cons, faults, if_neg hnew]
    omega
  | hit hold fc₁ fileId hcache hhits₁ hmisses₁ hlog =>
    rw [hcache, Option.some.injEq] at hfc'
    subst hfc'
    rw [hkeys] at hold
    have huses : fileUses s'.log = name :: fileUses s.log := by rw [hlog]; rfl
    rw [huses, hhits₁, hmisses₁, List.length_cons, faults, if_pos hold]
    omega

/-- **The counters of every run** in which nothing expires. -/
theorem counted_run (hfiles : 1 ≤ maxFiles) (hdatasets : 1 ≤ maxDatasets)
    (h : (usageMachine maxFiles maxDatasets).run calls = some s)
    (hexpire : ∀ call ∈ calls, call.isExpire = false) : Counted maxFiles s := by
  refine (usageMachine maxFiles maxDatasets).run_induction
    (I := fun calls s => (∀ call ∈ calls, call.isExpire = false) → Counted maxFiles s) ?_ ?_
    calls s h hexpire
  · intro _ fc hfc
    cases hfc
    exact ⟨rfl, rfl⟩
  · intro calls s call s' hrun ih hstep hexpire
    have hexpire₀ : ∀ call ∈ calls, call.isExpire = false :=
      fun c hc => hexpire c (List.mem_append_left _ hc)
    obtain ⟨hgood, hrecent⟩ := good_of_run hfiles hdatasets hrun
    change Usage.exec s call = some s' at hstep
    rw [Usage.exec] at hstep
    rcases hs : s.cache with _ | fc
    · rw [hs] at hstep
      cases hstep
    rw [hs] at hstep
    have hmax : 1 ≤ fc.maxOpenFiles := by rw [(hgood.inv fc hs).maxFiles_eq]; exact hfiles
    cases call with
    | openFile name now h5Fopen =>
      exact (ih hexpire₀).openFile hmax (hrecent hexpire₀) hs hstep
    | openDataset name h5Dopen =>
      obtain ⟨fc₁, hcache, hhits, hmisses, huses⟩ := openDataset_counters hstep
      intro fc' hfc'
      rw [hcache, Option.some.injEq] at hfc'
      subst hfc'
      rw [hhits, hmisses, huses]
      exact ih hexpire₀ fc hs
    | expire maxAge now =>
      have := hexpire _ (List.mem_append_right calls (List.mem_singleton_self _))
      cases this
    | free =>
      intro fc' hfc'
      cases hstep
      cases hfc'

/-! ## 2. What was asked for -/

/-- The file that a call asks for. -/
def Call.file : Call → Option Name
  | .openFile name _ _ => some name
  | _ => none

/-- `H5Fopen` would open these files, and no others, whenever it was called. -/
def Call.Follows (openable : Name → Bool) : Call → Prop
  | .openFile name _ h5Fopen => 0 ≤ h5Fopen ↔ openable name = true
  | _ => True

instance (openable : Name → Bool) : DecidablePred (Call.Follows openable)
  | .openFile name _ h5Fopen => inferInstanceAs (Decidable (0 ≤ h5Fopen ↔ openable name = true))
  | .openDataset _ _ | .expire _ _ | .free => isTrue trivial

/-- The files that can be opened, in the order in which they were asked for. -/
def asked (openable : Name → Bool) (calls : List Call) : List Name :=
  (calls.filterMap Call.file).filter openable

/-- A cached file has been opened before. -/
theorem mem_fileUses_of_cached (hfiles : 1 ≤ maxFiles) (hdatasets : 1 ≤ maxDatasets)
    (h : (usageMachine maxFiles maxDatasets).run calls = some s)
    (hexpire : ∀ call ∈ calls, call.isExpire = false) (hs : s.cache = some fc)
    (hname : name ∈ keys fc.map) : name ∈ fileUses s.log := by
  have hkeys : keys fc.map = (recent (fileUses s.log)).take maxFiles.toNat :=
    (good_of_run hfiles hdatasets h).2 hexpire fc hs
  rw [hkeys] at hname
  exact mem_of_mem_recent (List.mem_of_mem_take hname)

/-- **The files that are opened are those that were asked for**, whatever the size of the cache. -/
theorem fileUses_run (hfiles : 1 ≤ maxFiles) (hdatasets : 1 ≤ maxDatasets) {openable : Name → Bool}
    (h : (usageMachine maxFiles maxDatasets).run calls = some s)
    (hexpire : ∀ call ∈ calls, call.isExpire = false)
    (hfollows : ∀ call ∈ calls, call.Follows openable) :
    fileUses s.log = (asked openable calls).reverse := by
  refine (usageMachine maxFiles maxDatasets).run_induction
    (I := fun calls s => (∀ call ∈ calls, call.isExpire = false) →
      (∀ call ∈ calls, call.Follows openable) →
        fileUses s.log = (asked openable calls).reverse) ?_ ?_ calls s h hexpire hfollows
  · intro _ _
    rfl
  · intro calls s call s' hrun ih hstep hexpire hfollows
    have hexpire₀ : ∀ call ∈ calls, call.isExpire = false :=
      fun c hc => hexpire c (List.mem_append_left _ hc)
    have huses := ih hexpire₀ fun c hc => hfollows c (List.mem_append_left _ hc)
    have hcall := hfollows call (List.mem_append_right calls (List.mem_singleton_self call))
    -- a file that was opened can be opened
    have hopenable : ∀ n ∈ fileUses s.log, openable n = true := by
      intro n hn
      rw [huses, List.mem_reverse] at hn
      exact (List.mem_filter.mp hn).2
    rw [asked, List.filterMap_append, List.filter_append, ← asked, List.reverse_append, ← huses]
    obtain ⟨hgood, -⟩ := good_of_run hfiles hdatasets hrun
    change Usage.exec s call = some s' at hstep
    rw [Usage.exec] at hstep
    rcases hs : s.cache with _ | fc
    · rw [hs] at hstep
      cases hstep
    rw [hs] at hstep
    have hmax : 1 ≤ fc.maxOpenFiles := by rw [(hgood.inv fc hs).maxFiles_eq]; exact hfiles
    cases call with
    | openFile name now h5Fopen =>
      change 0 ≤ h5Fopen ↔ openable name = true at hcall
      cases openFile_cases hmax hstep with
      | failed hnew hfail hcache hlog =>
        have hno : openable name = false := by
          by_contra hyes
          have := hcall.mpr (by simpa using hyes)
          omega
        simp [Call.file, hno, hlog]
      | miss hnew hopened fc₁ hcache hhits hmisses hlog =>
        simp [Call.file, hcall.mp hopened, hlog, fileUses]
      | hit hold fc₁ fileId hcache hhits hmisses hlog =>
        have hyes := hopenable name
          (mem_fileUses_of_cached hfiles hdatasets hrun hexpire₀ hs hold)
        simp [Call.file, hyes, hlog, fileUses]
    | openDataset name h5Dopen =>
      obtain ⟨fc₁, -, -, -, huses'⟩ := openDataset_counters hstep
      exact huses'
    | expire maxAge now =>
      have := hexpire _ (List.mem_append_right calls (List.mem_singleton_self _))
      cases this
    | free =>
      cases hstep
      simp [Call.file]

/-! ## 3. Two caches -/

/-- **A larger cache misses less.**  Two processes are asked for the same files in the same order,
and the same files can be opened.  The process that may keep more files open has all the files of
the other one in its cache, in the same order and before all others; it calls `H5Fopen` with
success at most as often; and both have the same number of hits and misses together. -/
theorem larger_cache (openable : Name → Bool) {maxFiles' maxDatasets' : Int} {calls' : List Call}
    (hfiles : 1 ≤ maxFiles) (hle : maxFiles ≤ maxFiles') (hdatasets : 1 ≤ maxDatasets)
    (hdatasets' : 1 ≤ maxDatasets') (h : (usageMachine maxFiles maxDatasets).run calls = some s)
    (h' : (usageMachine maxFiles' maxDatasets').run calls' = some s')
    (hexpire : ∀ call ∈ calls ++ calls', call.isExpire = false)
    (hfollows : ∀ call ∈ calls ++ calls', call.Follows openable)
    (hsame : calls.filterMap Call.file = calls'.filterMap Call.file) {fc' : FileCache}
    (hfc : s.cache = some fc) (hfc' : s'.cache = some fc') :
    keys fc.map <+: keys fc'.map ∧ fc'.nrCacheMisses ≤ fc.nrCacheMisses ∧
      fc'.nrCacheHits + fc'.nrCacheMisses = fc.nrCacheHits + fc.nrCacheMisses := by
  have hexpire₁ : ∀ call ∈ calls, call.isExpire = false :=
    fun c hc => hexpire c (List.mem_append_left _ hc)
  have hexpire₂ : ∀ call ∈ calls', call.isExpire = false :=
    fun c hc => hexpire c (List.mem_append_right _ hc)
  have hfiles' : 1 ≤ maxFiles' := Int.le_trans hfiles hle
  have huses : fileUses s'.log = fileUses s.log := by
    rw [fileUses_run hfiles' hdatasets' h' hexpire₂ fun c hc =>
        hfollows c (List.mem_append_right _ hc),
      fileUses_run hfiles hdatasets h hexpire₁ fun c hc =>
        hfollows c (List.mem_append_left _ hc), asked, asked, hsame]
  have hkeys : keys fc.map = (recent (fileUses s.log)).take maxFiles.toNat :=
    (good_of_run hfiles hdatasets h).2 hexpire₁ fc hfc
  have hkeys' : keys fc'.map = (recent (fileUses s'.log)).take maxFiles'.toNat :=
    (good_of_run hfiles' hdatasets' h').2 hexpire₂ fc' hfc'
  obtain ⟨htotal, hmisses⟩ := counted_run hfiles hdatasets h hexpire₁ fc hfc
  obtain ⟨htotal', hmisses'⟩ := counted_run hfiles' hdatasets' h' hexpire₂ fc' hfc'
  have hroom : maxFiles.toNat ≤ maxFiles'.toNat := Int.toNat_le_toNat hle
  rw [huses] at hkeys' htotal' hmisses'
  refine ⟨?_, ?_, ?_⟩
  · rw [hkeys, hkeys']
    exact List.take_prefix_take_left hroom
  · rw [hmisses, hmisses']
    exact faults_le hroom _
  · rw [htotal, htotal']

/-- The files 1, 2 and 3 in turn; file 4 cannot be opened. -/
def inTurn (handle : Int) : List Call :=
  [.openFile [1] 0 handle, .openFile [2] 0 (handle + 1), .openFile [4] 0 (-1),
    .openFile [3] 0 (handle + 2), .openFile [1] 0 (handle + 3), .openFile [2] 0 (handle + 4)]

theorem larger_cache_inTurn :
    ∃ s s' fc fc', (usageMachine 2 1).run (inTurn 10) = some s ∧
      (usageMachine 3 1).run (inTurn 20) = some s' ∧ s.cache = some fc ∧ s'.cache = some fc' ∧
      keys fc.map <+: keys fc'.map ∧ fc'.nrCacheMisses ≤ fc.nrCacheMisses := by
  have hrun : ((usageMachine 2 1).run (inTurn 10)).map (fun s => s.cache.isSome) = some true := by
    decide +kernel
  have hrun' : ((usageMachine 3 1).run (inTurn 20)).map (fun s => s.cache.isSome) = some true := by
    decide +kernel
  obtain ⟨s, hs, hsome⟩ := Option.map_eq_some_iff.mp hrun
  obtain ⟨s', hs', hsome'⟩ := Option.map_eq_some_iff.mp hrun'
  obtain ⟨fc, hfc⟩ := Option.isSome_iff_exists.mp hsome
  obtain ⟨fc', hfc'⟩ := Option.isSome_iff_exists.mp hsome'
  obtain ⟨hfirst, hmisses, -⟩ := larger_cache (fun n => n != [4]) (by decide) (by decide)
    (by decide) (by decide) hs hs' (by decide) (by decide) (by decide) hfc hfc'
  exact ⟨s, s', fc, fc', hs, hs', hfc, hfc', hfirst, hmisses⟩

end HdfStream.Cache
