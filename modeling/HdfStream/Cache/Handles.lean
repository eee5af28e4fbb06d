/-
# The caches are exact LRU caches, and no handle is lost

A worker opens files and datasets through its cache, lets entries expire, and frees the cache in
the end.  `Usage` is the cache together with what has happened: the handles that the HDF5 library
has opened, those that were closed, and the history of successful calls.

`fileCache_lru` says that after every sequence of calls the cache has the most recently used names
and nothing else, with the handles that their calls returned, and that each handle ever opened is
either cached or has been closed, once.
-/
import HdfStream.Cache.Mirror
import HdfStream.Lib.Recency
import Mathlib.Data.List.Perm.Basic

namespace HdfStream.Cache

open LinkedMap OrderedMap Recency

/-! ## 1. Closing -/

/-- `dataset_cache_free`: the handles it closes. -/
def datasetCacheFree (dsCache : DatasetCache) : List Int :=
  (evict 1 dsCache.map).2.map DatasetCacheEntry.datasetId

/-- `H5Fclose` and `file_cache_entry_free`: the handles they close. -/
def closeEntry (entry : FileCacheEntry) : List Int :=
  entry.fileId :: datasetCacheFree entry.dsCache

/-- `file_cache_free`: the handles it closes. -/
def fileCacheFree (fc : FileCache) : List Int := (evict 1 fc.map).2.flatMap closeEntry

/-! ## 2. Calls -/

/-- A successful call. -/
inductive Event where
  /-- A file, its handle, and whether `H5Fopen` was called. -/
  | file (name : Name) (fileId : Int) (isNew : Bool)
  /-- A dataset of a file, and its handle. -/
  | dataset (fileName name : Name) (datasetId : Int)

/-- The cache, and what has happened. -/
structure Usage where
  /-- `none` after `file_cache_free`. -/
  cache : Option FileCache
  /-- The name in the entry that was returned last. -/
  last : Option Name
  /-- The handles that were opened, and those that were closed. -/
  opened : List Int
  closed : List Int
  /-- The successful calls, the last one first. -/
  log : List Event

/-- A call, with the time and with what `H5Fopen` or `H5Dopen` returns if it is called. -/
inductive Call where
  | openFile (name : Name) (now h5Fopen : Int)
  /-- For the entry that was returned last. -/
  | openDataset (name : Name) (h5Dopen : Int)
  | expire (maxAge now : Int)
  | free

/-- The call lets entries expire. -/
def Call.isExpire : Call → Bool
  | .expire _ _ => true
  | _ => false

/-- `file_cache_open_file`. -/
def Usage.openFile (s : Usage) (fc : FileCache) (name : Name) (now h5Fopen : Int) : Option Usage :=
  let isNew := (get fc.map name).isNone
  -- a handle is none of those that were opened before
  if isNew ∧ h5Fopen ∈ s.opened then none
  else
    (fileCacheOpenFile fc name now h5Fopen).map fun r =>
      match r.entry with
      | none => { s with cache := some r.cache }
      | some entry =>
        { cache := some r.cache
          last := some name
          opened := if isNew then s.opened ++ [h5Fopen] else s.opened
          closed := s.closed ++ r.closed.flatMap closeEntry
          log := .file name entry.fileId isNew :: s.log }

/-- `file_cache_open_dataset`, for an entry that has not been freed. -/
def Usage.openDataset (s : Usage) (fc : FileCache) (name : Name) (h5Dopen : Int) : Option Usage :=
  match s.last with
  | none => none
  | some fileName =>
    match get fc.map fileName with
    | none => none
    | some file =>
      let isNew := (get file.dsCache.map name).isNone
      if isNew ∧ h5Dopen ∈ s.opened then none
      else
        (fileCacheOpenDataset fc fileName name h5Dopen).map fun r =>
          if isNew ∧ h5Dopen < 0 then { s with cache := some r.1 }
          else
            { s with
              cache := some r.1
              opened := if isNew then s.opened ++ [h5Dopen] else s.opened
              closed := s.closed ++ r.2.2.map DatasetCacheEntry.datasetId
              log := .dataset fileName name r.2.1 :: s.log }

/-- The step function. -/
def Usage.exec (s : Usage) (call : Call) : Option Usage :=
  match s.cache with
  | none => none
  | some fc =>
    match call with
    | .openFile name now h5Fopen => s.openFile fc name now h5Fopen
    | .openDataset name h5Dopen => s.openDataset fc name h5Dopen
    | .expire maxAge now =>
      let r := fileCacheExpireEntries fc maxAge now
      some { s with cache := some r.1, closed := s.closed ++ r.2.flatMap closeEntry }
    | .free => some { s with cache := none, closed := s.closed ++ fileCacheFree fc }

/-- A cache from `file_cache_new` on. -/
def usageMachine (maxOpenFiles maxOpenDatasets : Int) : Machine Usage Call where
  init :=
    { cache := some (fileCacheNew maxOpenFiles maxOpenDatasets)
      last := none
      opened := []
      closed := []
      log := [] }
  exec := Usage.exec

/-! ## 3. The history -/

/-- The files that were opened, the last one first. -/
def fileUses (log : List Event) : List Name :=
  log.filterMap fun e =>
    match e with
    | .file name _ _ => some name
    | .dataset .. => none

/-- The datasets that were opened since `H5Fopen` for their file, the last one first. -/
def datasetUses (fileName : Name) : List Event → List Name
  | [] => []
  | .file name _ isNew :: log => if name = fileName ∧ isNew then [] else datasetUses fileName log
  | .dataset file name _ :: log =>
    if file = fileName then name :: datasetUses fileName log else datasetUses fileName log

/-- The handle that the last call for a file returned. -/
def lastFileId (fileName : Name) : List Event → Option Int
  | [] => none
  | .file name fileId _ :: log => if name = fileName then some fileId else lastFileId fileName log
  | .dataset .. :: log => lastFileId fileName log

/-- The handle that the last call for a dataset returned, since `H5Fopen` for its file. -/
def lastDatasetId (fileName datasetName : Name) : List Event → Option Int
  | [] => none
  | .file name _ isNew :: log =>
    if name = fileName ∧ isNew then none else lastDatasetId fileName datasetName log
  | .dataset file name datasetId :: log =>
    if file = fileName ∧ name = datasetName then some datasetId
    else lastDatasetId fileName datasetName log

/-! ## 4. Handles -/

/-- The handles of the datasets in a cache. -/
def datasetHandles (dsCache : DatasetCache) : List Int :=
  dsCache.map.map fun e => e.2.datasetId

/-- The handles of a file and its datasets. -/
def entryHandles (entry : FileCacheEntry) : List Int :=
  entry.fileId :: datasetHandles entry.dsCache

/-- The handles in a cache. -/
def cachedHandles : Option FileCache → List Int
  | none => []
  | some fc => fc.map.flatMap fun e => entryHandles e.2

theorem evict_entries {ν : Type} (max : Int) (m : List (Name × ν)) :
    (evict max m).1.map Prod.snd ++ (evict max m).2.reverse = m.map Prod.snd := by
  induction hlen : m.length using Nat.strongRecOn generalizing m with
  | _ n ih =>
    subst hlen
    rw [evict]
    split
    · split
      · rw [List.reverse_nil, List.append_nil]
      · rename_i v n hsome
        obtain ⟨e, he, heq⟩ := Option.map_eq_some_iff.mp hsome
        cases heq
        have hlast := List.dropLast_append_getLast? e he
        have hlength := congrArg List.length hlast
        rw [List.length_append, List.length_singleton] at hlength
        dsimp only
        rw [List.reverse_cons, ← List.append_assoc, ih _ (by omega) _ rfl]
        conv_rhs => rw [← hlast]
        rw [List.map_append]
        rfl
    · rw [List.reverse_nil, List.append_nil]

theorem removeTails_entries {ν : Type} (k : Nat) (m : List (Name × ν)) :
    (removeTails k m).1.map Prod.snd ++ (removeTails k m).2.reverse = m.map Prod.snd := by
  induction k generalizing m with
  | zero => exact List.append_nil _
  | succ k ih =>
    rw [removeTails]
    split
    · exact List.append_nil _
    · rename_i v n hsome
      obtain ⟨e, he, heq⟩ := Option.map_eq_some_iff.mp hsome
      cases heq
      have hlast := List.dropLast_append_getLast? e he
      dsimp only
      rw [List.reverse_cons, ← List.append_assoc, ih]
      conv_rhs => rw [← hlast]
      rw [List.map_append]
      rfl

/-- What is removed at the tail, and what is left. -/
theorem removed_perm {ν : Type} {m n : List (Name × ν)} {removed : List ν}
    (h : n.map Prod.snd ++ removed.reverse = m.map Prod.snd) {f g : ν → List Int}
    (hfg : ∀ v, (g v).Perm (f v)) :
    (removed.flatMap g ++ n.flatMap fun e => f e.2).Perm (m.flatMap fun e => f e.2) := by
  have hmap : ∀ l : List (Name × ν), (l.flatMap fun e => f e.2) = (l.map Prod.snd).flatMap f :=
    fun l => (List.flatMap_map Prod.snd f l).symm
  rw [hmap, hmap, ← h, List.flatMap_append]
  refine List.perm_append_comm.trans (List.Perm.append_left _ ?_)
  exact (List.Perm.flatMap_left _ fun v _ => hfg v).trans
    (List.Perm.flatMap_right f (List.reverse_perm removed).symm)

/-- `dataset_cache_free` closes all datasets. -/
theorem datasetCacheFree_perm (dsCache : DatasetCache) :
    (datasetCacheFree dsCache).Perm (datasetHandles dsCache) := by
  have hentries := evict_entries 1 dsCache.map
  rw [evict_map (Int.le_refl 1)] at hentries
  have hall : (evict 1 dsCache.map).2.reverse = dsCache.map.map Prod.snd := hentries
  rw [datasetCacheFree, datasetHandles]
  refine ((List.reverse_perm _).symm.map _).trans ?_
  rw [hall, List.map_map]
  exact List.Perm.refl _

theorem closeEntry_perm (entry : FileCacheEntry) :
    (closeEntry entry).Perm (entryHandles entry) :=
  (datasetCacheFree_perm entry.dsCache).cons _

/-- `file_cache_free` closes all handles in the cache. -/
theorem fileCacheFree_perm (fc : FileCache) :
    (fileCacheFree fc).Perm (cachedHandles (some fc)) := by
  have hperm := removed_perm (evict_entries 1 fc.map) closeEntry_perm
  rw [evict_map (Int.le_refl 1)] at hperm
  rw [fileCacheFree, cachedHandles]
  exact (List.Perm.of_eq (List.append_nil _).symm).trans hperm

/-! ## 5. The entries of a map -/

section

variable {ν : Type} {m : List (Name × ν)} {k : Name} {v : ν}

theorem erase_perm (hm : (keys m).Nodup) (h : get m k = some v) :
    m.Perm ((k, v) :: erase m k) := by
  induction m with
  | nil => cases h
  | cons e m ih =>
    obtain ⟨k', v'⟩ := e
    rw [keys_cons, List.nodup_cons] at hm
    by_cases hk : k' = k
    · subst hk
      rw [get_cons_self] at h
      cases h
      rw [erase_cons_self, erase_of_get_eq_none (get_eq_none_iff.mpr hm.1)]
    · rw [get_cons_ne hk] at h
      rw [erase_cons_ne hk]
      exact ((ih hm.2 h).cons _).trans (List.Perm.swap _ _ _)

theorem nodup_modify (hm : (keys m).Nodup) (k : Name) (f : ν → ν) :
    (keys (modify m k f)).Nodup := by
  rw [keys_modify]
  exact hm

theorem get_modify_self (h : get m k = some v) (f : ν → ν) : get (modify m k f) k = some (f v) := by
  induction m with
  | nil => cases h
  | cons e m ih =>
    obtain ⟨k', v'⟩ := e
    rw [OrderedMap.modify]
    by_cases hk : k' = k
    · subst hk
      rw [get_cons_self] at h
      cases h
      rw [if_pos rfl, get_cons_self]
    · rw [get_cons_ne hk] at h
      rw [if_neg hk, get_cons_ne hk, ih h]

theorem erase_modify (m : List (Name × ν)) (k : Name) (f : ν → ν) :
    erase (modify m k f) k = erase m k := by
  induction m with
  | nil => rfl
  | cons e m ih =>
    obtain ⟨k', v'⟩ := e
    rw [OrderedMap.modify]
    by_cases hk : k' = k
    · subst hk
      rw [if_pos rfl, erase_cons_self, erase_cons_self]
    · rw [if_neg hk, erase_cons_ne hk, erase_cons_ne hk, ih]

/-- An entry after a value has changed. -/
theorem mem_modify (hm : (keys m).Nodup) (h : get m k = some v) {f : ν → ν} {e : Name × ν}
    (he : e ∈ modify m k f) : e = (k, f v) ∨ (e.1 ≠ k ∧ e ∈ m) := by
  have hperm := erase_perm (nodup_modify hm k f) (get_modify_self h f)
  rw [erase_modify] at hperm
  rcases List.mem_cons.mp (hperm.mem_iff.mp he) with rfl | he
  · exact .inl rfl
  · obtain ⟨hmem, hne⟩ := List.mem_filter.mp he
    exact .inr ⟨of_decide_eq_true hne, hmem⟩

theorem nodup_erase (hm : (keys m).Nodup) (k : Name) : (keys (erase m k)).Nodup := by
  rw [keys_erase]
  exact hm.filter _

theorem notMem_erase (m : List (Name × ν)) (k : Name) : k ∉ keys (erase m k) :=
  get_eq_none_iff.mp (get_erase_self m k)

end

/-! ## 6. The invariant -/

/-- What the cache knows about a file is what has happened. -/
structure Kept (maxDatasets : Int) (log : List Event) (e : Name × FileCacheEntry) : Prop where
  max : e.2.dsCache.maxOpenDatasets = maxDatasets
  nodup : (keys e.2.dsCache.map).Nodup
  datasets : keys e.2.dsCache.map = (recent (datasetUses e.1 log)).take maxDatasets.toNat
  fileId : lastFileId e.1 log = some e.2.fileId
  datasetId : ∀ d ∈ e.2.dsCache.map, lastDatasetId e.1 d.1 log = some d.2.datasetId

/-- The invariant of a cache that is not freed. -/
structure CacheInv (maxFiles maxDatasets : Int) (log : List Event) (fc : FileCache) : Prop where
  maxFiles_eq : fc.maxOpenFiles = maxFiles
  maxDatasets_eq : fc.maxOpenDatasets = maxDatasets
  nodup : (keys fc.map).Nodup
  length_le : fc.map.length ≤ maxFiles
  kept : ∀ e ∈ fc.map, Kept maxDatasets log e

/-- The files are the most recently used ones. -/
def FilesRecent (maxFiles : Int) (log : List Event) (fc : FileCache) : Prop :=
  keys fc.map = (recent (fileUses log)).take maxFiles.toNat

/-- Every handle is cached or has been closed. -/
def Accounted (s : Usage) : Prop :=
  s.opened.Nodup ∧ (s.closed ++ cachedHandles s.cache).Perm s.opened

variable {maxFiles maxDatasets : Int} {log : List Event} {fc : FileCache} {name : Name}
  {now opened : Int} {s : Usage}

/-- A later call for another file. -/
theorem Kept.fileElse {e : Name × FileCacheEntry} (h : Kept maxDatasets log e) (hne : name ≠ e.1)
    (fileId : Int) (isNew : Bool) : Kept maxDatasets (.file name fileId isNew :: log) e where
  max := h.max
  nodup := h.nodup
  datasets := by
    rw [datasetUses, if_neg fun hn => hne hn.1]
    exact h.datasets
  fileId := by
    rw [lastFileId, if_neg hne]
    exact h.fileId
  datasetId := by
    intro d hd
    rw [lastDatasetId, if_neg fun hn => hne hn.1]
    exact h.datasetId d hd

/-- A later call for a dataset of another file. -/
theorem Kept.datasetElse {e : Name × FileCacheEntry} (h : Kept maxDatasets log e) {file : Name}
    (hne : file ≠ e.1) (name : Name) (datasetId : Int) :
    Kept maxDatasets (.dataset file name datasetId :: log) e where
  max := h.max
  nodup := h.nodup
  datasets := by
    rw [datasetUses, if_neg hne]
    exact h.datasets
  fileId := h.fileId
  datasetId := by
    intro d hd
    rw [lastDatasetId, if_neg fun hn => hne hn.1]
    exact h.datasetId d hd

/-- A file that the cache has is opened again. -/
theorem Kept.hit {entry : FileCacheEntry} (h : Kept maxDatasets log (name, entry)) (now : Int) :
    Kept maxDatasets (.file name entry.fileId false :: log) (name, entry.access now) where
  max := h.max
  nodup := h.nodup
  datasets := by
    rw [datasetUses, if_neg fun hn => Bool.false_ne_true hn.2]
    exact h.datasets
  fileId := by
    rw [lastFileId, if_pos rfl]
    rfl
  datasetId := by
    intro d hd
    rw [lastDatasetId, if_neg fun hn => Bool.false_ne_true hn.2]
    exact h.datasetId d hd

/-- A file that `H5Fopen` has opened. -/
theorem Kept.new (maxDatasets : Int) (log : List Event) (name : Name) (fileId now : Int) :
    Kept maxDatasets (.file name fileId true :: log)
      (name, fileCacheEntryNew fileId now maxDatasets) where
  max := rfl
  nodup := List.nodup_nil
  datasets := by
    rw [datasetUses, if_pos ⟨rfl, rfl⟩]
    exact List.take_nil.symm
  fileId := by
    rw [lastFileId, if_pos rfl]
    rfl
  datasetId := fun d hd => by cases hd

/-- What `file_cache_open_file` does with a file that the cache has. -/
theorem fileCacheOpenFile_hit {entry : FileCacheEntry} (h : get fc.map name = some entry)
    (now opened : Int) :
    fileCacheOpenFile fc name now opened = some
      { cache := { fc with
          map := (name, entry.access now) :: erase fc.map name
          nrCacheHits := fc.nrCacheHits + 1 }
        entry := some (entry.access now)
        closed := [] } := by
  simp only [fileCacheOpenFile, h, makeHead_of_get h, Option.map_some, OrderedMap.modify, if_true]

/-- What `file_cache_open_file` does with a file that `H5Fopen` opens. -/
theorem fileCacheOpenFile_new (hmax : 1 ≤ fc.maxOpenFiles) (h : get fc.map name = none)
    (now : Int) (hopened : 0 ≤ opened) :
    fileCacheOpenFile fc name now opened = some
      { cache := { fc with
          map := (name, fileCacheEntryNew opened now fc.maxOpenDatasets) ::
            (evict fc.maxOpenFiles fc.map).1
          nrCacheMisses := fc.nrCacheMisses + 1 }
        entry := some (fileCacheEntryNew opened now fc.maxOpenDatasets)
        closed := (evict fc.maxOpenFiles fc.map).2 } := by
  have hkept : get (evict fc.maxOpenFiles fc.map).1 name = none := by
    rw [evict_map hmax]
    exact get_take_eq_none h _
  simp only [fileCacheOpenFile, h, if_neg (Int.not_lt.mpr hopened), if_neg (not_not.mpr hmax),
    addHead_of_get hkept, Option.map_some]

theorem fileCacheOpenFile_failed (h : get fc.map name = none) (now : Int) (hopened : opened < 0) :
    fileCacheOpenFile fc name now opened = some { cache := fc, entry := none, closed := [] } := by
  simp only [fileCacheOpenFile, h, if_pos hopened]

theorem datasetCacheOpenDataset_hit {c : DatasetCache} {entry : DatasetCacheEntry}
    (h : get c.map name = some entry) (opened : Int) :
    datasetCacheOpenDataset c name opened = some
      { cache := { c with map := (name, entry) :: erase c.map name }
        datasetId := entry.datasetId
        closed := [] } := by
  simp only [datasetCacheOpenDataset, h, makeHead_of_get h, Option.map_some]

theorem datasetCacheOpenDataset_new {c : DatasetCache} (hmax : 1 ≤ c.maxOpenDatasets)
    (h : get c.map name = none) (hopened : 0 ≤ opened) :
    datasetCacheOpenDataset c name opened = some
      { cache := { c with
          map := (name, { datasetId := opened }) :: (evict c.maxOpenDatasets c.map).1 }
        datasetId := opened
        closed := (evict c.maxOpenDatasets c.map).2 } := by
  have hkept : get (evict c.maxOpenDatasets c.map).1 name = none := by
    rw [evict_map hmax]
    exact get_take_eq_none h _
  simp only [datasetCacheOpenDataset, h, if_neg (Int.not_lt.mpr hopened),
    if_neg (not_not.mpr hmax), addHead_of_get hkept, Option.map_some]

theorem datasetCacheOpenDataset_failed {c : DatasetCache} (h : get c.map name = none)
    (hopened : opened < 0) :
    datasetCacheOpenDataset c name opened =
      some { cache := c, datasetId := opened, closed := [] } := by
  simp only [datasetCacheOpenDataset, h, if_pos hopened]

/-- `file_cache_open_dataset` for a file that the cache has. -/
theorem fileCacheOpenDataset_eq {fileName : Name} {file : FileCacheEntry} {r : DatasetOpened}
    (hfile : get fc.map fileName = some file)
    (hr : datasetCacheOpenDataset file.dsCache name opened = some r) :
    fileCacheOpenDataset fc fileName name opened =
      some (fc.setDatasets fileName r.cache, r.datasetId, r.closed) := by
  rw [fileCacheOpenDataset, hfile]
  dsimp only
  rw [hr, Option.map_some]

/-! ## 7. The most recent names -/

/-- A name that is there moves to the front. -/
theorem keys_hit {ν : Type} {m : List (Name × ν)} {uses : List Name} {max : Int} (hmax : 1 ≤ max)
    (h : keys m = (recent uses).take max.toNat) (hname : name ∈ keys m) :
    name :: keys (erase m name) = (recent (name :: uses)).take max.toNat := by
  obtain ⟨n, hn⟩ : ∃ n, max.toNat = n + 1 := ⟨max.toNat - 1, by omega⟩
  rw [hn] at h ⊢
  rw [h] at hname
  rw [keys_erase, h]
  exact take_recent_hit hname

/-- A name that is new comes to the front, and the last one makes room. -/
theorem keys_miss {ν : Type} {m : List (Name × ν)} {uses : List Name} {max : Int} (hmax : 1 ≤ max)
    (h : keys m = (recent uses).take max.toNat) (hname : name ∉ keys m) :
    name :: keys (evict max m).1 = (recent (name :: uses)).take max.toNat := by
  rw [evict_map hmax, keys_take]
  obtain ⟨n, hn⟩ : ∃ n, max.toNat = n + 1 := ⟨max.toNat - 1, by omega⟩
  rw [hn] at h ⊢
  rw [h] at hname
  rw [h, Nat.add_sub_cancel]
  exact take_recent_miss hname

/-- The entries that are kept. -/
theorem mem_of_mem_evict {ν : Type} {max : Int} (hmax : 1 ≤ max) {m : List (Name × ν)}
    {e : Name × ν} (h : e ∈ (evict max m).1) : e ∈ m := by
  rw [evict_map hmax] at h
  exact List.mem_of_mem_take h

theorem length_evict_lt {ν : Type} {max : Int} (hmax : 1 ≤ max) (m : List (Name × ν)) :
    ((evict max m).1.length : Int) < max := by
  rw [evict_map hmax, List.length_take]
  omega

theorem nodup_evict {ν : Type} {max : Int} (hmax : 1 ≤ max) {m : List (Name × ν)}
    (hm : (keys m).Nodup) : (keys (evict max m).1).Nodup := by
  rw [evict_map hmax, keys_take]
  exact hm.sublist (List.take_sublist _ _)

theorem notMem_evict {ν : Type} {max : Int} (hmax : 1 ≤ max) {m : List (Name × ν)}
    (h : name ∉ keys m) : name ∉ keys (evict max m).1 := by
  rw [evict_map hmax, keys_take]
  exact fun hmem => h (List.mem_of_mem_take hmem)

theorem ne_of_mem_erase {ν : Type} {m : List (Name × ν)} {e : Name × ν} (h : e ∈ erase m name) :
    name ≠ e.1 ∧ e ∈ m := by
  obtain ⟨hmem, hne⟩ := List.mem_filter.mp h
  exact ⟨fun hn => of_decide_eq_true hne hn.symm, hmem⟩

theorem ne_of_notMem {ν : Type} {m : List (Name × ν)} (h : name ∉ keys m) {e : Name × ν}
    (he : e ∈ m) : name ≠ e.1 := fun hn => h (hn ▸ List.mem_map_of_mem he)

/-! ## 8. The steps -/

/-- The invariant. -/
structure Good (maxFiles maxDatasets : Int) (s : Usage) : Prop where
  inv : ∀ fc, s.cache = some fc → CacheInv maxFiles maxDatasets s.log fc
  accounted : Accounted s

/-- Without expiry. -/
def Recent (maxFiles : Int) (s : Usage) : Prop :=
  ∀ fc, s.cache = some fc → FilesRecent maxFiles s.log fc

/-- **A file is opened.** -/
theorem Good.openFile (hmax : 1 ≤ maxFiles) (h : Good maxFiles maxDatasets s)
    (hs : s.cache = some fc) {s' : Usage} (hr : s.openFile fc name now opened = some s') :
    Good maxFiles maxDatasets s' ∧ (Recent maxFiles s → Recent maxFiles s') := by
  have hinv := h.inv fc hs
  obtain ⟨hnodup, hperm⟩ := h.accounted
  have hmax' : 1 ≤ fc.maxOpenFiles := by rw [hinv.maxFiles_eq]; exact hmax
  rw [Usage.openFile] at hr
  split at hr
  · cases hr
  rename_i hfresh
  rcases hget : get fc.map name with _ | entry
  · have hnone : name ∉ keys fc.map := get_eq_none_iff.mp hget
    rw [hget] at hr hfresh
    by_cases hfail : opened < 0
    · -- `H5Fopen` fails
      rw [fileCacheOpenFile_failed hget now hfail] at hr
      cases hr
      refine ⟨⟨fun fc' hfc => ?_, hnodup, ?_⟩, fun hrecent fc' hfc => ?_⟩
      · cases hfc
        exact hinv
      · rw [hs] at hperm
        exact hperm
      · cases hfc
        exact hrecent fc hs
    · rw [fileCacheOpenFile_new hmax' hget now (Int.not_lt.mp hfail)] at hr
      cases hr
      have hnew : opened ∉ s.opened := fun hmem => hfresh ⟨rfl, hmem⟩
      refine ⟨⟨fun fc' hfc => ?_, ?_, ?_⟩, fun hrecent fc' hfc => ?_⟩
      · cases hfc
        refine ⟨hinv.maxFiles_eq, hinv.maxDatasets_eq, ?_, ?_, ?_⟩
        · exact List.nodup_cons.mpr ⟨notMem_evict hmax' hnone, nodup_evict hmax' hinv.nodup⟩
        · have hlen := length_evict_lt hmax' fc.map
          rw [hinv.maxFiles_eq] at hlen
          rw [List.length_cons, hinv.maxFiles_eq]
          omega
        · refine List.forall_mem_cons.mpr ⟨?_, fun e he => ?_⟩
          · rw [hinv.maxDatasets_eq]
            exact Kept.new maxDatasets s.log name opened now
          · have hmem := mem_of_mem_evict hmax' he
            exact (hinv.kept e hmem).fileElse (ne_of_notMem hnone hmem) opened true
      · exact List.nodup_append.mpr ⟨hnodup, List.nodup_singleton _, fun a ha b hb => by
          rw [List.mem_singleton.mp hb]
          exact fun hab => hnew (hab ▸ ha)⟩
      · have hevicted := removed_perm (evict_entries fc.maxOpenFiles fc.map) closeEntry_perm
        rw [hs, cachedHandles] at hperm
        dsimp only
        rw [Option.isNone_none, if_pos rfl, cachedHandles, List.flatMap_cons]
        have hall := (List.Perm.append_left s.closed hevicted).trans hperm
        rw [← List.append_assoc] at hall
        exact List.perm_middle.trans
          (List.perm_append_comm.trans (List.Perm.append_right [opened] hall))
      · cases hfc
        have hkeys := hrecent fc hs
        rw [FilesRecent, ← hinv.maxFiles_eq] at hkeys
        rw [FilesRecent, ← hinv.maxFiles_eq]
        exact keys_miss hmax' hkeys hnone
  · have hmem : name ∈ keys fc.map := get_isSome_iff.mp (by rw [hget]; rfl)
    rw [hget, fileCacheOpenFile_hit hget] at hr
    cases hr
    refine ⟨⟨fun fc' hfc => ?_, hnodup, ?_⟩, fun hrecent fc' hfc => ?_⟩
    · cases hfc
      refine ⟨hinv.maxFiles_eq, hinv.maxDatasets_eq, ?_, ?_, ?_⟩
      · exact List.nodup_cons.mpr ⟨notMem_erase fc.map name, nodup_erase hinv.nodup name⟩
      · have hlen := (erase_perm hinv.nodup hget).length_eq
        rw [List.length_cons] at hlen ⊢
        rw [← hlen]
        exact hinv.length_le
      · refine List.forall_mem_cons.mpr ⟨?_, fun e he => ?_⟩
        · exact (hinv.kept (name, entry) (mem_of_get hget)).hit now
        · obtain ⟨hne, hold⟩ := ne_of_mem_erase he
          exact (hinv.kept e hold).fileElse hne entry.fileId false
    · have hentries := (erase_perm hinv.nodup hget).flatMap_right fun e => entryHandles e.2
      rw [hs, cachedHandles] at hperm
      dsimp only
      rw [cachedHandles, List.flatMap_nil, List.append_nil]
      exact (List.Perm.append_left _ hentries.symm).trans hperm
    · cases hfc
      exact keys_hit hmax (hrecent fc hs) hmem

/-- A file whose dataset cache has changed. -/
theorem CacheInv.setDatasets {fileName : Name} {file : FileCacheEntry} {log' : List Event}
    (hinv : CacheInv maxFiles maxDatasets log fc) (hfile : get fc.map fileName = some file)
    {dsCache : DatasetCache}
    (hother : ∀ e ∈ fc.map, fileName ≠ e.1 → Kept maxDatasets log' e)
    (hkept : Kept maxDatasets log' (fileName, file.setDatasets dsCache)) :
    CacheInv maxFiles maxDatasets log' (fc.setDatasets fileName dsCache) where
  maxFiles_eq := hinv.maxFiles_eq
  maxDatasets_eq := hinv.maxDatasets_eq
  nodup := nodup_modify hinv.nodup _ _
  length_le := by
    have hlen := congrArg List.length
      (keys_modify fc.map fileName fun entry => entry.setDatasets dsCache)
    rw [keys, keys, List.length_map, List.length_map] at hlen
    rw [FileCache.setDatasets, hlen]
    exact hinv.length_le
  kept := by
    intro e he
    rcases mem_modify hinv.nodup hfile he with rfl | ⟨hne, hmem⟩
    · exact hkept
    · exact hother e hmem hne.symm

/-- The handles of a cache with another dataset cache in one file. -/
theorem cachedHandles_setDatasets {fileName : Name} {file : FileCacheEntry}
    (hm : (keys fc.map).Nodup) (hfile : get fc.map fileName = some file)
    (dsCache : DatasetCache) :
    ∃ rest, (cachedHandles (some fc)).Perm (datasetHandles file.dsCache ++ rest) ∧
      (cachedHandles (some (fc.setDatasets fileName dsCache))).Perm
        (datasetHandles dsCache ++ rest) := by
  have hold := (erase_perm hm hfile).flatMap_right fun e => entryHandles e.2
  have hnew := (erase_perm (nodup_modify hm fileName fun entry => entry.setDatasets dsCache)
    (get_modify_self hfile _)).flatMap_right fun e => entryHandles e.2
  rw [erase_modify, List.flatMap_cons, entryHandles, List.cons_append] at hnew
  rw [List.flatMap_cons, entryHandles, List.cons_append] at hold
  exact ⟨file.fileId :: (erase fc.map fileName).flatMap fun e => entryHandles e.2,
    hold.trans List.perm_middle.symm, hnew.trans List.perm_middle.symm⟩

/-- **A dataset is opened.** -/
theorem Good.openDataset (hmax : 1 ≤ maxDatasets) (h : Good maxFiles maxDatasets s)
    (hs : s.cache = some fc) {s' : Usage} (hr : s.openDataset fc name opened = some s') :
    Good maxFiles maxDatasets s' ∧ (Recent maxFiles s → Recent maxFiles s') := by
  have hinv := h.inv fc hs
  obtain ⟨hnodup, hperm⟩ := h.accounted
  rw [hs] at hperm
  rw [Usage.openDataset] at hr
  rcases hlast : s.last with _ | fileName
  · rw [hlast] at hr
    cases hr
  rw [hlast] at hr
  dsimp only at hr
  rcases hfile : get fc.map fileName with _ | file
  · rw [hfile] at hr
    cases hr
  rw [hfile] at hr
  dsimp only at hr
  split at hr
  · cases hr
  rename_i hfresh
  have hkept := hinv.kept (fileName, file) (mem_of_get hfile)
  have hmax' : 1 ≤ file.dsCache.maxOpenDatasets := by rw [hkept.max]; exact hmax
  -- the names of the files stay as they are
  have hnames : ∀ (dsCache : DatasetCache), Recent maxFiles s →
      FilesRecent maxFiles s.log (fc.setDatasets fileName dsCache) := by
    intro dsCache hrecent
    rw [FilesRecent, FileCache.setDatasets, keys_modify]
    exact hrecent fc hs
  rcases hget : get file.dsCache.map name with _ | entry
  · have hnone : name ∉ keys file.dsCache.map := get_eq_none_iff.mp hget
    rw [hget] at hr hfresh
    by_cases hfail : opened < 0
    · -- `H5Dopen` fails
      rw [fileCacheOpenDataset_eq hfile (datasetCacheOpenDataset_failed hget hfail),
        Option.map_some, if_pos ⟨rfl, hfail⟩] at hr
      cases hr
      obtain ⟨rest, hold, hnew⟩ := cachedHandles_setDatasets hinv.nodup hfile file.dsCache
      refine ⟨⟨fun fc' hfc => ?_, hnodup, ?_⟩, fun hrecent fc' hfc => ?_⟩
      · cases hfc
        exact hinv.setDatasets hfile (fun e he _ => hinv.kept e he)
          ⟨hkept.max, hkept.nodup, hkept.datasets, hkept.fileId, hkept.datasetId⟩
      · exact (List.Perm.append_left _ (hnew.trans hold.symm)).trans hperm
      · cases hfc
        exact hnames file.dsCache hrecent
    · have hopened := datasetCacheOpenDataset_new hmax' hget (Int.not_lt.mp hfail)
      rw [fileCacheOpenDataset_eq hfile hopened, Option.map_some,
        if_neg fun hn => hfail hn.2] at hr
      cases hr
      have hnew : opened ∉ s.opened := fun hmem => hfresh ⟨rfl, hmem⟩
      refine ⟨⟨fun fc' hfc => ?_, ?_, ?_⟩, fun hrecent fc' hfc => ?_⟩
      · cases hfc
        refine hinv.setDatasets hfile
          (fun e he hne => (hinv.kept e he).datasetElse hne name opened) ⟨hkept.max, ?_, ?_, ?_, ?_⟩
        · exact List.nodup_cons.mpr ⟨notMem_evict hmax' hnone, nodup_evict hmax' hkept.nodup⟩
        · have hkeys := hkept.datasets
          rw [← hkept.max] at hkeys
          rw [datasetUses, if_pos rfl, ← hkept.max]
          exact keys_miss hmax' hkeys hnone
        · exact hkept.fileId
        · refine List.forall_mem_cons.mpr ⟨?_, fun d hd => ?_⟩
          · rw [lastDatasetId, if_pos ⟨rfl, rfl⟩]
          · have hmem := mem_of_mem_evict hmax' hd
            rw [lastDatasetId, if_neg fun hn => ne_of_notMem hnone hmem hn.2]
            exact hkept.datasetId d hmem
      · exact List.nodup_append.mpr ⟨hnodup, List.nodup_singleton _, fun a ha b hb => by
          rw [List.mem_singleton.mp hb]
          exact fun hab => hnew (hab ▸ ha)⟩
      · obtain ⟨rest, hold, hnew⟩ := cachedHandles_setDatasets hinv.nodup hfile
          { file.dsCache with
            map := (name, { datasetId := opened }) ::
              (evict file.dsCache.maxOpenDatasets file.dsCache.map).1 }
        have hevicted := removed_perm (g := fun e => [e.datasetId])
          (evict_entries file.dsCache.maxOpenDatasets file.dsCache.map)
          fun _ => List.Perm.refl _
        rw [← List.map_eq_flatMap, ← List.map_eq_flatMap, ← List.map_eq_flatMap] at hevicted
        have hall := (List.Perm.append_left s.closed
          ((List.Perm.append_right rest hevicted).trans hold.symm)).trans hperm
        rw [List.append_assoc, ← List.append_assoc s.closed] at hall
        dsimp only
        rw [Option.isNone_none, if_pos rfl]
        refine (List.Perm.append_left _ hnew).trans ?_
        exact List.perm_middle.trans
          (List.perm_append_comm.trans (List.Perm.append_right [opened] hall))
      · cases hfc
        exact hnames _ hrecent
  · have hmem : name ∈ keys file.dsCache.map := get_isSome_iff.mp (by rw [hget]; rfl)
    rw [hget, fileCacheOpenDataset_eq hfile (datasetCacheOpenDataset_hit hget opened),
      Option.map_some, if_neg fun hn => by cases hn.1] at hr
    cases hr
    refine ⟨⟨fun fc' hfc => ?_, hnodup, ?_⟩, fun hrecent fc' hfc => ?_⟩
    · cases hfc
      refine hinv.setDatasets hfile
        (fun e he hne => (hinv.kept e he).datasetElse hne name entry.datasetId)
        ⟨hkept.max, ?_, ?_, ?_, ?_⟩
      · exact List.nodup_cons.mpr ⟨notMem_erase _ name, nodup_erase hkept.nodup name⟩
      · rw [datasetUses, if_pos rfl]
        exact keys_hit hmax hkept.datasets hmem
      · exact hkept.fileId
      · refine List.forall_mem_cons.mpr ⟨?_, fun d hd => ?_⟩
        · rw [lastDatasetId, if_pos ⟨rfl, rfl⟩]
        · obtain ⟨hne, hold⟩ := ne_of_mem_erase hd
          rw [lastDatasetId, if_neg fun hn => hne hn.2]
          exact hkept.datasetId d hold
    · obtain ⟨rest, hold, hnew⟩ := cachedHandles_setDatasets hinv.nodup hfile
        { file.dsCache with map := (name, entry) :: erase file.dsCache.map name }
      have hentries := (erase_perm hkept.nodup hget).map fun e => e.2.datasetId
      have hsame := (hnew.trans (List.Perm.append_right rest hentries.symm)).trans hold.symm
      dsimp only
      rw [if_neg fun hn => (by cases hn), FileCache.setDatasets, List.map_nil, List.append_nil]
      exact (List.Perm.append_left _ hsame).trans hperm
    · cases hfc
      exact hnames _ hrecent

/-- **Files expire.** -/
theorem Good.expire (h : Good maxFiles maxDatasets s) (hs : s.cache = some fc) (maxAge now : Int) :
    Good maxFiles maxDatasets
      { s with
        cache := some (fileCacheExpireEntries fc maxAge now).1
        closed := s.closed ++ (fileCacheExpireEntries fc maxAge now).2.flatMap closeEntry } := by
  have hinv := h.inv fc hs
  obtain ⟨hnodup, hperm⟩ := h.accounted
  rw [hs] at hperm
  rw [fileCacheExpireEntries]
  split
  · -- nothing expires
    rw [List.flatMap_nil, List.append_nil, ← hs]
    exact h
  · refine ⟨fun fc' hfc => ?_, hnodup, ?_⟩
    · cases hfc
      dsimp only
      rw [removeTails_map]
      refine ⟨hinv.maxFiles_eq, hinv.maxDatasets_eq, ?_, ?_, ?_⟩
      · rw [keys_take]
        exact hinv.nodup.sublist (List.take_sublist _ _)
      · have hle := hinv.length_le
        rw [List.length_take]
        omega
      · exact fun e he => hinv.kept e (List.mem_of_mem_take he)
    · have hremoved := removed_perm (removeTails_entries
        (fc.map.countP fun e => e.2.lastAccessed + maxAge < now) fc.map) closeEntry_perm
      dsimp only
      rw [cachedHandles, List.append_assoc]
      exact (List.Perm.append_left s.closed hremoved).trans hperm

/-- **The cache is freed.** -/
theorem Good.free (h : Good maxFiles maxDatasets s) (hs : s.cache = some fc) :
    Good maxFiles maxDatasets { s with cache := none, closed := s.closed ++ fileCacheFree fc } where
  inv := fun fc' hfc => by cases hfc
  accounted := by
    obtain ⟨hnodup, hperm⟩ := h.accounted
    rw [hs] at hperm
    refine ⟨hnodup, ?_⟩
    dsimp only
    rw [cachedHandles, List.append_nil]
    exact (List.Perm.append_left s.closed (fileCacheFree_perm fc)).trans hperm

/-! ## 9. Runs -/

theorem Good.exec (hfiles : 1 ≤ maxFiles) (hdatasets : 1 ≤ maxDatasets)
    (h : Good maxFiles maxDatasets s) {call : Call} {s' : Usage} (hr : s.exec call = some s') :
    Good maxFiles maxDatasets s' ∧
      (call.isExpire = false → Recent maxFiles s → Recent maxFiles s') := by
  rw [Usage.exec] at hr
  rcases hs : s.cache with _ | fc
  · rw [hs] at hr
    cases hr
  rw [hs] at hr
  cases call with
  | openFile name now h5Fopen =>
    have hstep := h.openFile hfiles hs hr
    exact ⟨hstep.1, fun _ => hstep.2⟩
  | openDataset name h5Dopen =>
    have hstep := h.openDataset hdatasets hs hr
    exact ⟨hstep.1, fun _ => hstep.2⟩
  | expire maxAge now =>
    cases hr
    exact ⟨h.expire hs maxAge now, fun hexpire => by cases hexpire⟩
  | free =>
    cases hr
    exact ⟨h.free hs, fun _ _ fc' hfc => by cases hfc⟩

theorem Good.init (hfiles : 1 ≤ maxFiles) :
    Good maxFiles maxDatasets (usageMachine maxFiles maxDatasets).init where
  inv := by
    intro fc hfc
    cases hfc
    refine ⟨rfl, rfl, List.nodup_nil, ?_, fun e he => by cases he⟩
    exact Int.le_trans Int.one_nonneg hfiles
  accounted := ⟨List.nodup_nil, List.Perm.nil⟩

/-- The invariant, after every run. -/
theorem good_of_run (hfiles : 1 ≤ maxFiles) (hdatasets : 1 ≤ maxDatasets) {calls : List Call}
    (h : (usageMachine maxFiles maxDatasets).run calls = some s) :
    Good maxFiles maxDatasets s ∧
      ((∀ call ∈ calls, call.isExpire = false) → Recent maxFiles s) := by
  refine (usageMachine maxFiles maxDatasets).run_induction
    (I := fun calls s => Good maxFiles maxDatasets s ∧
      ((∀ call ∈ calls, call.isExpire = false) → Recent maxFiles s)) ?_ ?_ calls s h
  · refine ⟨Good.init hfiles, fun _ fc hfc => ?_⟩
    cases hfc
    exact List.take_nil.symm
  · intro calls s call s' _ hinv hstep
    obtain ⟨hgood, hrecent⟩ := Good.exec hfiles hdatasets hinv.1 hstep
    refine ⟨hgood, fun hexpire => hrecent (hexpire call ?_) (hinv.2 fun c hc => hexpire c ?_)⟩
    · exact List.mem_append_right _ (List.mem_singleton_self call)
    · exact List.mem_append_left _ hc

/-! ## 10. The claim on every run -/

/-- What holds after a sequence of calls, of a cache that is not freed. -/
structure IsLru (maxFiles maxDatasets : Int) (calls : List Call) (log : List Event)
    (fc : FileCache) : Prop where
  files_le : fc.map.length ≤ maxFiles
  datasets_le : ∀ e ∈ fc.map, e.2.dsCache.map.length ≤ maxDatasets
  /-- The files are the most recently used ones, and these are in this order. -/
  files : (∀ call ∈ calls, call.isExpire = false) →
    keys fc.map = (recent (fileUses log)).take maxFiles.toNat
  datasets : ∀ e ∈ fc.map,
    keys e.2.dsCache.map = (recent (datasetUses e.1 log)).take maxDatasets.toNat
  /-- A cached file has the handle it had before. -/
  sameFile : ∀ name ∈ keys fc.map, ∀ now h5Fopen, ∃ r entry,
    fileCacheOpenFile fc name now h5Fopen = some r ∧ r.entry = some entry ∧
      lastFileId name log = some entry.fileId
  /-- A cached dataset has the handle it had before. -/
  sameDataset : ∀ e ∈ fc.map, ∀ name ∈ keys e.2.dsCache.map, ∀ h5Dopen, ∃ r,
    fileCacheOpenDataset fc e.1 name h5Dopen = some r ∧
      lastDatasetId e.1 name log = some r.2.1
  /-- A file that cannot be opened. -/
  failedFile : ∀ name ∉ keys fc.map, ∀ now h5Fopen, h5Fopen < 0 →
    fileCacheOpenFile fc name now h5Fopen = some { cache := fc, entry := none, closed := [] }
  /-- A dataset that cannot be opened. -/
  failedDataset : ∀ e ∈ fc.map, ∀ name ∉ keys e.2.dsCache.map, ∀ h5Dopen, h5Dopen < 0 →
    fileCacheOpenDataset fc e.1 name h5Dopen = some (fc, h5Dopen, [])
  /-- A file that can be opened. -/
  newFile : ∀ name ∉ keys fc.map, ∀ now h5Fopen, 0 ≤ h5Fopen → ∃ r entry,
    fileCacheOpenFile fc name now h5Fopen = some r ∧ r.entry = some entry ∧
      entry.fileId = h5Fopen
  /-- A dataset that can be opened. -/
  newDataset : ∀ e ∈ fc.map, ∀ name ∉ keys e.2.dsCache.map, ∀ h5Dopen, 0 ≤ h5Dopen → ∃ r,
    fileCacheOpenDataset fc e.1 name h5Dopen = some r ∧ r.2.1 = h5Dopen

/-- What holds after a sequence of calls. -/
structure LruCache (maxFiles maxDatasets : Int) (calls : List Call) (s : Usage) : Prop where
  isLru : ∀ fc, s.cache = some fc → IsLru maxFiles maxDatasets calls s.log fc
  /-- No handle is opened twice. -/
  opened : s.opened.Nodup
  /-- The handles that were opened are those closed and those cached. -/
  accounted : (s.closed ++ cachedHandles s.cache).Perm s.opened
  /-- No handle is closed twice, and none is cached that is closed. -/
  disjoint : (s.closed ++ cachedHandles s.cache).Nodup
  /-- No handle is left. -/
  freed : s.cache = none → s.closed.Perm s.opened

theorem modify_of_eq {ν : Type} {m : List (Name × ν)} {k : Name} {v : ν} (h : get m k = some v)
    {f : ν → ν} (hf : f v = v) : modify m k f = m := by
  induction m with
  | nil => rfl
  | cons e m ih =>
    obtain ⟨k', v'⟩ := e
    rw [OrderedMap.modify]
    by_cases hk : k' = k
    · subst hk
      rw [get_cons_self] at h
      cases h
      rw [if_pos rfl, hf]
    · rw [get_cons_ne hk] at h
      rw [if_neg hk, ih h]

/-- A cache with the invariant. -/
theorem CacheInv.isLru (hfiles : 1 ≤ maxFiles) (hdatasets : 1 ≤ maxDatasets) {calls : List Call}
    (h : CacheInv maxFiles maxDatasets log fc)
    (hrecent : (∀ call ∈ calls, call.isExpire = false) → FilesRecent maxFiles log fc) :
    IsLru maxFiles maxDatasets calls log fc where
  files_le := h.length_le
  datasets_le := by
    intro e he
    have hlen := congrArg List.length (h.kept e he).datasets
    rw [keys, List.length_map, List.length_take] at hlen
    omega
  files := hrecent
  datasets := fun e he => (h.kept e he).datasets
  sameFile := by
    intro name hname now h5Fopen
    obtain ⟨entry, hget⟩ := Option.isSome_iff_exists.mp (get_isSome_iff.mpr hname)
    exact ⟨_, _, fileCacheOpenFile_hit hget now h5Fopen, rfl,
      (h.kept (name, entry) (mem_of_get hget)).fileId⟩
  sameDataset := by
    intro e he name hname h5Dopen
    obtain ⟨entry, hget⟩ := Option.isSome_iff_exists.mp (get_isSome_iff.mpr hname)
    exact ⟨_, fileCacheOpenDataset_eq (get_of_mem h.nodup he)
      (datasetCacheOpenDataset_hit hget h5Dopen),
      (h.kept e he).datasetId (name, entry) (mem_of_get hget)⟩
  failedFile := fun name hname now h5Fopen hfail =>
    fileCacheOpenFile_failed (get_eq_none_iff.mpr hname) now hfail
  failedDataset := by
    intro e he name hname h5Dopen hfail
    have hget := get_of_mem h.nodup he
    have hfailed := datasetCacheOpenDataset_failed (get_eq_none_iff.mpr hname) hfail
    rw [fileCacheOpenDataset_eq hget hfailed, FileCache.setDatasets, modify_of_eq hget rfl]
  newFile := by
    intro name hname now h5Fopen hopened
    have hmax : 1 ≤ fc.maxOpenFiles := by rw [h.maxFiles_eq]; exact hfiles
    exact ⟨_, _, fileCacheOpenFile_new hmax (get_eq_none_iff.mpr hname) now hopened, rfl, rfl⟩
  newDataset := by
    intro e he name hname h5Dopen hopened
    have hmax : 1 ≤ e.2.dsCache.maxOpenDatasets := by
      rw [(h.kept e he).max]
      exact hdatasets
    exact ⟨_, fileCacheOpenDataset_eq (get_of_mem h.nodup he)
      (datasetCacheOpenDataset_new hmax (get_eq_none_iff.mpr hname) hopened), rfl⟩

/-- **The caches are exact LRU caches, and no handle leaks or is closed twice.** -/
theorem fileCache_lru (hfiles : 1 ≤ maxFiles) (hdatasets : 1 ≤ maxDatasets) {calls : List Call}
    (h : (usageMachine maxFiles maxDatasets).run calls = some s) :
    LruCache maxFiles maxDatasets calls s := by
  obtain ⟨hgood, hrecent⟩ := good_of_run hfiles hdatasets h
  obtain ⟨hnodup, hperm⟩ := hgood.accounted
  refine ⟨fun fc hfc => ?_, hnodup, hperm, hperm.symm.nodup hnodup, fun hnone => ?_⟩
  · exact (hgood.inv fc hfc).isLru hfiles hdatasets fun hexpire => hrecent hexpire fc hfc
  · rw [hnone, cachedHandles, List.append_nil] at hperm
    exact hperm

/-- Room for two files and one dataset each: the third file makes the first one close, with its
dataset. -/
def threeFiles : List Call :=
  [ .openFile [1] 10 3, .openDataset [7] 4, .openDataset [8] 5, .openFile [2] 10 6,
    .openFile [3] 11 (-1), .openFile [3] 12 7, .openFile [2] 13 8, .free ]

theorem fileCache_lru_threeFiles :
    ∃ s, (usageMachine 2 1).run threeFiles = some s ∧ s.closed = [4, 3, 5, 7, 6] ∧
      LruCache 2 1 threeFiles s := by
  have hrun : ((usageMachine 2 1).run threeFiles).map (fun s => s.closed) =
      some [4, 3, 5, 7, 6] := by decide +kernel
  obtain ⟨s, hs, hclosed⟩ := Option.map_eq_some_iff.mp hrun
  exact ⟨s, hs, hclosed, fileCache_lru (by decide) (by decide) hs⟩

end HdfStream.Cache
