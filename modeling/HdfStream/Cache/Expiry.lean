/-
# Expiry closes exactly the old files

`file_cache_expire_entries` counts the expired entries wherever they are, and then removes so many
at the tail.  These are the same entries because the list is in the order of the last access, the
newest one first (`NewestFirst`): a hit takes the time and moves its entry to the head, a new entry
has the time and is added at the head, and all other operations only remove entries.  What the
order needs is a clock that does not go back.

`fileCache_expiry` says this of every run, and of what is closed and what is left.
-/
import HdfStream.Cache.Handles

namespace HdfStream.Cache

open LinkedMap OrderedMap

/-! ## 1. Calls at the times of a clock -/

/-- A cache, and the last time that was read. -/
structure Clocked where
  cache : FileCache
  clock : Int

/-- A call, with what `H5Fopen` or `H5Dopen` returns if it is called. -/
inductive TimedCall where
  | openFile (name : Name) (now h5Fopen : Int)
  /-- For the entry of any file in the cache. -/
  | openDataset (fileName name : Name) (h5Dopen : Int)
  | expire (maxAge now : Int)

/-- The step function; the time that a call reads is not before the last one. -/
def Clocked.exec (s : Clocked) : TimedCall → Option Clocked
  | .openFile name now h5Fopen =>
    if now < s.clock then none
    else
      (fileCacheOpenFile s.cache name now h5Fopen).map fun r => { cache := r.cache, clock := now }
  | .openDataset fileName name h5Dopen =>
    (fileCacheOpenDataset s.cache fileName name h5Dopen).map fun r => { s with cache := r.1 }
  | .expire maxAge now =>
    if now < s.clock then none
    else some { cache := (fileCacheExpireEntries s.cache maxAge now).1, clock := now }

/-- A cache from `file_cache_new` on. -/
def clockMachine (maxOpenFiles maxOpenDatasets start : Int) : Machine Clocked TimedCall where
  init := { cache := fileCacheNew maxOpenFiles maxOpenDatasets, clock := start }
  exec := Clocked.exec

/-! ## 2. The order -/

/-- The times of the last access, from head to tail. -/
def times (m : List (Name × FileCacheEntry)) : List Int := m.map fun e => e.2.lastAccessed

/-- The entries from head to tail, by the time of their last access. -/
def NewestFirst (m : List (Name × FileCacheEntry)) : Prop :=
  m.Pairwise fun e e' => e'.2.lastAccessed ≤ e.2.lastAccessed

/-- No entry was accessed after this time. -/
def AccessedBy (now : Int) (m : List (Name × FileCacheEntry)) : Prop :=
  ∀ e ∈ m, e.2.lastAccessed ≤ now

variable {m : List (Name × FileCacheEntry)} {fc : FileCache} {name : Name} {now opened : Int}
  {s : Clocked}

theorem NewestFirst.cons (hm : NewestFirst m) (hnow : AccessedBy now m) (name : Name)
    {entry : FileCacheEntry} (hentry : entry.lastAccessed = now) :
    NewestFirst ((name, entry) :: m) := by
  refine List.pairwise_cons.mpr ⟨fun e he => ?_, hm⟩
  rw [hentry]
  exact hnow e he

theorem AccessedBy.cons (hm : AccessedBy now m) (name : Name) {entry : FileCacheEntry}
    (hentry : entry.lastAccessed = now) : AccessedBy now ((name, entry) :: m) :=
  List.forall_mem_cons.mpr ⟨Int.le_of_eq hentry, hm⟩

theorem AccessedBy.sublist {m' : List (Name × FileCacheEntry)} (hm : AccessedBy now m)
    (h : m'.Sublist m) : AccessedBy now m' :=
  fun e he => hm e (h.subset he)

theorem AccessedBy.later {now' : Int} (hm : AccessedBy now m) (h : now ≤ now') :
    AccessedBy now' m :=
  fun e he => Int.le_trans (hm e he) h

theorem newestFirst_iff : NewestFirst m ↔ (times m).Pairwise fun t t' => t' ≤ t := by
  rw [times, List.pairwise_map, NewestFirst]

theorem accessedBy_iff : AccessedBy now m ↔ ∀ t ∈ times m, t ≤ now := by
  rw [times, List.forall_mem_map, AccessedBy]

/-- Opening a dataset does not touch the times. -/
theorem times_setDatasets (fc : FileCache) (fileName : Name) (dsCache : DatasetCache) :
    times (fc.setDatasets fileName dsCache).map = times fc.map :=
  map_modify (g := FileCacheEntry.lastAccessed) fun _ => rfl

theorem NewestFirst.setDatasets (h : NewestFirst fc.map) (fileName : Name)
    (dsCache : DatasetCache) : NewestFirst (fc.setDatasets fileName dsCache).map := by
  rw [newestFirst_iff, times_setDatasets]
  exact newestFirst_iff.mp h

theorem AccessedBy.setDatasets (h : AccessedBy now fc.map) (fileName : Name)
    (dsCache : DatasetCache) : AccessedBy now (fc.setDatasets fileName dsCache).map := by
  rw [accessedBy_iff, times_setDatasets]
  exact accessedBy_iff.mp h

/-- The list after `file_cache_open_file`. -/
theorem fileCacheOpenFile_map {r : FileOpened} (h : fileCacheOpenFile fc name now opened = some r) :
    (opened < 0 ∧ r.cache = fc) ∨
      ∃ entry kept, r.cache.map = (name, entry) :: kept ∧ entry.lastAccessed = now ∧
        kept.Sublist fc.map ∧ name ∉ keys kept := by
  rcases hget : get fc.map name with _ | entry
  · by_cases hfail : opened < 0
    · rw [fileCacheOpenFile_failed hget now hfail] at h
      cases h
      exact .inl ⟨hfail, rfl⟩
    · by_cases hmax : 1 ≤ fc.maxOpenFiles
      · rw [fileCacheOpenFile_new hmax hget now (Int.not_lt.mp hfail)] at h
        cases h
        refine .inr ⟨_, _, rfl, rfl, ?_, notMem_evict hmax (get_eq_none_iff.mp hget)⟩
        rw [evict_map hmax]
        exact List.take_sublist _ _
      · rw [fileCacheOpenFile, hget] at h
        dsimp only at h
        rw [if_neg hfail, if_pos hmax] at h
        cases h
  · rw [fileCacheOpenFile_hit hget] at h
    cases h
    exact .inr ⟨_, _, rfl, rfl, List.filter_sublist, notMem_erase _ name⟩

/-! ## 3. The invariant -/

/-- The invariant of a cache and its clock. -/
structure Clocked.Inv (s : Clocked) : Prop where
  nodup : (keys s.cache.map).Nodup
  newestFirst : NewestFirst s.cache.map
  accessedBy : AccessedBy s.clock s.cache.map

theorem Clocked.Inv.openFile (hs : s.Inv) (hclock : s.clock ≤ now) {r : FileOpened}
    (hr : fileCacheOpenFile s.cache name now opened = some r) :
    Clocked.Inv { cache := r.cache, clock := now } := by
  have haccessed := hs.accessedBy.later hclock
  rcases fileCacheOpenFile_map hr with ⟨-, hsame⟩ | ⟨entry, kept, hmap, hentry, hkept, hname⟩
  · rw [hsame]
    exact ⟨hs.nodup, hs.newestFirst, haccessed⟩
  · constructor
    · dsimp only
      rw [hmap, keys_cons]
      exact List.nodup_cons.mpr ⟨hname, hs.nodup.sublist (hkept.map Prod.fst)⟩
    · dsimp only
      rw [hmap]
      exact NewestFirst.cons (hs.newestFirst.sublist hkept) (haccessed.sublist hkept) name hentry
    · dsimp only
      rw [hmap]
      exact (haccessed.sublist hkept).cons name hentry

theorem Clocked.Inv.openDataset (hs : s.Inv) {fileName : Name} {r : FileCache × Int × _}
    (hr : fileCacheOpenDataset s.cache fileName name opened = some r) :
    Clocked.Inv { s with cache := r.1 } := by
  rw [fileCacheOpenDataset] at hr
  split at hr
  · cases hr
  · obtain ⟨d, -, rfl⟩ := Option.map_eq_some_iff.mp hr
    exact ⟨nodup_modify hs.nodup _ _, hs.newestFirst.setDatasets fileName d.cache,
      hs.accessedBy.setDatasets fileName d.cache⟩

theorem Clocked.Inv.expire (hs : s.Inv) (maxAge : Int) (hclock : s.clock ≤ now) :
    Clocked.Inv { cache := (fileCacheExpireEntries s.cache maxAge now).1, clock := now } := by
  have haccessed := hs.accessedBy.later hclock
  have hsub : (fileCacheExpireEntries s.cache maxAge now).1.map.Sublist s.cache.map := by
    rw [fileCacheExpireEntries]
    split
    · exact List.Sublist.refl _
    · dsimp only
      rw [removeTails_map]
      exact List.take_sublist _ _
  exact ⟨hs.nodup.sublist (hsub.map Prod.fst), hs.newestFirst.sublist hsub,
    haccessed.sublist hsub⟩

/-- One call. -/
theorem Clocked.Inv.exec (hs : s.Inv) {call : TimedCall} {s' : Clocked}
    (h : s.exec call = some s') : s'.Inv := by
  cases call with
  | openFile name now h5Fopen =>
    rw [Clocked.exec] at h
    split at h
    · cases h
    · rename_i hclock
      obtain ⟨r, hr, rfl⟩ := Option.map_eq_some_iff.mp h
      exact hs.openFile (Int.not_lt.mp hclock) hr
  | openDataset fileName name h5Dopen =>
    obtain ⟨r, hr, rfl⟩ := Option.map_eq_some_iff.mp h
    exact hs.openDataset hr
  | expire maxAge now =>
    rw [Clocked.exec] at h
    split at h
    · cases h
    · rename_i hclock
      cases h
      exact hs.expire maxAge (Int.not_lt.mp hclock)

theorem inv_of_reachable {maxFiles maxDatasets start : Int}
    (h : (clockMachine maxFiles maxDatasets start).Reachable s) : s.Inv := by
  refine (clockMachine maxFiles maxDatasets start).reachable_induction ?_ ?_ s h
  · exact ⟨List.nodup_nil, List.Pairwise.nil, fun e he => absurd he List.not_mem_nil⟩
  · intro s call s' _ hs hstep
    exact hs.exec hstep

/-! ## 4. What expires -/

/-- The entry is older than `max_age`. -/
def Expired (maxAge now : Int) (e : Name × FileCacheEntry) : Bool :=
  e.2.lastAccessed + maxAge < now

/-- `file_cache_expire_entries` does what it is for. -/
structure ExpiresOld (fc : FileCache) (maxAge now : Int) : Prop where
  /-- The cache loses the expired entries, and nothing else is different. -/
  kept : (fileCacheExpireEntries fc maxAge now).1 =
    { fc with map := fc.map.filter fun e => !Expired maxAge now e }
  /-- The expired entries are closed, each of them once, from the tail on. -/
  closed : (fileCacheExpireEntries fc maxAge now).2.reverse =
    (fc.map.filter (Expired maxAge now)).map Prod.snd
  /-- The handles that are closed are the files' and those of all their datasets. -/
  handles : ((fileCacheExpireEntries fc maxAge now).2.flatMap closeEntry).Perm
    ((fc.map.filter (Expired maxAge now)).flatMap fun e => entryHandles e.2)

/-- What expires in a list that is in order. -/
theorem NewestFirst.expiresOld (h : NewestFirst fc.map) {maxAge : Int} (hage : 0 < maxAge)
    (now : Int) : ExpiresOld fc maxAge now := by
  obtain ⟨hkeep, hdrop⟩ := choose_tail (p := Expired maxAge now) h fun e e' hle hexpired => by
    have hold := of_decide_eq_true hexpired
    exact decide_eq_true (by omega)
  have hexpire : fileCacheExpireEntries fc maxAge now =
      ({ fc with map := (removeTails (fc.map.countP (Expired maxAge now)) fc.map).1 },
        (removeTails (fc.map.countP (Expired maxAge now)) fc.map).2) := by
    rw [fileCacheExpireEntries, if_neg (Int.not_le.mpr hage)]
    rfl
  have hclosed : (fileCacheExpireEntries fc maxAge now).2.reverse =
      (fc.map.filter (Expired maxAge now)).map Prod.snd := by
    -- what is left and what was removed are the whole list
    have hall := removeTails_entries (fc.map.countP (Expired maxAge now)) fc.map
    rw [removeTails_map] at hall
    conv_rhs at hall =>
      rw [← List.take_append_drop (fc.map.length - fc.map.countP (Expired maxAge now)) fc.map,
        List.map_append]
    rw [hexpire, hdrop]
    exact List.append_cancel_left hall
  refine ⟨?_, hclosed, ?_⟩
  · rw [hexpire, hkeep, removeTails_map]
  · have hsplit : ∀ l : List (Name × FileCacheEntry),
        (l.flatMap fun e => entryHandles e.2) = (l.map Prod.snd).flatMap entryHandles :=
      fun l => (List.flatMap_map Prod.snd entryHandles l).symm
    rw [hsplit, ← hclosed]
    exact (List.Perm.flatMap_left _ fun entry _ => closeEntry_perm entry).trans
      (List.Perm.flatMap_right entryHandles (List.reverse_perm _).symm)

/-- **Expiry closes exactly the old files.**  After every run the list is in the order of the last
access, and then only the expired entries are closed. -/
theorem fileCache_expiry {maxFiles maxDatasets start : Int}
    (h : (clockMachine maxFiles maxDatasets start).Reachable s) :
    NewestFirst s.cache.map ∧ (keys s.cache.map).Nodup ∧
      ∀ maxAge now, (maxAge ≤ 0 → fileCacheExpireEntries s.cache maxAge now = (s.cache, [])) ∧
        (0 < maxAge → ExpiresOld s.cache maxAge now) := by
  have hs := inv_of_reachable h
  refine ⟨hs.newestFirst, hs.nodup, fun maxAge now => ⟨fun hage => ?_, fun hage => ?_⟩⟩
  · rw [fileCacheExpireEntries, if_pos hage]
  · exact hs.newestFirst.expiresOld hage now

/-- Three files, of which the first one is used again.  The other two are old in the end. -/
def usedAgain : List TimedCall :=
  [ .openFile [1] 10 3, .openFile [2] 11 4, .openFile [3] 15 5, .openDataset [3] [7] 6,
    .expire 5 15, .openFile [1] 20 (-1) ]

theorem fileCache_expiry_usedAgain :
    ∃ s, (clockMachine 4 4 0).run usedAgain = some s ∧
      (fileCacheExpireEntries s.cache 5 25).2.flatMap closeEntry = [4, 5, 6] ∧
      ExpiresOld s.cache 5 25 := by
  have hrun : ((clockMachine 4 4 0).run usedAgain).map (fun s =>
      (fileCacheExpireEntries s.cache 5 25).2.flatMap closeEntry) = some [4, 5, 6] := by
    decide +kernel
  obtain ⟨s, hs, hclosed⟩ := Option.map_eq_some_iff.mp hrun
  exact ⟨s, hs, hclosed, ((fileCache_expiry ⟨_, hs⟩).2.2 5 25).2 (by decide)⟩

end HdfStream.Cache
