/-
# The shadow never lacks what the worker has

Whatever is opened, fails to open and expires, the files in the worker's cache are the first files
of the shadow, and so are the datasets of each of them (`Mirrored`).  Only the worker loses entries
by age; both lose entries by number, at the tail, and a file that the worker has lost comes back to
the head on both sides.  Without expiry nothing is lost, and both caches are the same.

The relations take a flag `exact`: with it the keys are the same, not only the first ones.
-/
import HdfStream.Cache.Model

namespace HdfStream.Cache

open LinkedMap OrderedMap

/-! ## 1. The relations -/

/-- An entry of the worker holds a dataset; in the shadow there is none. -/
def EntryMirrored (entry _entry' : DatasetCacheEntry) : Prop := 0 ≤ entry.datasetId

/-- A dataset cache and its shadow. -/
structure DatasetsMirrored (exact : Prop) (c c' : DatasetCache) : Prop where
  mirrors : Mirrors EntryMirrored c.map c'.map
  max : c.maxOpenDatasets = c'.maxOpenDatasets
  same : exact → keys c.map = keys c'.map

/-- The datasets of a file and of its shadow. -/
def FileMirrored (exact : Prop) (file file' : FileCacheEntry) : Prop :=
  DatasetsMirrored exact file.dsCache file'.dsCache

/-- A file cache and its shadow. -/
structure Mirrored (exact : Prop) (fc fc' : FileCache) : Prop where
  mirrors : Mirrors (FileMirrored exact) fc.map fc'.map
  maxFiles : fc.maxOpenFiles = fc'.maxOpenFiles
  maxDatasets : fc.maxOpenDatasets = fc'.maxOpenDatasets
  same : exact → keys fc.map = keys fc'.map
  hits : exact → fc.nrCacheHits = fc'.nrCacheHits
  misses : exact → fc.nrCacheMisses = fc'.nrCacheMisses

/-- The file has room for so many datasets. -/
def HasRoom (max : Int) (file : FileCacheEntry) : Prop := file.dsCache.maxOpenDatasets = max

/-- Every file has room for as many datasets. -/
def Sized (fc : FileCache) : Prop := ∀ e ∈ fc.map, HasRoom fc.maxOpenDatasets e.2

variable {exact : Prop} {name : Name} {opened now : Int}

/-! ## 2. The loops at the tail -/

theorem evict_map {ν : Type} {max : Int} (hmax : 1 ≤ max) (m : List (Name × ν)) :
    (evict max m).1 = m.take (max.toNat - 1) := by
  induction hlen : m.length using Nat.strongRecOn generalizing m with
  | _ n ih =>
    subst hlen
    rw [evict]
    by_cases hfull : max ≤ m.length
    · rw [if_pos hfull]
      split
      · rename_i hnone
        rw [removeTail_eq_none hnone, List.take_nil]
      · rename_i v n hsome
        obtain ⟨hn, hlen⟩ := removeTail_eq_some hsome
        rw [ih n.length (by omega) n rfl, hn, List.take_take, Nat.min_eq_left (by omega)]
    · rw [if_neg hfull, List.take_of_length_le (by omega)]

theorem removeTails_map {ν : Type} (k : Nat) (m : List (Name × ν)) :
    (removeTails k m).1 = m.take (m.length - k) := by
  induction k generalizing m with
  | zero => rw [removeTails, Nat.sub_zero, List.take_length]
  | succ k ih =>
    rw [removeTails]
    split
    · rename_i hnone
      rw [removeTail_eq_none hnone, List.take_nil]
    · rename_i v n hsome
      obtain ⟨hn, hlen⟩ := removeTail_eq_some hsome
      rw [ih n]
      have hle : n.length - k ≤ m.length - 1 := by omega
      conv_lhs => rw [hn]
      rw [List.take_take, ← hn, Nat.min_eq_left hle]
      congr 1
      omega

/-! ## 3. Opening a dataset -/

/-- **A dataset that is opened** in the worker, and then in the shadow. -/
theorem DatasetsMirrored.openDataset {c c' : DatasetCache} (h : DatasetsMirrored exact c c')
    {r : DatasetOpened} (hr : datasetCacheOpenDataset c name opened = some r) :
    (r.datasetId < 0 ∧ r.cache = c) ∨
      (0 ≤ r.datasetId ∧ ∃ r', datasetCacheOpenDataset c' name 0 = some r' ∧
        DatasetsMirrored exact r.cache r'.cache) := by
  unfold datasetCacheOpenDataset at hr
  split at hr
  · -- both have it
    rename_i entry hentry
    obtain ⟨entry', hentry', hid⟩ := h.mirrors.get hentry
    rw [makeHead_of_get hentry] at hr
    cases hr
    refine .inr ⟨hid, _, by rw [datasetCacheOpenDataset, hentry', makeHead_of_get hentry']; rfl,
      .cons name hid (h.mirrors.erase name), h.max, fun hexact => ?_⟩
    rw [keys_cons, keys_cons, keys_erase, keys_erase, h.same hexact]
  · rename_i hnone
    split at hr
    · rename_i hfail
      cases hr
      exact .inl ⟨hfail, rfl⟩
    rename_i hopened
    have hopened := Int.not_lt.mp hopened
    split at hr
    · cases hr
    rename_i hmax
    have hmax := not_not.mp hmax
    have htake := get_take_eq_none hnone (c.maxOpenDatasets.toNat - 1)
    dsimp only at hr
    rw [evict_map hmax, addHead_of_get htake] at hr
    cases hr
    refine .inr ⟨hopened, ?_⟩
    cases hentry' : get c'.map name with
    | some entry' =>
      -- only the shadow still has it
      refine ⟨_, by rw [datasetCacheOpenDataset, hentry', makeHead_of_get hentry']; rfl,
        (h.mirrors.take_left _).addHead_makeHead htake hopened, h.max, fun hexact => ?_⟩
      rw [get_eq_none_of_keys (h.same hexact) hnone] at hentry'
      cases hentry'
    | none =>
      have hmax' : 1 ≤ c'.maxOpenDatasets := by
        rw [← h.max]
        exact hmax
      refine ⟨_, by
        rw [datasetCacheOpenDataset, hentry']
        dsimp only
        rw [if_neg (Int.lt_irrefl 0), if_neg (not_not.mpr hmax'), evict_map hmax',
          addHead_of_get (get_take_eq_none hentry' _)]
        rfl, ?_, h.max, fun hexact => ?_⟩
      · rw [← h.max]
        exact .cons name hopened (h.mirrors.take _)
      · rw [keys_cons, keys_cons, keys_take, keys_take, h.same hexact, h.max]

theorem datasetCacheOpenDataset_max {c : DatasetCache} {r : DatasetOpened}
    (hr : datasetCacheOpenDataset c name opened = some r) :
    r.cache.maxOpenDatasets = c.maxOpenDatasets := by
  unfold datasetCacheOpenDataset at hr
  split at hr
  · obtain ⟨m, _, rfl⟩ := Option.map_eq_some_iff.mp hr
    rfl
  split at hr
  · cases hr
    rfl
  split at hr
  · cases hr
  · obtain ⟨m, _, rfl⟩ := Option.map_eq_some_iff.mp hr
    rfl

/-! ## 4. Opening a file -/

theorem fileCacheOpenFile_sized {fc : FileCache} (h : Sized fc) {r : FileOpened}
    (hr : fileCacheOpenFile fc name now opened = some r) : Sized r.cache := by
  unfold fileCacheOpenFile at hr
  split at hr
  · rename_i file hfile
    rw [makeHead_of_get hfile] at hr
    cases hr
    have hmap : ∀ e ∈ (name, file) :: erase fc.map name, HasRoom fc.maxOpenDatasets e.2 :=
      List.forall_mem_cons.mpr ⟨h _ (mem_of_get hfile),
        fun e he => h e (List.mem_of_mem_filter he)⟩
    exact forall_modify hmap fun v _ hv => hv
  · rename_i hnone
    split at hr
    · cases hr
      exact h
    split at hr
    · cases hr
    rename_i hmax
    dsimp only at hr
    rw [evict_map (not_not.mp hmax), addHead_of_get (get_take_eq_none hnone _)] at hr
    cases hr
    exact List.forall_mem_cons.mpr ⟨rfl, fun e he => h e (List.mem_of_mem_take he)⟩

/-- **A file that is opened** in the worker, and then in the shadow. -/
theorem Mirrored.openFile {fc fc' : FileCache} (h : Mirrored exact fc fc') (hsized : Sized fc')
    {r : FileOpened} (hr : fileCacheOpenFile fc name now opened = some r) (now' : Int) :
    (r.entry = none ∧ r.cache = fc) ∨
      (r.entry.isSome ∧ ∃ r', fileCacheOpenFile fc' name now' 0 = some r' ∧
        Mirrored exact r.cache r'.cache) := by
  unfold fileCacheOpenFile at hr
  split at hr
  · -- both have it
    rename_i file hfile
    obtain ⟨file', hfile', hds⟩ := h.mirrors.get hfile
    rw [makeHead_of_get hfile] at hr
    cases hr
    refine .inr ⟨rfl, _, by rw [fileCacheOpenFile, hfile', makeHead_of_get hfile']; rfl, ?_⟩
    have hmirrors : Mirrors (FileMirrored exact) ((name, file) :: erase fc.map name)
        ((name, file') :: erase fc'.map name) := .cons name hds (h.mirrors.erase name)
    refine ⟨hmirrors.modify _ _ fun v v' _ _ hR => hR, h.maxFiles, h.maxDatasets, fun hexact => ?_,
      fun hexact => congrArg (· + 1) (h.hits hexact), h.misses⟩
    rw [keys_modify, keys_modify, keys_cons, keys_cons, keys_erase, keys_erase, h.same hexact]
  · rename_i hnone
    split at hr
    · cases hr
      exact .inl ⟨rfl, rfl⟩
    split at hr
    · cases hr
    rename_i hmax
    have hmax := not_not.mp hmax
    have htake := get_take_eq_none hnone (fc.maxOpenFiles.toNat - 1)
    dsimp only at hr
    rw [evict_map hmax, addHead_of_get htake] at hr
    cases hr
    refine .inr ⟨rfl, ?_⟩
    cases hfile' : get fc'.map name with
    | some file' =>
      -- only the shadow still has it, with datasets the worker has lost
      refine ⟨_, by rw [fileCacheOpenFile, hfile', makeHead_of_get hfile']; rfl, ?_⟩
      have hfile : ¬ exact := fun hexact => by
        rw [get_eq_none_of_keys (h.same hexact) hnone] at hfile'
        cases hfile'
      have hnew : FileMirrored exact (fileCacheEntryNew opened now fc.maxOpenDatasets) file' :=
        ⟨.nil _, h.maxDatasets.trans (hsized _ (mem_of_get hfile')).symm,
          fun hexact => absurd hexact hfile⟩
      have hmirrors := (h.mirrors.take_left (fc.maxOpenFiles.toNat - 1)).addHead_makeHead htake hnew
      have hmodify := hmirrors.modify_right (k := name) (fun entry => entry.access now')
        fun v v' _ hR => hR
      exact ⟨hmodify, h.maxFiles, h.maxDatasets, fun hexact => absurd hexact hfile,
        fun hexact => absurd hexact hfile, fun hexact => absurd hexact hfile⟩
    | none =>
      have hmax' : 1 ≤ fc'.maxOpenFiles := by
        rw [← h.maxFiles]
        exact hmax
      refine ⟨_, by
        rw [fileCacheOpenFile, hfile']
        dsimp only
        rw [if_neg (Int.lt_irrefl 0), if_neg (not_not.mpr hmax'), evict_map hmax',
          addHead_of_get (get_take_eq_none hfile' _)]
        rfl, ?_, h.maxFiles, h.maxDatasets, fun hexact => ?_, h.hits,
        fun hexact => congrArg (· + 1) (h.misses hexact)⟩
      · rw [← h.maxFiles]
        exact .cons name ⟨.nil _, h.maxDatasets, fun _ => rfl⟩ (h.mirrors.take _)
      · rw [keys_cons, keys_cons, keys_take, keys_take, h.same hexact, h.maxFiles]

/-! ## 5. A dataset of a file -/

theorem fileCacheOpenDataset_sized {fc : FileCache} (h : Sized fc) {fileName : Name}
    {r : FileCache × Int × List DatasetCacheEntry}
    (hr : fileCacheOpenDataset fc fileName name opened = some r) : Sized r.1 := by
  unfold fileCacheOpenDataset at hr
  split at hr
  · cases hr
  · rename_i file hfile
    obtain ⟨d, hd, rfl⟩ := Option.map_eq_some_iff.mp hr
    refine forall_modify h fun v _ hv => ?_
    exact (datasetCacheOpenDataset_max hd).trans (h _ (mem_of_get hfile))

/-- **A dataset that is opened** in a file of the worker, and then in the shadow. -/
theorem Mirrored.openDataset {fc fc' : FileCache} (h : Mirrored exact fc fc') {fileName : Name}
    {r : FileCache × Int × List DatasetCacheEntry}
    (hr : fileCacheOpenDataset fc fileName name opened = some r) :
    (r.2.1 < 0 ∧ Mirrored exact r.1 fc') ∨
      (0 ≤ r.2.1 ∧ ∃ r', fileCacheOpenDataset fc' fileName name 0 = some r' ∧
        Mirrored exact r.1 r'.1) := by
  unfold fileCacheOpenDataset at hr
  split at hr
  · cases hr
  · rename_i file hfile
    obtain ⟨d, hd, rfl⟩ := Option.map_eq_some_iff.mp hr
    obtain ⟨file', hfile', hds⟩ := h.mirrors.get hfile
    rcases DatasetsMirrored.openDataset hds hd with ⟨hfail, hcache⟩ | ⟨hid, d', hd', hmirrored⟩
    · refine .inl ⟨hfail, ?_, h.maxFiles, h.maxDatasets, fun hexact => ?_, h.hits, h.misses⟩
      · refine h.mirrors.modify_left fun v v' hv hR => ?_
        rw [hfile] at hv
        cases hv
        rw [hcache]
        exact hR
      · exact (keys_modify _ _ _).trans (h.same hexact)
    · refine .inr ⟨hid, _, by rw [fileCacheOpenDataset, hfile']; dsimp only; rw [hd']; rfl, ?_⟩
      refine ⟨?_, h.maxFiles, h.maxDatasets, fun hexact => ?_, h.hits, h.misses⟩
      · refine h.mirrors.modify (fun file => file.setDatasets d.cache)
          (fun file => file.setDatasets d'.cache) fun v v' _ _ _ => ?_
        exact hmirrored
      · exact (keys_modify _ _ _).trans ((h.same hexact).trans (keys_modify _ _ _).symm)

/-! ## 6. Steps -/

/-- The worker's files expire: those at the tail. -/
theorem Mirrored.expire {fc fc' : FileCache} (h : Mirrored exact fc fc') (hexact : ¬ exact)
    (maxAge now : Int) : Mirrored exact (fileCacheExpireEntries fc maxAge now).1 fc' := by
  unfold fileCacheExpireEntries
  split
  · exact h
  · dsimp only
    rw [removeTails_map]
    exact ⟨h.mirrors.take_left _, h.maxFiles, h.maxDatasets, fun h => absurd h hexact, h.hits,
      h.misses⟩

/-- A worker and its shadow. -/
structure Inv (exact : Prop) (s : State) : Prop where
  mirrored : Mirrored exact s.reader.fc s.shadow
  sized : Sized s.shadow

theorem start_inv (exact : Prop) (maxOpenFiles maxOpenDatasets : Int) :
    Inv exact (start maxOpenFiles maxOpenDatasets) where
  mirrored := ⟨.nil _, rfl, rfl, fun _ => rfl, fun _ => rfl, fun _ => rfl⟩
  sized e he := by cases he

/-- A request for a dataset: the shadow follows the answer. -/
theorem Inv.openDataset {s : State} (h : Inv exact s) {fileName datasetName : Name} {env : Env}
    {reader : Reader} {retcode : Nat}
    (hr : doReadDataset s.reader fileName datasetName env = some (reader, retcode)) (now : Int) :
    ∃ shadow, updateShadowDataset s.shadow fileName datasetName retcode now = some shadow ∧
      Inv exact { reader := reader, shadow := shadow } := by
  unfold doReadDataset at hr
  split at hr
  · cases hr
  rename_i file hfile
  rcases h.mirrored.openFile h.sized hfile now with ⟨hnone, hcache⟩ | ⟨hsome, r', hr', hmirrored⟩
  · -- the file could not be opened
    rw [hnone, hcache] at hr
    cases hr
    exact ⟨s.shadow, rfl, h⟩
  · have hsized := fileCacheOpenFile_sized h.sized hr'
    obtain ⟨entry, hentry⟩ := Option.isSome_iff_exists.mp hsome
    rw [hentry] at hr
    obtain ⟨dataset, hdataset, heq⟩ := Option.map_eq_some_iff.mp hr
    rcases hmirrored.openDataset hdataset with ⟨hfail, hmirrored'⟩ | ⟨hid, d', hd', hmirrored'⟩
    · rw [if_neg (Int.not_le.mpr hfail)] at heq
      cases heq
      refine ⟨r'.cache, ?_, hmirrored', hsized⟩
      rw [updateShadowDataset, if_pos (by decide), hr']
      exact if_neg (by decide)
    · rw [if_pos hid] at heq
      cases heq
      refine ⟨d'.1, ?_, hmirrored', fileCacheOpenDataset_sized hsized hd'⟩
      rw [updateShadowDataset, if_pos (by decide), hr']
      dsimp only
      rw [if_pos (by decide), hd']
      rfl

/-- A request for an object. -/
theorem Inv.openObject {s : State} (h : Inv exact s) {fileName : Name} {env : Env}
    {reader : Reader} {retcode : Nat}
    (hr : doReadObject s.reader fileName env = some (reader, retcode)) (now : Int) :
    ∃ shadow, updateShadowObject s.shadow fileName retcode now = some shadow ∧
      Inv exact { reader := reader, shadow := shadow } := by
  obtain ⟨file, hfile, heq⟩ := Option.map_eq_some_iff.mp hr
  rcases h.mirrored.openFile h.sized hfile now with ⟨hnone, hcache⟩ | ⟨hsome, r', hr', hmirrored⟩
  · rw [hnone, hcache] at heq
    cases heq
    exact ⟨s.shadow, rfl, h.mirrored, h.sized⟩
  · rw [hsome] at heq
    cases heq
    refine ⟨r'.cache, ?_, hmirrored, fileCacheOpenFile_sized h.sized hr'⟩
    rw [if_pos rfl, updateShadowObject, if_pos (by decide), hr']
    rfl

/-- The files in the worker expire. -/
def Action.isExpire : Action → Bool
  | .expire _ _ => true
  | _ => false

/-- **One step.** -/
theorem Inv.exec {s s' : State} (h : Inv exact s) {a : Action} (hexact : exact → a.isExpire = false)
    (hs : exec s a = some s') : Inv exact s' := by
  cases a with
  | openDataset fileName datasetName env now =>
    dsimp only [Cache.exec] at hs
    split at hs
    · cases hs
    · rename_i reader retcode hr
      obtain ⟨shadow, hshadow, hinv⟩ := h.openDataset hr now
      rw [hshadow] at hs
      cases hs
      exact hinv
  | openObject fileName env now =>
    dsimp only [Cache.exec] at hs
    split at hs
    · cases hs
    · rename_i reader retcode hr
      obtain ⟨shadow, hshadow, hinv⟩ := h.openObject hr now
      rw [hshadow] at hs
      cases hs
      exact hinv
  | expire maxAge now =>
    cases hs
    have hnot : ¬ exact := fun h => Bool.noConfusion (hexact h)
    exact ⟨h.mirrored.expire hnot maxAge now, h.sized⟩

/-! ## 7. Runs -/

/-- What is cached: the files with their datasets, most recently used first. -/
def FileCache.contents (fc : FileCache) : List (Name × List Name) :=
  fc.map.map fun e => (e.1, keys e.2.dsCache.map)

theorem contents_eq {m m' : List (Name × FileCacheEntry)} (h : Mirrors (FileMirrored True) m m')
    (hkeys : keys m = keys m') :
    m.map (fun e => (e.1, keys e.2.dsCache.map)) =
      m'.map fun e => (e.1, keys e.2.dsCache.map) := by
  induction h with
  | nil m' =>
    cases m' with
    | nil => rfl
    | cons e m' => cases hkeys
  | cons name hfile hm ih =>
    rw [keys_cons, keys_cons, List.cons.injEq] at hkeys
    rw [List.map_cons, List.map_cons, ih hkeys.2, hfile.same trivial]

/-- What the shadow says about the worker's cache. -/
theorem Mirrored.query {fc fc' : FileCache} (h : Mirrored exact fc fc') (fileName : Name)
    (datasetName : Option Name) :
    (fileCacheQuery fc fileName datasetName).1 ≤ (fileCacheQuery fc' fileName datasetName).1 ∧
      (fileCacheQuery fc fileName datasetName).2 ≤
        (fileCacheQuery fc' fileName datasetName).2 := by
  unfold fileCacheQuery
  cases hfile : get fc.map fileName with
  | none =>
    dsimp only
    split
    · split
      · refine ⟨Int.one_nonneg, ?_⟩
        dsimp only
        split <;> decide
      · exact ⟨Int.one_nonneg, Int.one_nonneg⟩
    · exact ⟨Int.le_refl _, Int.le_refl _⟩
  | some file =>
    obtain ⟨file', hfile', hds⟩ := h.mirrors.get hfile
    rw [hfile']
    cases datasetName with
    | none => exact ⟨Int.le_refl _, Int.le_refl _⟩
    | some name =>
      refine ⟨Int.le_refl _, ?_⟩
      dsimp only
      split
      · rename_i hsome
        obtain ⟨entry, hentry⟩ := Option.isSome_iff_exists.mp hsome
        obtain ⟨entry', hentry', _⟩ := DatasetsMirrored.mirrors hds |>.get hentry
        rw [hentry']
        exact Int.le_refl _
      · split <;> decide

/-- **The shadow never lacks what the worker has.**  After every run of requests and expiry, the
files cached by the worker are the first files of the shadow, and of each file the datasets are; so
a query finds in the shadow what the worker has.  Without expiry both have the same contents and
counters. -/
theorem shadow_covers (maxOpenFiles maxOpenDatasets : Int) (tr : List Action) (s : State)
    (h : (machine maxOpenFiles maxOpenDatasets).run tr = some s) :
    keys s.reader.fc.map <+: keys s.shadow.map ∧
      (∀ name file, get s.reader.fc.map name = some file →
        ∃ file', get s.shadow.map name = some file' ∧
          keys file.dsCache.map <+: keys file'.dsCache.map) ∧
      (∀ fileName datasetName,
        (fileCacheQuery s.reader.fc fileName datasetName).1 ≤
            (fileCacheQuery s.shadow fileName datasetName).1 ∧
          (fileCacheQuery s.reader.fc fileName datasetName).2 ≤
            (fileCacheQuery s.shadow fileName datasetName).2) ∧
      ((∀ a ∈ tr, a.isExpire = false) →
        s.reader.fc.contents = s.shadow.contents ∧
          s.reader.fc.nrCacheHits = s.shadow.nrCacheHits ∧
          s.reader.fc.nrCacheMisses = s.shadow.nrCacheMisses) := by
  have hinv : ∀ exact : Prop, (exact → ∀ a ∈ tr, a.isExpire = false) → Inv exact s := by
    refine (machine maxOpenFiles maxOpenDatasets).run_induction
      (I := fun tr s => ∀ exact : Prop, (exact → ∀ a ∈ tr, a.isExpire = false) → Inv exact s)
      (fun exact _ => start_inv exact maxOpenFiles maxOpenDatasets) ?_ tr s h
    intro tr s a s' _ ih hs exact hexact
    have hprefix : exact → ∀ b ∈ tr, b.isExpire = false := fun h b hb =>
      hexact h b (List.mem_append_left _ hb)
    exact (ih exact hprefix).exec
      (fun h => hexact h a (List.mem_append_right _ List.mem_cons_self)) hs
  have hmirrored := (hinv False fun h => h.elim).mirrored
  refine ⟨hmirrored.mirrors.keys_isPrefix, fun name file hfile => ?_, hmirrored.query,
    fun hnone => ?_⟩
  · obtain ⟨file', hfile', hds⟩ := hmirrored.mirrors.get hfile
    exact ⟨file', hfile', (DatasetsMirrored.mirrors hds).keys_isPrefix⟩
  · have hsame := (hinv True fun _ => hnone).mirrored
    exact ⟨contents_eq hsame.mirrors (hsame.same trivial), hsame.hits trivial, hsame.misses trivial⟩

/-- Room for two files and one dataset each: file 1 expires in the worker and is opened again, and
the shadow has kept its dataset. -/
def expireAndReopen : List Action :=
  [.openDataset [1] [5] { fileId := 3, datasetId := 4, now := 0 } 0,
    .openObject [2] { fileId := 5, datasetId := 0, now := 10 } 10,
    .expire 5 11,
    .openDataset [1] [6] { fileId := 6, datasetId := -1, now := 12 } 12]

theorem expireAndReopen_end : ((machine 2 1).run expireAndReopen).map
    (fun s => (s.reader.fc.contents, s.shadow.contents)) =
      some ([([1], []), ([2], [])], [([1], [[5]]), ([2], [])]) := by
  decide +kernel

theorem shadow_covers_expireAndReopen :
    ∃ s, (machine 2 1).run expireAndReopen = some s ∧
      s.reader.fc.contents = [([1], []), ([2], [])] ∧
      keys s.reader.fc.map <+: keys s.shadow.map := by
  obtain ⟨s, hrun, hs⟩ := Option.map_eq_some_iff.mp expireAndReopen_end
  exact ⟨s, hrun, congrArg Prod.fst hs, (shadow_covers 2 1 expireAndReopen s hrun).1⟩

end HdfStream.Cache
