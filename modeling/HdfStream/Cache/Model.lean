/-
# The caches of open files and datasets

Every worker keeps the files it has opened, and with each file its open datasets, most recently
used first.  The library keeps a copy of this cache for each worker, without the handles: the
shadow, from which it chooses a worker for a request.

This is the model of `dataset_cache.c` and `file_cache.c`, which both sides share, and of the parts
of `hdfstream.c` and `hdfstream_reader.c` that use them: a request goes to the worker, which opens
the file and the dataset and answers with a code, and the library opens them in the shadow.

What the HDF5 library returns and what the clock says are arguments; with `SHADOW_CACHE` defined
every open returns 0.  The name of an entry is its key in the ordered map.  A function returns
`none` when an assertion fails.
-/
import HdfStream.Lib.OrderedMap
import HdfStream.Lib.Machine

namespace HdfStream.Cache

open LinkedMap OrderedMap

abbrev Name := List UInt8

/-- `struct dataset_cache_entry`. -/
structure DatasetCacheEntry where
  datasetId : Int

/-- `struct dataset_cache`. -/
structure DatasetCache where
  maxOpenDatasets : Int
  fileId : Int
  map : List (Name × DatasetCacheEntry)

/-- `struct file_cache_entry`. -/
structure FileCacheEntry where
  fileId : Int
  lastAccessed : Int
  dsCache : DatasetCache

/-- `struct file_cache`. -/
structure FileCache where
  maxOpenFiles : Int
  maxOpenDatasets : Int
  map : List (Name × FileCacheEntry)
  nrCacheHits : Nat
  nrCacheMisses : Nat

/-- The loop that removes entries at the tail while there are `max` or more; also the entries it
has removed. -/
def evict {ν : Type} (max : Int) (m : List (Name × ν)) : List (Name × ν) × List ν :=
  if max ≤ m.length then
    match _h : removeTail m with
    -- `max` is at least 1, so the map is not empty
    | none => (m, [])
    | some (v, n) =>
      let rest := evict max n
      (rest.1, v :: rest.2)
  else (m, [])
termination_by m.length
decreasing_by
  have := (removeTail_eq_some _h).2
  omega

/-- The loop that removes so many entries at the tail; also the entries it has removed. -/
def removeTails {ν : Type} : Nat → List (Name × ν) → List (Name × ν) × List ν
  | 0, m => (m, [])
  | k + 1, m =>
    match removeTail m with
    | none => (m, [])
    | some (v, n) =>
      let rest := removeTails k n
      (rest.1, v :: rest.2)

/-! ## 1. `dataset_cache.c` -/

/-- `dataset_cache_new`. -/
def datasetCacheNew (fileId maxOpenDatasets : Int) : DatasetCache where
  maxOpenDatasets := maxOpenDatasets
  fileId := fileId
  map := []

/-- What `dataset_cache_open_dataset` returns, with the entries it has closed. -/
structure DatasetOpened where
  cache : DatasetCache
  datasetId : Int
  closed : List DatasetCacheEntry

/-- `dataset_cache_open_dataset`; `opened` is what `H5Dopen` returns. -/
def datasetCacheOpenDataset (cache : DatasetCache) (name : Name) (opened : Int) :
    Option DatasetOpened :=
  match get cache.map name with
  | some entry =>
    (makeHead cache.map name).map fun m =>
      { cache := { cache with map := m }, datasetId := entry.datasetId, closed := [] }
  | none =>
    if opened < 0 then some { cache := cache, datasetId := opened, closed := [] }
    else if ¬ 1 ≤ cache.maxOpenDatasets then none
    else
      let kept := evict cache.maxOpenDatasets cache.map
      (addHead kept.1 name { datasetId := opened }).map fun m =>
        { cache := { cache with map := m }, datasetId := opened, closed := kept.2 }

/-! ## 2. `file_cache.c` -/

/-- `file_cache_new`. -/
def fileCacheNew (maxOpenFiles maxOpenDatasets : Int) : FileCache where
  maxOpenFiles := maxOpenFiles
  maxOpenDatasets := maxOpenDatasets
  map := []
  nrCacheHits := 0
  nrCacheMisses := 0

/-- `file_cache_entry_new`. -/
def fileCacheEntryNew (fileId now maxOpenDatasets : Int) : FileCacheEntry where
  fileId := fileId
  lastAccessed := now
  dsCache := datasetCacheNew fileId maxOpenDatasets

/-- A file that is accessed. -/
def FileCacheEntry.access (entry : FileCacheEntry) (now : Int) : FileCacheEntry :=
  { entry with lastAccessed := now }

/-- A file with another dataset cache. -/
def FileCacheEntry.setDatasets (entry : FileCacheEntry) (dsCache : DatasetCache) :
    FileCacheEntry :=
  { entry with dsCache := dsCache }

/-- What `file_cache_open_file` returns, with the entries it has closed. -/
structure FileOpened where
  cache : FileCache
  entry : Option FileCacheEntry
  closed : List FileCacheEntry

/-- `file_cache_open_file`; `opened` is what `H5Fopen` returns. -/
def fileCacheOpenFile (fc : FileCache) (name : Name) (now opened : Int) : Option FileOpened :=
  match get fc.map name with
  | some entry =>
    (makeHead fc.map name).map fun m =>
      { cache := { fc with
          map := modify m name fun entry => entry.access now
          nrCacheHits := fc.nrCacheHits + 1 }
        entry := some (entry.access now)
        closed := [] }
  | none =>
    if opened < 0 then some { cache := fc, entry := none, closed := [] }
    else if ¬ 1 ≤ fc.maxOpenFiles then none
    else
      let kept := evict fc.maxOpenFiles fc.map
      let new := fileCacheEntryNew opened now fc.maxOpenDatasets
      (addHead kept.1 name new).map fun m =>
        { cache := { fc with map := m, nrCacheMisses := fc.nrCacheMisses + 1 }
          entry := some new
          closed := kept.2 }

/-- A cache in which one file has another dataset cache. -/
def FileCache.setDatasets (fc : FileCache) (fileName : Name) (dsCache : DatasetCache) : FileCache :=
  { fc with map := modify fc.map fileName fun entry => entry.setDatasets dsCache }

/-- `file_cache_open_dataset`, for the entry of a file in the cache: the cache after it, the
dataset, and the entries it has closed. -/
def fileCacheOpenDataset (fc : FileCache) (fileName name : Name) (opened : Int) :
    Option (FileCache × Int × List DatasetCacheEntry) :=
  match get fc.map fileName with
  | none => none
  | some entry =>
    (datasetCacheOpenDataset entry.dsCache name opened).map fun d =>
      (fc.setDatasets fileName d.cache, d.datasetId, d.closed)

/-- `file_cache_query`: `have_file` and `have_dataset`. -/
def fileCacheQuery (fc : FileCache) (fileName : Name) (datasetName : Option Name) : Int × Int :=
  match get fc.map fileName with
  | some file =>
    match datasetName with
    | some name => (1, if (get file.dsCache.map name).isSome then 1 else 0)
    | none => (1, 1)
  | none => (0, 0)

/-- `file_cache_expire_entries`, with the entries it has closed. -/
def fileCacheExpireEntries (fc : FileCache) (maxAge now : Int) : FileCache × List FileCacheEntry :=
  if maxAge ≤ 0 then (fc, [])
  else
    let nrExpired := fc.map.countP fun e => e.2.lastAccessed + maxAge < now
    let kept := removeTails nrExpired fc.map
    ({ fc with map := kept.1 }, kept.2)

/-! ## 3. A request -/

/-- `RESULT_FILE_OPENED`. -/
def resultFileOpened : Nat := 1

/-- `RESULT_DATASET_OPENED`. -/
def resultDatasetOpened : Nat := 2

/-- What the worker has to do with a request: the answers of `H5Fopen` and `H5Dopen`, and the
time. -/
structure Env where
  fileId : Int
  datasetId : Int
  now : Int

/-- The reader's side: its cache, and the counters it shares. -/
structure Reader where
  fc : FileCache
  sharedCacheHits : Nat
  sharedCacheMisses : Nat

/-- A reader whose counters are shared. -/
def Reader.share (r : Reader) : Reader :=
  { r with sharedCacheHits := r.fc.nrCacheHits, sharedCacheMisses := r.fc.nrCacheMisses }

/-- `do_read_dataset` up to its answer: the reader, and the answer. -/
def doReadDataset (r : Reader) (fileName datasetName : Name) (env : Env) : Option (Reader × Nat) :=
  match fileCacheOpenFile r.fc fileName env.now env.fileId with
  | none => none
  | some file =>
    match file.entry with
    | none => some ({ r with fc := file.cache }, 0)
    | some _ =>
      (fileCacheOpenDataset file.cache fileName datasetName env.datasetId).map fun dataset =>
        (({ r with fc := dataset.1 } : Reader).share,
          if 0 ≤ dataset.2.1 then resultFileOpened ||| resultDatasetOpened else resultFileOpened)

/-- `do_read_object` up to its answer. -/
def doReadObject (r : Reader) (fileName : Name) (env : Env) : Option (Reader × Nat) :=
  (fileCacheOpenFile r.fc fileName env.now env.fileId).map fun file =>
    (({ r with fc := file.cache } : Reader).share,
      if file.entry.isSome then resultFileOpened else 0)

/-- The end of `hdfstream_dataset_multi_slice_open`: the shadow after the answer. -/
def updateShadowDataset (fc : FileCache) (fileName datasetName : Name) (retcode : Nat)
    (now : Int) : Option FileCache :=
  if retcode &&& resultFileOpened ≠ 0 then
    match fileCacheOpenFile fc fileName now 0 with
    | none => none
    | some file =>
      if retcode &&& resultDatasetOpened ≠ 0 then
        (fileCacheOpenDataset file.cache fileName datasetName 0).map fun dataset => dataset.1
      else some file.cache
  else some fc

/-- The end of `hdfstream_object_open`. -/
def updateShadowObject (fc : FileCache) (fileName : Name) (retcode : Nat) (now : Int) :
    Option FileCache :=
  if retcode &&& resultFileOpened ≠ 0 then
    (fileCacheOpenFile fc fileName now 0).map fun file => file.cache
  else some fc

/-! ## 4. A worker and its shadow -/

/-- One worker. -/
structure State where
  reader : Reader
  shadow : FileCache

/-- What may happen next. `now` is the time in the library. -/
inductive Action where
  /-- `hdfstream_dataset_multi_slice_open`. -/
  | openDataset (fileName datasetName : Name) (env : Env) (now : Int)
  /-- `hdfstream_object_open`. -/
  | openObject (fileName : Name) (env : Env) (now : Int)
  /-- The worker has waited long enough for a command. -/
  | expire (maxAge now : Int)

/-- The step function. -/
def exec (s : State) : Action → Option State
  | .openDataset fileName datasetName env now =>
    match doReadDataset s.reader fileName datasetName env with
    | none => none
    | some (reader, retcode) =>
      (updateShadowDataset s.shadow fileName datasetName retcode now).map fun shadow =>
        { reader := reader, shadow := shadow }
  | .openObject fileName env now =>
    match doReadObject s.reader fileName env with
    | none => none
    | some (reader, retcode) =>
      (updateShadowObject s.shadow fileName retcode now).map fun shadow =>
        { reader := reader, shadow := shadow }
  | .expire maxAge now =>
    some { s with reader :=
      { s.reader with fc := (fileCacheExpireEntries s.reader.fc maxAge now).1 } }

/-- `hdfstream_new` and `reader_init`. -/
def start (maxOpenFiles maxOpenDatasets : Int) : State where
  reader :=
    { fc := fileCacheNew maxOpenFiles maxOpenDatasets
      sharedCacheHits := 0
      sharedCacheMisses := 0 }
  shadow := fileCacheNew maxOpenFiles maxOpenDatasets

/-- A worker and its shadow. -/
def machine (maxOpenFiles maxOpenDatasets : Int) : Machine State Action where
  init := start maxOpenFiles maxOpenDatasets
  exec := exec

end HdfStream.Cache
