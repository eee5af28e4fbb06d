/-
# The cache of responses

`streamObject` in `HDFStreamRequest.java` keeps the bodies of small responses under the path, the
object and the limits of the request, and serves later requests from there.  The cache may drop
entries at any time.

A stream on which `copyStreamAndReturnIfSmall` miscounts is kept wrongly, and served to everyone
(`wrappingStream_kept`).  If all streams fit, an entry is what an uncached request would have sent
(`responseCache_exact`).
-/
import HdfStream.Webapp.Request
import HdfStream.Webapp.StreamCopier

namespace HdfStream.Webapp

open Java Virtual

/-! ## 1. `streamObject` -/

structure CacheKey where
  path : JString
  object : JString
  maxDepth : Int
  dataSizeLimit : Int
deriving DecidableEq

/-- `request_cache`. -/
abbrev RequestCache := CacheKey → Option Bytes

/-- The calls of the C library: an `IOException`, or a stream. -/
structure HDFStreamCalls where
  openObject : (path object : JString) → (maxDepth bufferSize dataSizeLimit : Int) →
    Except JString DataStream
  openDatasetSlices : (path object : JString) → SliceInfo → (bufferSize : Int) →
    Except JString DataStream

/-- What `streamObject` throws. -/
inductive StreamError where
  | request (e : HDFStreamRequestException)
  | outOfMemory

/-- `catch (IOException e)`. -/
def CopyError.rethrow : CopyError → StreamError
  | .io message => .request ⟨scNotFound, message⟩
  | .outOfMemory => .outOfMemory

/-- What has been sent, the cache afterwards, and the end of the method. -/
structure Response where
  out : Bytes
  cache : RequestCache
  result : Except StreamError Unit

/-- `put`. -/
def RequestCache.put (cache : RequestCache) (key : CacheKey) (data : Bytes) : RequestCache :=
  fun key' => if key' = key then some data else cache key'

/-- A whole object: from the cache, or from the file. -/
def streamWholeObject (hs : HDFStreamCalls) (cache : RequestCache)
    (bufferSize maxCachedResponseSize : Int) (writeBody : Bool) (key : CacheKey) : Response :=
  match cache key with
  | some cachedData =>
    { out := if writeBody then cachedData else [], cache := cache, result := .ok () }
  | none =>
    match hs.openObject key.path key.object key.maxDepth bufferSize key.dataSizeLimit with
    | .error message =>
      { out := [], cache := cache, result := .error (.request ⟨scNotFound, message⟩) }
    | .ok stream =>
      if writeBody then
        let copied := copyStreamAndReturnIfSmall stream maxCachedResponseSize
        match copied.result with
        | .error e => { out := copied.out, cache := cache, result := .error e.rethrow }
        | .ok none => { out := copied.out, cache := cache, result := .ok () }
        | .ok (some data) =>
          { out := copied.out, cache := cache.put key data, result := .ok () }
      else { out := [], cache := cache, result := .ok () }

/-- Slices of a dataset. -/
def streamSlices (hs : HDFStreamCalls) (cache : RequestCache) (bufferSize : Int) (writeBody : Bool)
    (path object : JString) (slice : SliceInfo) : Response :=
  match hs.openDatasetSlices path object slice bufferSize with
  | .error message =>
    { out := [], cache := cache, result := .error (.request ⟨scNotFound, message⟩) }
  | .ok stream =>
    if writeBody then
      let copied := copyStream stream
      { out := copied.out, cache := cache
        result := match copied.result with
          | .ok _ => .ok ()
          | .error e => .error e.rethrow }
    else { out := [], cache := cache, result := .ok () }

/-- The response to a request that should not be here. -/
def internalError (cache : RequestCache) (message : String) : Response :=
  { out := [], cache := cache
    result := .error (.request ⟨scInternalServerError, lit message⟩) }

/-- The key of a request for a whole object. -/
def HDFStreamRequest.cacheKey (this : HDFStreamRequest) (file : VirtualFile) (object : JString) :
    CacheKey :=
  { path := file.filesystemPath, object := object, maxDepth := this.maxDepth
    dataSizeLimit := this.dataSizeLimit }

/-- `streamObject`. -/
def HDFStreamRequest.streamObject (this : HDFStreamRequest) (hs : Option HDFStreamCalls)
    (cache : RequestCache) (bufferSize maxCachedResponseSize : Int) (writeBody : Bool) : Response :=
  match hs with
  | none => internalError cache "Hdfstream library initialization failed"
  | some hs =>
    match this.object with
    | none => internalError cache "Null object name in streamObject!"
    | some object =>
      match this.file with
      | none => internalError cache "Null file in streamObject!"
      | some file =>
        match this.sliceInfo with
        | none =>
          streamWholeObject hs cache bufferSize maxCachedResponseSize writeBody
            (this.cacheKey file object)
        | some slice =>
          streamSlices hs cache bufferSize writeBody file.filesystemPath object slice

/-! ## 2. What the streams are -/

variable {bufferSize maxSize : Int} {body : CacheKey → Bytes}

/-- The pieces that `read` returns. -/
def DataStream.Split (bufferSize : Int) (stream : DataStream) : Prop :=
  ∀ p ∈ stream.pieces, 1 ≤ p.length ∧ (p.length : Int) ≤ bufferSize

/-- The library reads the object `body key`, whole or up to an exception. -/
def HDFStreamCalls.Serves (bufferSize : Int) (body : CacheKey → Bytes) (hs : HDFStreamCalls) :
    Prop :=
  ∀ (key : CacheKey) stream,
    hs.openObject key.path key.object key.maxDepth bufferSize key.dataSizeLimit = .ok stream →
      stream.Split bufferSize ∧ (stream.exception = none → stream.pieces.flatten = body key)

/-- All of its streams fit. -/
def HDFStreamCalls.Fit (bufferSize maxSize : Int) (hs : HDFStreamCalls) : Prop :=
  ∀ (key : CacheKey) stream,
    hs.openObject key.path key.object key.maxDepth bufferSize key.dataSizeLimit = .ok stream →
      stream.exception = none → Fits maxSize stream.pieces

/-- The entries are the bodies of the objects. -/
def RequestCache.Exact (body : CacheKey → Bytes) (cache : RequestCache) : Prop :=
  ∀ key data, cache key = some data → data = body key

theorem RequestCache.Exact.put {cache : RequestCache} (h : cache.Exact body) {key : CacheKey}
    {data : Bytes} (hdata : data = body key) : (cache.put key data).Exact body := by
  intro key' data' hget
  rw [RequestCache.put] at hget
  split at hget
  · rename_i heq
    rw [heq, ← Option.some.inj hget]
    exact hdata
  · exact h key' data' hget

/-- **A response keeps the cache exact.** -/
theorem streamWholeObject_exact (h0 : 0 ≤ maxSize) (hmax : maxSize < 2147483648)
    {hs : HDFStreamCalls} {cache : RequestCache} (hserves : hs.Serves bufferSize body)
    (hfit : hs.Fit bufferSize maxSize) (hcache : cache.Exact body) (writeBody : Bool)
    (key : CacheKey) :
    (streamWholeObject hs cache bufferSize maxSize writeBody key).cache.Exact body := by
  unfold streamWholeObject
  split
  · exact hcache
  · split
    · exact hcache
    · rename_i stream hstream
      split
      · dsimp only
        split
        · exact hcache
        · exact hcache
        · rename_i data hresult
          obtain ⟨hsplit, hbody⟩ := hserves key stream hstream
          obtain ⟨hnone, _⟩ := copyLoop_out hresult
          have hexact := (copiesExactly_iff h0 hmax fun p hp => (hsplit p hp).1).mpr
            (hfit key stream hstream hnone)
          refine hcache.put ?_
          rw [CopiesExactly, ← hnone] at hexact
          rw [hexact] at hresult
          rw [← hbody hnone]
          dsimp only at hresult
          split at hresult
          · cases hresult
          · exact (Option.some.inj (Except.ok.inj hresult)).symm
      · exact hcache

/-- The body that a request sends which is not served from the cache. -/
theorem streamWholeObject_out {hs : HDFStreamCalls} (hserves : hs.Serves bufferSize body)
    {cache : RequestCache} {key : CacheKey} (hcache : cache key = none)
    (h : (streamWholeObject hs cache bufferSize maxSize true key).result = .ok ()) :
    (streamWholeObject hs cache bufferSize maxSize true key).out = body key := by
  unfold streamWholeObject at h ⊢
  rw [hcache] at h ⊢
  dsimp only at h ⊢
  split at h
  · cases h
  · rename_i stream hstream
    obtain ⟨_, hbody⟩ := hserves key stream hstream
    rw [if_pos rfl] at h ⊢
    rcases hresult : (copyStreamAndReturnIfSmall stream maxSize).result with e | data
    · rw [hresult] at h
      cases h
    · obtain ⟨hnone, hout⟩ := copyLoop_out hresult
      have hcopied : (copyStreamAndReturnIfSmall stream maxSize).out = body key := by
        rw [← hbody hnone]
        exact hout
      rcases data with _ | data
      · exact hcopied
      · exact hcopied

/-! ## 3. Runs -/

/-- What happens to the cache. -/
inductive CacheEvent where
  | request (hreq : HDFStreamRequest) (hs : Option HDFStreamCalls) (writeBody : Bool)
  | evict (key : CacheKey)

/-- One event. -/
def CacheEvent.run (bufferSize maxSize : Int) (cache : RequestCache) : CacheEvent → RequestCache
  | .request hreq hs writeBody => (hreq.streamObject hs cache bufferSize maxSize writeBody).cache
  | .evict key => fun key' => if key' = key then none else cache key'

/-- The cache starts empty. -/
def emptyCache : RequestCache := fun _ => none

/-- The cache after some events. -/
def cacheAfter (bufferSize maxSize : Int) (events : List CacheEvent) : RequestCache :=
  events.foldl (CacheEvent.run bufferSize maxSize) emptyCache

/-- The library reads the objects `body`, in streams that fit. -/
def CacheEvent.Ok (bufferSize maxSize : Int) (body : CacheKey → Bytes) : CacheEvent → Prop
  | .request _ (some hs) _ => hs.Serves bufferSize body ∧ hs.Fit bufferSize maxSize
  | .request _ none _ => True
  | .evict _ => True

theorem CacheEvent.run_exact (h0 : 0 ≤ maxSize) (hmax : maxSize < 2147483648)
    {cache : RequestCache} (hcache : cache.Exact body) {e : CacheEvent}
    (he : e.Ok bufferSize maxSize body) : (e.run bufferSize maxSize cache).Exact body := by
  rcases e with ⟨hreq, hs, writeBody⟩ | key
  · rcases hs with _ | hs
    · exact hcache
    · obtain ⟨hserves, hfit⟩ := he
      unfold CacheEvent.run HDFStreamRequest.streamObject
      dsimp only
      split
      · exact hcache
      · split
        · exact hcache
        · split
          · exact streamWholeObject_exact h0 hmax hserves hfit hcache _ _
          · unfold streamSlices
            split
            · exact hcache
            · split
              · exact hcache
              · exact hcache
  · intro key' data hget
    rw [CacheEvent.run] at hget
    dsimp only at hget
    split at hget
    · cases hget
    · exact hcache key' data hget

theorem cacheAfter_exact (h0 : 0 ≤ maxSize) (hmax : maxSize < 2147483648) {events : List CacheEvent}
    (hevents : ∀ e ∈ events, e.Ok bufferSize maxSize body) :
    (cacheAfter bufferSize maxSize events).Exact body := by
  refine List.foldlRecOn events _ (fun key data hget => by cases hget) ?_
  intro cache hcache e he
  exact CacheEvent.run_exact h0 hmax hcache (hevents e he)

/-- **A copy is exact if and only if its stream fits; and if all streams fit, the cache holds what
an uncached request would have sent.** -/
theorem responseCache_exact (bufferSize maxSize : Int) (h0 : 0 ≤ maxSize)
    (hmax : maxSize < 2147483648) :
    (∀ pieces : List Bytes, (∀ p ∈ pieces, 1 ≤ p.length ∧ (p.length : Int) ≤ bufferSize) →
      (CopiesExactly maxSize pieces ↔ Fits maxSize pieces)) ∧
    ∀ (body : CacheKey → Bytes) (events : List CacheEvent),
      (∀ e ∈ events, e.Ok bufferSize maxSize body) →
        ∀ (hreq : HDFStreamRequest) (file : VirtualFile) (object : JString) (data : Bytes),
          cacheAfter bufferSize maxSize events (hreq.cacheKey file object) = some data →
            hreq.file = some file → hreq.object = some object → hreq.sliceInfo = none →
              ∀ hs : HDFStreamCalls, hs.Serves bufferSize body →
                (hreq.streamObject (some hs) emptyCache bufferSize maxSize true).result = .ok () →
                  (hreq.streamObject (some hs) emptyCache bufferSize maxSize true).out = data := by
  refine ⟨fun pieces hpieces => copiesExactly_iff h0 hmax fun p hp => (hpieces p hp).1, ?_⟩
  intro body events hevents hreq file object data hget hfile hobject hslice hs hserves hresult
  have hstream : hreq.streamObject (some hs) emptyCache bufferSize maxSize true =
      streamWholeObject hs emptyCache bufferSize maxSize true (hreq.cacheKey file object) := by
    rw [HDFStreamRequest.streamObject, hobject, hfile, hslice]
  rw [hstream] at hresult ⊢
  rw [cacheAfter_exact h0 hmax hevents _ _ hget]
  exact streamWholeObject_out hserves rfl hresult

/-- A file with one object of three bytes. -/
def smallFile : VirtualFile :=
  { virtualPath := lit "a.hdf5", filesystemPath := lit "/data/a.hdf5", length := 3
    lastModified := 0, mediaType := lit "application/x-hdf5" }

/-- A request for it. -/
def smallRequest : HDFStreamRequest :=
  { file := some smallFile, directory := none, object := some (lit "/"), maxDepth := 0
    dataSizeLimit := 100, sliceInfo := none }

/-- The library, with a buffer of two bytes. -/
def smallCalls : HDFStreamCalls :=
  { openObject := fun _ _ _ _ _ => .ok { pieces := [[1, 2], [3]], exception := none }
    openDatasetSlices := fun _ _ _ _ => .error (lit "not a dataset") }

theorem responseCache_exact_small :
    (CopiesExactly 10 [[1, 2], [3]] ↔ Fits 10 [[1, 2], [3]]) ∧
      (smallRequest.streamObject (some smallCalls) emptyCache 2 10 true).out = [1, 2, 3] := by
  have hserves : smallCalls.Serves 2 fun _ => [1, 2, 3] := by
    rintro key stream hstream
    rw [← Except.ok.inj hstream]
    exact ⟨by unfold DataStream.Split; decide, fun _ => rfl⟩
  have hfit : smallCalls.Fit 2 10 := by
    rintro key stream hstream _
    rw [← Except.ok.inj hstream]
    exact .inl (by decide)
  have hok : ∀ e ∈ [CacheEvent.request smallRequest (some smallCalls) true],
      e.Ok 2 10 fun _ => [1, 2, 3] := by
    intro e he
    rw [List.mem_singleton.mp he]
    exact ⟨hserves, hfit⟩
  obtain ⟨hcopy, hcache⟩ := responseCache_exact 2 10 (by decide) (by decide)
  exact ⟨hcopy _ (by decide), hcache _ _ hok smallRequest smallFile (lit "/") [1, 2, 3]
    (by decide +kernel) rfl rfl rfl smallCalls hserves rfl⟩

/-! ## 4. A counter that wraps -/

/-- 2^31 + 1 bytes. -/
def wrappingStream : List Bytes := List.replicate 3 (List.replicate 715827883 0)

/-- After 2^31 bytes too many the counter is positive again, and a part of the stream is returned
as the whole. -/
theorem wrappingStream_kept : ¬ CopiesExactly 0 wrappingStream := by
  have hlength : ∀ n : Nat, (List.replicate 3 (List.replicate n (0 : UInt8))).flatten.length =
      3 * n := by
    intro n
    simp only [List.replicate_succ (n := 2), List.replicate_succ (n := 1),
      List.replicate_succ (n := 0), List.replicate_zero, List.flatten_cons, List.flatten_nil,
      List.length_append, List.length_replicate, List.length_nil]
    omega
  have hpos : ∀ p ∈ wrappingStream, 0 < p.length := by
    intro p hp
    rw [List.eq_of_mem_replicate hp, List.length_replicate]
    decide
  rw [copiesExactly_iff (by decide) (by decide) hpos, Fits, wrappingStream, hlength]
  omega

end HdfStream.Webapp
