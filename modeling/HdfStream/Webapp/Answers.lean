/-
# Every answer is the right one

A request of the server is answered with a configuration that may have been replaced since, from a
cache that other users have filled, while other threads go on.  `answers_faithful` says that nothing
of this is seen: every answer is the one that the request has for itself, with the configuration it
has taken, and it depends on the parts of the tree only that its user can access.

The library reads what the files hold, whole or up to an exception, and no stream of it makes
`copyStreamAndReturnIfSmall` miscount.
-/
import HdfStream.Webapp.Configurations
import HdfStream.Webapp.Visibility

namespace HdfStream.Webapp

open Java Virtual

variable {cfg : ServerConfig} {root : VirtualDirectory} {s s' : Server} {a : Action} {t : Nat}
  {tr : List Action} {files : FileContents}

/-! ## 1. Right answers -/

/-- A part of a body, from its start. -/
inductive Body.Part : Body → Body → Prop where
  | tokens {part whole : List (Msgpack.Token JString)} (h : part <+: whole) :
    Body.Part (.tokens part) (.tokens whole)
  | bytes {part whole : Bytes} (h : part <+: whole) : Body.Part (.bytes part) (.bytes whole)

/-- The response to a request by itself. -/
def respondAlone (cfg : ServerConfig) (files : FileContents) (call : Call)
    (root : VirtualDirectory) : Except Refusal (Option Body) :=
  (call.construct cfg root).map fun hreq =>
    if call.writeBody then expectedBody cfg files call.inRole hreq else none

/-- How a request may end whose response is `whole`: with its error, with all of it, or with a part
of it and an exception. -/
inductive Outcome.Of (whole : Except Refusal (Option Body)) : Outcome → Prop where
  | refused {r : Refusal} (h : whole = .error r) : Outcome.Of whole (.refused r)
  | complete {sent : Option Body} (h : whole = .ok sent) : Outcome.Of whole (.complete sent)
  | broken {sent body : Option Body} {failure : Failure} (h : whole = .ok body)
    (hsent : ∀ part ∈ sent, ∃ all ∈ body, part.Part all) (hfailure : failure ≠ .nullPointer) :
    Outcome.Of whole (.broken sent failure)

/-- The outcome is one of the request by itself. -/
def Faithful (cfg : ServerConfig) (files : FileContents) (call : Call) (root : VirtualDirectory)
    (outcome : Outcome) : Prop :=
  outcome.Of (respondAlone cfg files call root)

/-- The library reads what the files hold. -/
structure HDFStreamCalls.Reads (bufferSize : Int) (files : FileContents) (hs : HDFStreamCalls) :
    Prop where
  serves : hs.Serves bufferSize files.whole
  part : ∀ (key : CacheKey) stream,
    hs.openObject key.path key.object key.maxDepth bufferSize key.dataSizeLimit = .ok stream →
      stream.pieces.flatten <+: files.whole key
  slices : ∀ path object slice stream,
    hs.openDatasetSlices path object slice bufferSize = .ok stream →
      stream.pieces.flatten <+: files.slices path object slice ∧
        (stream.exception = none → stream.pieces.flatten = files.slices path object slice)

/-- What is asked of the library in a step. -/
def Action.Ok (cfg : ServerConfig) (files : FileContents) : Action → Prop
  | .read _ hs _ =>
    hs.Reads cfg.bufferSize files ∧ hs.Fit cfg.bufferSize cfg.maxCachedResponseSize
  | _ => True

theorem Body.part_take (body : Body) (n : Nat) : (body.take n).Part body := by
  cases body with
  | tokens calls => exact .tokens (List.take_prefix n calls)
  | bytes data => exact .bytes (List.take_prefix n data)

/-- What a copy has written is the beginning of the stream. -/
theorem copyLoop_begins (exception : Option JString) (pieces : List Bytes) (st : Copying) :
    (copyLoop exception pieces st).out <+: st.out ++ pieces.flatten := by
  induction pieces generalizing st with
  | nil =>
    rw [List.flatten_nil, List.append_nil]
    exact List.prefix_rfl
  | cons buf pieces ih =>
    rw [copyLoop, List.flatten_cons, ← List.append_assoc]
    dsimp only
    split
    · split
      · exact List.prefix_append _ _
      · exact ih _
    · rename_i hempty
      have hnil : buf = [] := List.length_eq_zero_iff.mp (Nat.eq_zero_of_not_pos hempty)
      rw [hnil, List.append_nil]
      exact ih st

section Outcomes

variable {call : Call} {hreq : HDFStreamRequest}

theorem respondAlone_ok (h : call.construct cfg root = .ok hreq) :
    respondAlone cfg files call root =
      .ok (if call.writeBody then expectedBody cfg files call.inRole hreq else none) := by
  rw [respondAlone, h]
  rfl

theorem respondAlone_body (h : call.construct cfg root = .ok hreq)
    (hwrite : call.writeBody = true) {body : Body}
    (hbody : expectedBody cfg files call.inRole hreq = some body) :
    respondAlone cfg files call root = .ok (some body) := by
  rw [respondAlone_ok h, if_pos hwrite, hbody]

theorem noBody_faithful (h : call.construct cfg root = .ok hreq)
    (hwrite : ¬ call.writeBody = true) : Faithful cfg files call root (.complete none) :=
  .complete (by rw [respondAlone_ok h, if_neg hwrite])

theorem sendBody_faithful (h : call.construct cfg root = .ok hreq) {body : Body}
    (hbody : expectedBody cfg files call.inRole hreq = some body) (failsAfter : Option Nat) :
    Faithful cfg files call root (sendBody call.writeBody body failsAfter) := by
  unfold sendBody
  split
  · rename_i hwrite
    have hwhole := respondAlone_body h hwrite hbody
    cases failsAfter with
    | none => exact .complete hwhole
    | some n =>
      refine .broken hwhole (fun part hpart => ?_) fun e => by cases e
      rw [← Option.some.inj hpart]
      exact ⟨body, rfl, body.part_take n⟩
  · rename_i hwrite
    exact noBody_faithful h hwrite

theorem sendCopied_faithful {α : Type} (h : call.construct cfg root = .ok hreq)
    (hwrite : call.writeBody = true) {whole : Bytes}
    (hbody : expectedBody cfg files call.inRole hreq = some (.bytes whole)) {copied : Copied α}
    (hpart : copied.out <+: whole) (hwhole : ∀ x, copied.result = .ok x → copied.out = whole)
    (failsAfter : Option Nat) : Faithful cfg files call root (sendCopied copied failsAfter) := by
  have halone := respondAlone_body h hwrite hbody
  unfold sendCopied
  split
  · rename_i n
    refine .broken halone (fun part hsent => ?_) fun e => by cases e
    rw [← Option.some.inj hsent]
    exact ⟨_, rfl, .bytes ((List.take_prefix n _).trans hpart)⟩
  · split
    · rename_i x hresult
      exact .complete (by rw [halone, hwhole x hresult])
    · refine .broken halone (fun part hsent => ?_) fun e => by cases e
      rw [← Option.some.inj hsent]
      exact ⟨_, rfl, .bytes hpart⟩

theorem error_faithful (h : call.construct cfg root = .ok hreq) (e : StreamError) :
    Faithful cfg files call root (.broken none (.stream e)) :=
  .broken (respondAlone_ok h) (fun _ hsent => by cases hsent) fun e => by cases e

end Outcomes

/-! ## 2. The invariant -/

/-- The request of a job has been constructed. -/
def Job.Constructed (cfg : ServerConfig) (job : Job) : Prop :=
  job.call.construct cfg job.root = .ok job.hreq

/-- What a thread has so far is right. -/
def ThreadPc.Right (cfg : ServerConfig) (files : FileContents) : ThreadPc → Prop
  | .acquire job | .waiting job | .respond job => job.Constructed cfg
  | .read job file object =>
    job.Constructed cfg ∧ job.hreq.file = some file ∧ job.hreq.object = some object
  | .put job key data sent =>
    data = files.whole key ∧ Faithful cfg files job.call job.root sent
  | .release job outcome => Faithful cfg files job.call job.root outcome
  | _ => True

/-- A configuration that was loaded. -/
structure RootOk (d : VirtualDirectory) : Prop where
  all : d.All DirectoryOk
  access : ∀ inRole, canAccess inRole d = true

theorem streamResponse_right {cache : RequestCache} (hcache : cache.Exact files.whole) {job : Job}
    (hroot : RootOk job.root) (h : job.Constructed cfg) (failsAfter : Option Nat) :
    (streamResponse cfg cache job failsAfter).Right cfg files := by
  obtain ⟨_, hdirectory⟩ := construct_directory hroot.all (hroot.access _) h
  unfold streamResponse
  split
  · rename_i hfile
    split
    · rename_i directory hdir
      exact sendBody_faithful h (by simp only [expectedBody, hfile, hdir, Option.map_some]) _
    · rename_i hdir
      rw [hdir] at hdirectory
      exact absurd (hdirectory hfile) Bool.false_ne_true
  · rename_i file hfile
    split
    · rename_i hobject
      exact sendBody_faithful h (by simp only [expectedBody, hfile, hobject]) _
    · rename_i object hobject
      split
      · split
        · exact ⟨h, hfile, hobject⟩
        · rename_i hslice
          split
          · rename_i cachedData hget
            refine sendBody_faithful h ?_ _
            rw [hcache _ _ hget]
            simp only [expectedBody, hfile, hobject, hslice]
          · exact ⟨h, hfile, hobject⟩
      · exact error_faithful h _

/-- What `copyStreamAndReturnIfSmall` returns of a stream that fits is the whole object. -/
theorem copied_small (hsize : 0 ≤ cfg.maxCachedResponseSize ∧
      cfg.maxCachedResponseSize < 2147483648) {hs : HDFStreamCalls}
    (hreads : hs.Reads cfg.bufferSize files)
    (hfit : hs.Fit cfg.bufferSize cfg.maxCachedResponseSize) {key : CacheKey} {stream : DataStream}
    (hstream : hs.openObject key.path key.object key.maxDepth cfg.bufferSize key.dataSizeLimit =
      .ok stream) {data : Bytes}
    (h : (copyStreamAndReturnIfSmall stream cfg.maxCachedResponseSize).result = .ok (some data)) :
    data = files.whole key := by
  obtain ⟨hsplit, hwhole⟩ := hreads.serves key stream hstream
  obtain ⟨hnone, _⟩ := copyLoop_out h
  have hexact := (copiesExactly_iff hsize.1 hsize.2 fun p hp => (hsplit p hp).1).mpr
    (hfit key stream hstream hnone)
  rw [CopiesExactly, ← hnone] at hexact
  rw [hexact] at h
  rw [← hwhole hnone]
  dsimp only at h
  split at h
  · cases h
  · exact (Option.some.inj (Except.ok.inj h)).symm

theorem streamObject_right (hsize : 0 ≤ cfg.maxCachedResponseSize ∧
      cfg.maxCachedResponseSize < 2147483648) {hs : HDFStreamCalls}
    (hreads : hs.Reads cfg.bufferSize files)
    (hfit : hs.Fit cfg.bufferSize cfg.maxCachedResponseSize) {job : Job} {file : VirtualFile}
    {object : JString} (h : job.Constructed cfg) (hfile : job.hreq.file = some file)
    (hobject : job.hreq.object = some object) (failsAfter : Option Nat) :
    (streamObject cfg hs job file object failsAfter).Right cfg files := by
  unfold streamObject
  split
  · rename_i slice hslice
    have hbody : expectedBody cfg files job.call.inRole job.hreq =
        some (.bytes (files.slices file.filesystemPath object slice)) := by
      simp only [expectedBody, hfile, hobject, hslice]
    split
    · exact error_faithful h _
    · rename_i stream hstream
      obtain ⟨hpart, hwhole⟩ := hreads.slices _ _ _ _ hstream
      split
      · rename_i hwrite
        refine sendCopied_faithful h hwrite hbody hpart (fun x hx => hwhole ?_) _
        rw [copyStream] at hx
        dsimp only at hx
        split at hx
        · assumption
        · cases hx
      · rename_i hwrite
        exact noBody_faithful h hwrite
  · rename_i hslice
    have hbody : expectedBody cfg files job.call.inRole job.hreq =
        some (.bytes (files.whole (job.hreq.cacheKey file object))) := by
      simp only [expectedBody, hfile, hobject, hslice]
    dsimp only
    split
    · exact error_faithful h _
    · rename_i stream hstream
      obtain ⟨_, hwhole⟩ := hreads.serves (job.hreq.cacheKey file object) stream hstream
      have hpart := hreads.part (job.hreq.cacheKey file object) stream hstream
      split
      · rename_i hwrite
        have hsent : ∀ failsAfter, Faithful cfg files job.call job.root (sendCopied
            (copyStreamAndReturnIfSmall stream cfg.maxCachedResponseSize) failsAfter) := by
          refine sendCopied_faithful h hwrite hbody ?_ fun x hx => ?_
          · exact (copyLoop_begins _ _ _).trans hpart
          · obtain ⟨hnone, hout⟩ := copyLoop_out hx
            exact hout.trans (hwhole hnone)
        split
        · rename_i data hresult
          exact ⟨copied_small hsize hreads hfit hstream hresult, hsent none⟩
        · exact hsent _
      · rename_i hwrite
        exact noBody_faithful h hwrite

/-- The cache, the threads and the answers are right. -/
structure AllRight (cfg : ServerConfig) (files : FileContents) (s : Server) : Prop where
  cache : s.cache.Exact files.whole
  thread : ∀ t, (s.thread t).Right cfg files
  log : ∀ answer ∈ s.log, Faithful cfg files answer.call answer.root answer.outcome

/-- A thread moves. -/
theorem AllRight.move (h : AllRight cfg files s) {pc : ThreadPc} (hcache : s'.cache = s.cache)
    (hlog : s'.log = s.log) (hthread : s'.thread = Function.update s.thread t pc)
    (hpc : pc.Right cfg files) : AllRight cfg files s' where
  cache := hcache ▸ h.cache
  thread u := by
    rw [hthread, Function.update_apply]
    split
    · exact hpc
    · exact h.thread u
  log := hlog ▸ h.log

/-- A request ends. -/
theorem AllRight.answer (h : AllRight cfg files s) {answer : Answer} (hcache : s'.cache = s.cache)
    (hlog : s'.log = s.log ++ [answer]) (hthread : s'.thread = Function.update s.thread t .outside)
    (hanswer : Faithful cfg files answer.call answer.root answer.outcome) :
    AllRight cfg files s' where
  cache := hcache ▸ h.cache
  thread u := by
    rw [hthread, Function.update_apply]
    split
    · trivial
    · exact h.thread u
  log answer' hmem := by
    rw [hlog] at hmem
    rcases List.mem_append.mp hmem with hmem | hmem
    · exact h.log answer' hmem
    · rw [List.mem_singleton.mp hmem]
      exact hanswer

/-- **One step.**  What was right stays right, and what is added is right. -/
theorem ThreadStep.allRight (hsize : 0 ≤ cfg.maxCachedResponseSize ∧
      cfg.maxCachedResponseSize < 2147483648)
    (hroots : ∀ call root, (s.thread t).pending = some (call, root) → RootOk root)
    (hok : a.Ok cfg files) (h : AllRight cfg files s) (hstep : ThreadStep cfg s t a s') :
    AllRight cfg files s' := by
  have hright : ∀ {pc : ThreadPc}, s.thread t = pc → pc.Right cfg files := by
    intro pc hpc
    rw [← hpc]
    exact h.thread t
  cases hstep with
  | request call hpc => exact h.move rfl rfl rfl trivial
  | refuse hpc hr => exact h.answer rfl rfl rfl (.refused (by rw [respondAlone, hr]; rfl))
  | construct hpc hr => exact h.move rfl rfl rfl hr
  | unlimited hpc hmax =>
    have hconstructed := hright hpc
    exact h.move rfl rfl rfl hconstructed
  | computeIfAbsent hpc hmax =>
    have hconstructed := hright hpc
    exact h.move rfl rfl rfl hconstructed
  | acquire hpc hp hpos =>
    have hconstructed := hright hpc
    exact h.move rfl rfl rfl hconstructed
  | @respond failsAfter job hpc =>
    have hroot := hroots job.call job.root (by rw [hpc]; rfl)
    exact h.move rfl rfl rfl (streamResponse_right h.cache hroot (hright hpc) failsAfter)
  | read hs failsAfter hpc =>
    obtain ⟨hconstructed, hfile, hobject⟩ := hright hpc
    exact h.move rfl rfl rfl
      (streamObject_right hsize hok.1 hok.2 hconstructed hfile hobject failsAfter)
  | @put job key data sent hpc =>
    obtain ⟨hdata, hsent⟩ := hright hpc
    have hmoved : AllRight cfg files (s.setThread t (.release job sent)) :=
      h.move rfl rfl rfl hsent
    exact ⟨h.cache.put hdata, hmoved.thread, hmoved.log⟩
  | unlimitedRelease hpc hmax => exact h.answer rfl rfl rfl (hright hpc)
  | release hpc hmax hp => exact h.answer rfl rfl rfl (hright hpc)
  | reloadBusy hpc hlock => exact h
  | reload hpc hlock => exact h.move rfl rfl rfl trivial
  | readFails hpc hn hlines => exact h.move rfl rfl rfl trivial
  | readFile hpc hn hlines => exact h.move rfl rfl rfl trivial
  | publish hpc hn => exact h.move rfl rfl rfl trivial
  | unlock hpc => exact h.move rfl rfl rfl trivial

/-! ## 3. Runs -/

theorem addFromReader_rootOk {lines : List JString} {vdir : VirtualDirectory}
    (h : addFromReader lines newRoot = .ok vdir) : RootOk vdir := by
  obtain ⟨es, _, hbuilt⟩ := addFromReader_built h
  refine ⟨hbuilt.ok, fun inRole => ?_⟩
  rw [canAccess, hbuilt.requiredRoles_eq]
  rfl

/-- The configurations of the atomic server were loaded. -/
theorem atomicServer_rootOk (hroot : RootOk root) (ops : List Op) :
    RootOk (atomicServer root ops).root ∧ ∀ x ∈ (atomicServer root ops).seen, RootOk x.2 := by
  induction ops using List.reverseRecOn with
  | nil => exact ⟨hroot, fun x hx => absurd hx List.not_mem_nil⟩
  | append_singleton ops op ih =>
    rw [atomicServer_snoc]
    obtain ⟨ihroot, ihseen⟩ := ih
    cases op with
    | request call =>
      refine ⟨ihroot, fun x hx => ?_⟩
      rcases List.mem_append.mp hx with hx | hx
      · exact ihseen x hx
      · rw [List.mem_singleton.mp hx]
        exact ihroot
    | reload contents =>
      unfold AtomicServer.next
      dsimp only
      split
      · rename_i vdir hload
        rw [loadAll_eq] at hload
        exact ⟨addFromReader_rootOk hload, ihseen⟩
      · exact ⟨ihroot, ihseen⟩

/-- The requests of a run were taken with configurations that were loaded. -/
theorem pending_rootOk (hroot : RootOk root) (h : (serverMachine cfg root).run tr = some s) :
    (∀ t < cfg.nrThreads, ∀ call vdir, (s.thread t).pending = some (call, vdir) → RootOk vdir) ∧
      ∀ answer ∈ s.log, RootOk answer.root := by
  obtain ⟨hanswered, _⟩ := linear_run h
  have hseen := (atomicServer_rootOk hroot (history tr).ops).2
  constructor
  · intro t ht call vdir hpending
    refine hseen (call, vdir) (hanswered.seen.mem_iff.mpr (List.mem_append_right _ ?_))
    exact List.mem_filterMap.mpr ⟨t, List.mem_range.mpr ht, hpending⟩
  · intro answer hmem
    refine hseen (answer.call, answer.root) (hanswered.seen.mem_iff.mpr
      (List.mem_append_left _ ?_))
    exact List.mem_map.mpr ⟨answer, hmem, rfl⟩

theorem allRight_run (hsize : 0 ≤ cfg.maxCachedResponseSize ∧
      cfg.maxCachedResponseSize < 2147483648) (hroot : RootOk root)
    (h : (serverMachine cfg root).run tr = some s) (hok : ∀ a ∈ tr, a.Ok cfg files) :
    AllRight cfg files s := by
  refine (serverMachine cfg root).run_induction
    (I := fun tr s => (∀ a ∈ tr, a.Ok cfg files) → AllRight cfg files s) ?_ ?_ tr s h hok
  · intro _
    constructor
    · intro key data hget
      cases hget
    · exact fun _ => trivial
    · exact fun answer hmem => absurd hmem List.not_mem_nil
  · intro tr s a s' hrun hs hstep hok
    have hright := hs fun a' hmem => hok a' (List.mem_append_left _ hmem)
    have haction := hok a (List.mem_append_right _ (List.mem_singleton_self a))
    rcases serverStep_cases hstep with ⟨t, ht, _, hstep⟩ | ⟨key, rfl, rfl⟩
    · exact hstep.allRight hsize ((pending_rootOk hroot hrun).1 t ht) haction hright
    · refine ⟨fun key' data hget => ?_, hright.thread, hright.log⟩
      dsimp only at hget
      split at hget
      · cases hget
      · exact hright.cache key' data hget

/-- The response depends only on what the user can see. -/
theorem respondAlone_visible (cfg : ServerConfig) (files : FileContents) (call : Call)
    (hroot : RootOk root) : respondAlone cfg files call root =
      respondAlone cfg files call.asEveryone (visible call.inRole root) := by
  rw [respondAlone, respondAlone, construct_visible cfg call hroot.all]
  have hwrite : call.asEveryone.writeBody = call.writeBody := rfl
  have hrole : call.asEveryone.inRole = everyone := rfl
  cases hconstruct : call.construct cfg root with
  | error r => simp only [Except.map]
  | ok hreq =>
    have hbody := expectedBody_visible files hroot.all (hroot.access _) hconstruct
    simp only [Except.map, hwrite, hrole, hbody]

/-- **Every answer is the right one, and depends only on what the user can see.**  However the
requests, the reloads and the evictions interleave, a request ends as it would by itself with the
configuration it has taken; and the same request of a user with all roles would end so with the
tree that has only what this user can see. -/
theorem answers_faithful (cfg : ServerConfig) (files : FileContents)
    (hsize : 0 ≤ cfg.maxCachedResponseSize ∧ cfg.maxCachedResponseSize < 2147483648)
    {lines : List JString} {root : VirtualDirectory}
    (hroot : addFromReader lines newRoot = .ok root) {tr : List Action} {s : Server}
    (h : (serverMachine cfg root).run tr = some s) (hok : ∀ a ∈ tr, a.Ok cfg files) :
    ∀ answer ∈ s.log, answer.outcome.Of (respondAlone cfg files answer.call answer.root) ∧
      respondAlone cfg files answer.call answer.root = respondAlone cfg files
        answer.call.asEveryone (visible answer.call.inRole answer.root) := by
  have hrootOk := addFromReader_rootOk hroot
  intro answer hmem
  exact ⟨(allRight_run hsize hrootOk h hok).log answer hmem,
    respondAlone_visible cfg files answer.call ((pending_rootOk hrootOk h).2 answer hmem)⟩

/-- A request for the object of `smallFile`. -/
def getSmall (identifier : JString) : Call :=
  { identifier := some identifier, inRole := fun _ => false
    request := .doGet { pathInfo := some (lit "/a.hdf5"), object := some (lit "/")
                        maxDepth := none, dataSizeLimit := none, slice := none } }

/-- The object is read for one user, kept, and sent to another. -/
def keptRun : List Action :=
  [.request 0 (getSmall (lit "a")), .construct 0, .computeIfAbsent 0, .acquire 0, .respond 0 none,
    .read 0 smallCalls none, .put 0, .release 0, .request 1 (getSmall (lit "b")), .construct 1,
    .computeIfAbsent 1, .acquire 1, .respond 1 none, .release 1]

theorem answers_faithful_kept :
    ∃ root s, addFromReader [lit "a.hdf5,/data/a.hdf5,3,0,application/x-hdf5"] newRoot = .ok root ∧
      (serverMachine smallConfig root).run keptRun = some s ∧ s.log.length = 2 ∧
      ∀ answer ∈ s.log, answer.outcome.Of (respondAlone smallConfig
        { whole := fun _ => [1, 2, 3], slices := fun _ _ _ => [] } answer.call answer.root) := by
  have hrun : ((addFromReader [lit "a.hdf5,/data/a.hdf5,3,0,application/x-hdf5"]
      newRoot).toOption.bind fun root => ((serverMachine smallConfig root).run keptRun).map
        fun s => s.log.length) = some 2 := by decide +kernel
  obtain ⟨root, hroot, hs⟩ := Option.bind_eq_some_iff.mp hrun
  obtain ⟨s, hs, hlength⟩ := Option.map_eq_some_iff.mp hs
  have hroot := ok_of_toOption hroot
  refine ⟨root, s, hroot, hs, hlength, fun answer hmem => ?_⟩
  refine (answers_faithful smallConfig _ (by decide) hroot hs (fun a ha => ?_) answer hmem).1
  cases a with
  | read t hs failsAfter =>
    simp only [keptRun, List.mem_cons, reduceCtorEq, List.not_mem_nil, false_or, or_false,
      Action.read.injEq] at ha
    obtain ⟨rfl, rfl, rfl⟩ := ha
    refine ⟨⟨?_, ?_, ?_⟩, ?_⟩
    · intro key stream hstream
      rw [← Except.ok.inj hstream]
      exact ⟨by unfold DataStream.Split; decide, fun _ => rfl⟩
    · intro key stream hstream
      rw [← Except.ok.inj hstream]
      exact List.prefix_rfl
    · intro path object slice stream hstream
      cases hstream
    · intro key stream hstream _
      rw [← Except.ok.inj hstream]
      exact .inl (by decide)
  | _ => trivial

end HdfStream.Webapp
