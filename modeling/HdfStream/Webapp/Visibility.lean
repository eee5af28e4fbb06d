/-
# What a request can see

A request is constructed from the virtual directory and the roles of the user, and a directory is
listed for these roles.  Both give the same for a user with all roles and the tree without the
directories the user cannot access: the request and its errors (`construct_visible`), and the whole
of what is sent (`expectedBody_visible`).
-/
import HdfStream.Webapp.Server

namespace HdfStream.Webapp

open Java LinkedMap Msgpack Virtual

/-! ## 1. Directories -/

theorem getMetadata_visible (metadata : JString → DirectoryMetadata) (inRole : JString → Bool)
    (d : VirtualDirectory) : getMetadata metadata (visible inRole d) = getMetadata metadata d := by
  rw [getMetadata, getMetadata, visible, Trie.val_prune]

theorem description_visible (metadata : JString → DirectoryMetadata) (inRole : JString → Bool)
    (d : VirtualDirectory) : description metadata (visible inRole d) = description metadata d :=
  congrArg (fun md => md.bind DirectoryMetadata.description)
    (getMetadata_visible metadata inRole d)

theorem labels_visible (metadata : JString → DirectoryMetadata) (inRole : JString → Bool)
    (d : VirtualDirectory) : labels metadata (visible inRole d) = labels metadata d :=
  congrArg (fun md => md.bind DirectoryMetadata.labels) (getMetadata_visible metadata inRole d)

/-- The listing of a directory is that of the directory in the tree the user sees. -/
theorem listing_visible {metadata : JString → DirectoryMetadata} {inRole : JString → Bool}
    {d : VirtualDirectory} (hd : d.All Trie.UniqueNames) (hacc : canAccess inRole d = true)
    (depth : Nat) :
    listing metadata (labels metadata) everyone depth (visible inRole d) =
      listing metadata (labels metadata) inRole depth d := by
  induction depth generalizing d with
  | zero =>
    rw [listing, listing, getTotalSize_visible hacc, getFiles_visible hacc,
      getDirectories_visible hd.root hacc, List.map_map, description_visible,
      labels_visible]
    rfl
  | succ depth ih =>
    have hsub : ∀ entry ∈ getDirectories inRole d,
        listing metadata (labels metadata) everyone depth (visible inRole entry.2) =
          listing metadata (labels metadata) inRole depth entry.2 := by
      intro entry hentry
      obtain ⟨hget, hsubacc⟩ := (mem_getDirectories hd.root hacc).mp hentry
      exact ih (hd.child (mem_of_get hget)) hsubacc
    rw [listing, listing, getTotalSize_visible hacc, getFiles_visible hacc,
      getDirectories_visible hd.root hacc, List.map_map, description_visible,
      labels_visible]
    refine congrArg (fun subdirs => Value.map [_, _, _, _, _, (_, Value.map subdirs)]) ?_
    exact List.map_congr_left fun entry hentry => congrArg (Prod.mk _) (hsub entry hentry)

theorem packDirectory_visible (metadata : JString → DirectoryMetadata) {inRole : JString → Bool}
    {d : VirtualDirectory} (hd : d.All Trie.UniqueNames) (hacc : canAccess inRole d = true)
    (maxDepth : Int) : packDirectory metadata (visible inRole d) maxDepth everyone =
      packDirectory metadata d maxDepth inRole := by
  rw [packDirectory_eq, packDirectory_eq, listing_visible hd hacc]

/-- The directory that a path leads to is one the user can access, and if it leads to no file there
is a directory. -/
theorem resolvePath_directory {inRole : JString → Bool} {d : VirtualDirectory}
    (hd : d.All DirectoryOk) {path : JString} {info : VirtualPathInfo}
    (h : resolvePath path inRole d = .ok info) :
    (∀ sub ∈ info.directory, sub.All DirectoryOk ∧ canAccess inRole sub = true) ∧
      (info.file = none → info.directory.isSome) := by
  induction hlen : path.length using Nat.strong_induction_on generalizing path d with
  | _ len ih =>
    subst hlen
    rw [resolvePath_eq] at h
    split at h
    · cases h
    · split at h
      · cases h
      · rename_i remainder _
        split at h
        · cases h
        · rename_i hsome
          split at h
          · cases h
          · rename_i hacc
            cases h
            refine ⟨fun sub hsub => ?_, fun hfile => ?_⟩
            · have hget : get d.directories remainder = some sub := hsub
              rw [hget, Option.any_some, Bool.not_eq_true', Bool.not_eq_false] at hacc
              exact ⟨hd.child (mem_of_get hget), hacc⟩
            · exact Option.isSome_iff_ne_none.mpr fun hnone => hsome
                ⟨Option.isNone_iff_eq_none.mpr hnone, Option.isNone_iff_eq_none.mpr hfile⟩
      · rename_i name remainder hsplit
        split at h
        · cases h
        · rename_i sub hsub
          split at h
          · cases h
          · rename_i hacc
            rw [Bool.not_eq_true', Bool.not_eq_false] at hacc
            have hall := hd.child (mem_of_get hsub)
            split at h
            · cases h
              refine ⟨fun sub' hsub' => ?_, fun hfile => by cases hfile⟩
              cases hsub'
              exact ⟨hall, hacc⟩
            · have hlt := Nat.lt_of_lt_of_le (splitPath_length_lt hsplit)
                (stripSlash_length_le path)
              exact ih _ hlt hall h rfl

/-! ## 2. Requests -/

def HDFStreamRequest.visible (inRole : JString → Bool) (hreq : HDFStreamRequest) :
    HDFStreamRequest :=
  { hreq with directory := hreq.directory.map (Virtual.visible inRole) }

/-- The same request of a user with all roles. -/
def Call.asEveryone (call : Call) : Call := { call with inRole := everyone }

variable {cfg : ServerConfig} {inRole : JString → Bool} {root : VirtualDirectory}

theorem lookUp_visible (hroot : root.All DirectoryOk) (path : Option JString) :
    lookUp (visible inRole root) everyone path =
      (lookUp root inRole path).map fun x => (x.1, x.2.map (visible inRole)) := by
  unfold lookUp
  split
  · rfl
  · rw [resolvePath_visible hroot]
    cases resolvePath (path.getD []) inRole root with
    | error e => rfl
    | ok info => rfl

theorem new_visible (inRole : JString → Bool) (hroot : root.All DirectoryOk)
    (path object : Option JString)
    (maxDepth dataSizeLimit : Int) (slice : Option SliceInfo) (maxHdf5NameLength : Int) :
    HDFStreamRequest.new (visible inRole root) everyone path object maxDepth dataSizeLimit slice
        maxHdf5NameLength =
      (HDFStreamRequest.new root inRole path object maxDepth dataSizeLimit slice
        maxHdf5NameLength).map (HDFStreamRequest.visible inRole) := by
  unfold HDFStreamRequest.new
  rw [lookUp_visible hroot]
  cases checkLimits path maxDepth dataSizeLimit maxHdf5NameLength with
  | error e => rfl
  | ok u =>
    cases lookUp root inRole path with
    | error e => rfl
    | ok x =>
      cases checkObject object slice maxHdf5NameLength with
      | error e => rfl
      | ok u => rfl

theorem contextConstruct_visible (cfg : ServerConfig) (call : Call) (hroot : root.All DirectoryOk)
    (pathInfo object : Option JString) (maxDepth dataSizeLimit : Int) (slice : Option SliceInfo) :
    (call.asEveryone.context cfg (visible call.inRole root)).construct pathInfo object maxDepth
        dataSizeLimit slice =
      ((call.context cfg root).construct pathInfo object maxDepth dataSizeLimit slice).map
        (HDFStreamRequest.visible call.inRole) := by
  have hnew := new_visible call.inRole hroot (pathOf pathInfo) object maxDepth
    dataSizeLimit slice cfg.maxHdf5NameLength
  simp only [ServletContext.construct, Call.context, Call.asEveryone, hnew]
  cases HDFStreamRequest.new root call.inRole (pathOf pathInfo) object maxDepth dataSizeLimit slice
    cfg.maxHdf5NameLength with
  | error e => rfl
  | ok hreq => rfl

theorem doHeadOrGet_visible (cfg : ServerConfig) (call : Call) (hroot : root.All DirectoryOk)
    (request : GetRequest) :
    (call.asEveryone.context cfg (visible call.inRole root)).doHeadOrGet request =
      ((call.context cfg root).doHeadOrGet request).map (HDFStreamRequest.visible call.inRole) := by
  unfold ServletContext.doHeadOrGet
  cases intParameter request.maxDepth 0 "Unable to interpret max_depth parameter as integer" with
  | error r => rfl
  | ok maxDepth =>
    cases intParameter request.dataSizeLimit intMax
      "Unable to interpret data_size_limit parameter as integer" with
    | error r => rfl
    | ok dataSizeLimit =>
      cases sliceParameter request.slice with
      | error r => rfl
      | ok slice => exact contextConstruct_visible cfg call hroot _ _ _ _ _

/-- `doPost` in contexts that differ only in the request they construct. -/
theorem doPost_map {context context' : ServletContext} {f : HDFStreamRequest → HDFStreamRequest}
    (hmalformed : context'.malformed = context.malformed)
    (hlength : context'.maxHdf5NameLength = context.maxHdf5NameLength)
    (hmessage : context'.libraryMessage = context.libraryMessage) (request : PostRequest)
    (hconstruct : ∀ object maxDepth dataSizeLimit slice,
      context'.construct request.pathInfo object maxDepth dataSizeLimit slice =
        (context.construct request.pathInfo object maxDepth dataSizeLimit slice).map f) :
    context'.doPost request = (context.doPost request).map f := by
  have hget : ∀ e, context'.getMessage e = context.getMessage e := by
    intro e
    cases e <;> simp only [ServletContext.getMessage, hmessage]
  unfold ServletContext.doPost
  rw [hmalformed, hlength]
  split
  · rfl
  · cases unpackBody context.malformed context.maxHdf5NameLength request.body with
    | error e => simp only [hget, Except.map]
    | ok x =>
      obtain ⟨params, rest⟩ := x
      cases params with
      | error message => rfl
      | ok params => exact hconstruct _ _ _ _

/-- **A request is constructed from what its user can see.** -/
theorem construct_visible (cfg : ServerConfig) (call : Call) (hroot : root.All DirectoryOk) :
    call.asEveryone.construct cfg (visible call.inRole root) =
      (call.construct cfg root).map (HDFStreamRequest.visible call.inRole) := by
  unfold Call.construct
  cases hrequest : call.request with
  | doGet request =>
    rw [Call.asEveryone, hrequest]
    exact doHeadOrGet_visible cfg call hroot request
  | doHead request =>
    rw [Call.asEveryone, hrequest]
    exact doHeadOrGet_visible cfg call hroot request
  | doPost request =>
    rw [Call.asEveryone, hrequest]
    exact doPost_map (by rfl) (by rfl) (by rfl) request fun _ _ _ _ =>
      contextConstruct_visible cfg call hroot _ _ _ _ _

/-! ## 3. What is sent -/

/-- What the files hold, as the library reads it. -/
structure FileContents where
  whole : CacheKey → Bytes
  slices : (path object : JString) → SliceInfo → Bytes

/-- The body of the response to a request. -/
def expectedBody (cfg : ServerConfig) (files : FileContents) (inRole : JString → Bool)
    (hreq : HDFStreamRequest) : Option Body :=
  match hreq.file with
  | none => hreq.directory.map fun directory =>
    .tokens (packDirectory cfg.metadata directory hreq.maxDepth inRole)
  | some file =>
    match hreq.object with
    | none => some (.tokens (packFile file))
    | some object =>
      match hreq.sliceInfo with
      | some slice => some (.bytes (files.slices file.filesystemPath object slice))
      | none => some (.bytes (files.whole (hreq.cacheKey file object)))

theorem new_ok {path object : Option JString} {maxDepth dataSizeLimit : Int}
    {slice : Option SliceInfo} {maxHdf5NameLength : Int} {hreq : HDFStreamRequest}
    (h : HDFStreamRequest.new root inRole path object maxDepth dataSizeLimit slice
      maxHdf5NameLength = .ok hreq) :
    lookUp root inRole path = .ok (hreq.file, hreq.directory) := by
  unfold HDFStreamRequest.new at h
  cases hlimits : checkLimits path maxDepth dataSizeLimit maxHdf5NameLength with
  | error e =>
    rw [hlimits] at h
    cases h
  | ok u =>
    cases hlook : lookUp root inRole path with
    | error e =>
      rw [hlimits, hlook] at h
      cases h
    | ok x =>
      cases hobject : checkObject object slice maxHdf5NameLength with
      | error e =>
        rw [hlimits, hlook, hobject] at h
        cases h
      | ok u =>
        rw [hlimits, hlook, hobject] at h
        cases h
        rfl

/-- The file and the directory of a request are those of its path. -/
theorem construct_lookUp {call : Call} {hreq : HDFStreamRequest}
    (h : call.construct cfg root = .ok hreq) :
    ∃ path, lookUp root call.inRole path = .ok (hreq.file, hreq.directory) := by
  have hcontext : ∀ {pathInfo object maxDepth dataSizeLimit slice},
      (call.context cfg root).construct pathInfo object maxDepth dataSizeLimit slice = .ok hreq →
      ∃ path, lookUp root call.inRole path = .ok (hreq.file, hreq.directory) := by
    intro pathInfo object maxDepth dataSizeLimit slice h
    unfold ServletContext.construct at h
    split at h
    · rename_i hreq' hnew
      cases h
      exact ⟨_, new_ok hnew⟩
    · cases h
  have hget : ∀ {request}, (call.context cfg root).doHeadOrGet request = .ok hreq →
      ∃ path, lookUp root call.inRole path = .ok (hreq.file, hreq.directory) := by
    intro request h
    unfold ServletContext.doHeadOrGet at h
    cases hdepth : intParameter request.maxDepth 0
      "Unable to interpret max_depth parameter as integer" with
    | error r =>
      rw [hdepth] at h
      cases h
    | ok maxDepth =>
      cases hlimit : intParameter request.dataSizeLimit intMax
        "Unable to interpret data_size_limit parameter as integer" with
      | error r =>
        rw [hdepth, hlimit] at h
        cases h
      | ok dataSizeLimit =>
        cases hslice : sliceParameter request.slice with
        | error r =>
          rw [hdepth, hlimit, hslice] at h
          cases h
        | ok slice =>
          rw [hdepth, hlimit, hslice] at h
          exact hcontext h
  unfold Call.construct at h
  split at h
  · exact hget h
  · exact hget h
  · unfold ServletContext.doPost at h
    split at h
    · cases h
    · split at h
      · cases h
      · cases h
      · exact hcontext h

/-- The directory of a request is one its user can access, and without a file there is one. -/
theorem construct_directory (hroot : root.All DirectoryOk) {call : Call}
    (hacc : canAccess call.inRole root = true) {hreq : HDFStreamRequest}
    (h : call.construct cfg root = .ok hreq) :
    (∀ d ∈ hreq.directory, d.All DirectoryOk ∧ canAccess call.inRole d = true) ∧
      (hreq.file = none → hreq.directory.isSome) := by
  obtain ⟨path, hlook⟩ := construct_lookUp h
  unfold lookUp at hlook
  split at hlook
  · obtain ⟨hfile, hdir⟩ := Prod.mk.inj (Except.ok.inj hlook)
    rw [← hdir]
    exact ⟨fun d hd => Option.some.inj hd ▸ ⟨hroot, hacc⟩, fun _ => rfl⟩
  · split at hlook
    · cases hlook
    · rename_i info hinfo
      obtain ⟨hfile, hdir⟩ := Prod.mk.inj (Except.ok.inj hlook)
      rw [← hfile, ← hdir]
      exact resolvePath_directory hroot hinfo

/-- **The whole of what is sent is what the user can see.** -/
theorem expectedBody_visible (files : FileContents) (hroot : root.All DirectoryOk) {call : Call}
    (hacc : canAccess call.inRole root = true) {hreq : HDFStreamRequest}
    (h : call.construct cfg root = .ok hreq) :
    expectedBody cfg files everyone (hreq.visible call.inRole) =
      expectedBody cfg files call.inRole hreq := by
  obtain ⟨hdirs, _⟩ := construct_directory hroot hacc h
  cases hfile : hreq.file with
  | some file =>
    simp only [expectedBody, HDFStreamRequest.visible, hfile]
    rfl
  | none =>
    simp only [expectedBody, HDFStreamRequest.visible, hfile]
    cases hdir : hreq.directory with
    | none => rw [Option.map_none, Option.map_none, Option.map_none]
    | some d =>
      obtain ⟨hd, hdacc⟩ := hdirs d hdir
      have hlisting := packDirectory_visible cfg.metadata
        (hd.imp fun _ h => h.unique) hdacc hreq.maxDepth
      exact congrArg (fun calls => some (Body.tokens calls)) hlisting

end HdfStream.Webapp
