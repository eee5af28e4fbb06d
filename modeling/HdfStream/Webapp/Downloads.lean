/-
# Downloads

The model of `TarFileServlet.java`: a download is a file as it is, or a tar file of a directory.
The comment there says that "unpacking all tar files in the same base directory should reproduce
the virtual directory structure".  This rests on the virtual path of the directory, which is put in
front of the names in the archive.

The virtual path is not the path of the directory: whether it starts with a slash depends on the
lines of the configuration.  `TarArchiveEntry` takes the slashes off the front of a name, so that
the difference is gone in the archive (`entryName_tarPrefix`).

`splitPath` takes "." and ".." for names like any other, and whoever unpacks does not; and `write`
throws at a file that is longer or shorter than the configuration says.  So the result is about
downloads that have been written to the end, of files without such components in their paths.
-/
import HdfStream.Virtual.CanonicalPath
import HdfStream.Virtual.TarFile
import HdfStream.Virtual.Views
import HdfStream.Webapp.Request

namespace HdfStream.Webapp

open Java LinkedMap Virtual

/-! ## 1. The servlet -/

/-- What `doHeadOrGet` sends. -/
inductive DownloadResponse where
  | sendError (statusCode : Nat) (message : JString)
  | streamFile (file : VirtualFile) (baseName : Option JString)
  | archive (tarFile : TarFile) (tarName : JString)

section

variable (records : JString → Int → Int → Nat) (encode : JString → JString)

/-- `doHeadOrGet`; `pathInfo` is the path of the request without the prefix of the servlet. -/
def doHeadOrGet (virtualDirectory : VirtualDirectory) (inRole : JString → Bool)
    (pathInfo : Option JString) : DownloadResponse :=
  match pathInfo.map (List.drop 1) with
  | none => .sendError scBadRequest (lit "No file path was specified")
  | some path =>
    if path.length = 0 then .sendError scBadRequest (lit "No file path was specified")
    else
      match resolvePath path inRole virtualDirectory with
      | .error _ => .sendError scNotFound (lit "Invalid path specified: " ++ path)
      | .ok pathInfo =>
        match pathInfo.file, pathInfo.directory with
        | some file, _ => .streamFile file pathInfo.basename
        | none, some directory =>
          .archive (initTarFile records (tarPrefix directory) directory inRole)
            (tarName encode directory)
        | none, none =>
          .sendError scInternalServerError (lit "File and directory objects are null")

end

/-! ## 2. Unpacking -/

/-- The name `TarArchiveEntry` makes of a path: without slashes in front. -/
def entryName (path : JString) : JString := path.dropWhile (· = '/')

section

variable (records : JString → Int → Int → Nat) (reads : JString → List (List UInt8))

/-- The lengths of the reads of a file. -/
def readLengths (path : JString) : List Nat := (reads path).map List.length

/-- What is in a file. -/
def contents (path : JString) : List UInt8 := (reads path).flatten

/-- The entries that the loop of `write` has completed when it ends, or throws. -/
def writtenEntries (pathPrefix : JString) (tarstream : TarArchiveOutputStream) :
    List (JString × VirtualFile) → List (JString × List UInt8)
  | [] => []
  | entry :: files =>
    match writeEntry records (readLengths reads) pathPrefix tarstream entry with
    | .error _ => []
    | .ok tarstream =>
      (entryName (pathPrefix ++ entry.1), contents reads entry.2.filesystemPath) ::
        writtenEntries pathPrefix tarstream files

/-- The entries in what a download sends; `reads` are the reads of the files. -/
def DownloadResponse.entries : DownloadResponse → List (JString × List UInt8)
  | .archive tarFile _ =>
    writtenEntries records reads tarFile.pathPrefix
      { byteCount := 0, currSize := 0, currBytes := 0 } tarFile.files
  | _ => []

/-- `write` returns and does not throw, if there is something to write. -/
def DownloadResponse.isCompleted : DownloadResponse → Bool
  | .archive tarFile _ => (tarFile.write records (readLengths reads)).toOption.isSome
  | _ => true

/-- Where a name leads from a directory, one component after the other. -/
def unpackedPath (name : JString) : List JString :=
  (name.splitOn '/').foldl
    (fun path component =>
      if component = [] ∨ component = lit "." then path
      else if component = lit ".." then path.dropLast
      else path ++ [component]) []

/-- Unpacking writes each entry to the file that its name leads to. -/
def unpack (base : List (List JString × List UInt8)) (response : DownloadResponse) :
    List (List JString × List UInt8) :=
  (response.entries records reads).foldl (fun base entry => put base (unpackedPath entry.1) entry.2)
    base

/-- The files after all downloads are unpacked in one directory. -/
def unpackAll (responses : List DownloadResponse) : List (List JString × List UInt8) :=
  responses.foldl (unpack records reads) []

/-- The downloads one after the other are all their entries one after the other. -/
theorem unpackAll_eq (responses : List DownloadResponse) :
    unpackAll records reads responses =
      ((responses.flatMap (DownloadResponse.entries records reads)).map fun entry =>
        (unpackedPath entry.1, entry.2)).foldl (fun base entry => put base entry.1 entry.2) [] := by
  rw [unpackAll, List.foldl_map, List.foldl_flatMap]
  rfl

/-- The entries of all files of an archive. -/
def allEntries (tarFile : TarFile) : List (JString × List UInt8) :=
  tarFile.files.map fun e =>
    (entryName (tarFile.pathPrefix ++ e.1), contents reads e.2.filesystemPath)

/-- **An archive that is written to the end has an entry for every file.** -/
theorem entries_of_completed {tarFile : TarFile} {tarName : JString}
    (h : (DownloadResponse.archive tarFile tarName).isCompleted records reads = true) :
    (DownloadResponse.archive tarFile tarName).entries records reads =
      allEntries reads tarFile := by
  have hfiles : ∀ (files : List (JString × VirtualFile)) (st st' : TarArchiveOutputStream),
      files.foldlM (writeEntry records (readLengths reads) tarFile.pathPrefix) st = .ok st' →
        writtenEntries records reads tarFile.pathPrefix st files = files.map fun e =>
          (entryName (tarFile.pathPrefix ++ e.1), contents reads e.2.filesystemPath) := by
    intro files
    induction files with
    | nil => exact fun _ _ _ => rfl
    | cons entry files ih =>
      intro st st' hfold
      rw [List.foldlM_cons] at hfold
      rw [writtenEntries, List.map_cons]
      cases hentry : writeEntry records (readLengths reads) tarFile.pathPrefix st entry with
      | error e =>
        rw [hentry] at hfold
        cases hfold
      | ok st₁ =>
        rw [hentry] at hfold
        dsimp only
        rw [ih st₁ st' hfold]
  obtain ⟨n, hn⟩ := Option.isSome_iff_exists.mp h
  have hn := ok_of_toOption hn
  rw [TarFile.write] at hn
  split at hn
  · cases hn
  · rename_i st hfold
    exact hfiles _ _ st hfold

end

/-- No component of the path of a file that the user finds is "." or "..". -/
def DotFree (inRole : JString → Bool) (t : VirtualDirectory) : Prop :=
  ∀ path ∈ keys (getAllFiles inRole t), ∀ n ∈ path.splitOn '/', n ≠ lit "." ∧ n ≠ lit ".."

instance (inRole : JString → Bool) (t : VirtualDirectory) : Decidable (DotFree inRole t) :=
  inferInstanceAs (Decidable (∀ path ∈ keys (getAllFiles inRole t), _))

/-- A path of names leads where it says. -/
theorem unpackedPath_joinPath {names : List JString} (hne : names ≠ [])
    (hn : ∀ n ∈ names, IsName n) (hdots : ∀ n ∈ names, n ≠ lit "." ∧ n ≠ lit "..") :
    unpackedPath (joinPath names) = names := by
  have hfold : ∀ (ls : List JString) (path : List JString),
      (∀ n ∈ ls, IsName n) → (∀ n ∈ ls, n ≠ lit "." ∧ n ≠ lit "..") →
      ls.foldl (fun path component =>
        if component = [] ∨ component = lit "." then path
        else if component = lit ".." then path.dropLast
        else path ++ [component]) path = path ++ ls := by
    intro ls
    induction ls with
    | nil => exact fun path _ _ => (List.append_nil path).symm
    | cons l ls ih =>
      intro path hl hd
      obtain ⟨hdot, hdots⟩ := hd l List.mem_cons_self
      rw [List.foldl_cons, if_neg (not_or.mpr ⟨(hl l List.mem_cons_self).1, hdot⟩), if_neg hdots,
        ih _ (fun n hn => hl n (List.mem_cons_of_mem _ hn))
          (fun n hn => hd n (List.mem_cons_of_mem _ hn)), List.append_assoc]
      rfl
  rw [unpackedPath, splitOn_joinPath hne hn, hfold names [] hn hdots, List.nil_append]

/-! ## 3. The names in an archive -/

/-- The directories of the root have their name as virtual path, with a slash in front or
without. -/
def TopsNamed (t : VirtualDirectory) : Prop :=
  ∀ name sub, get t.directories name = some sub →
    sub.virtualPath = '/' :: name ∨ sub.virtualPath = name

theorem TopsNamed.putDirectory {t sub : VirtualDirectory} (h : TopsNamed t) {name : JString}
    (hpath : sub.virtualPath = '/' :: name ∨ sub.virtualPath = name) :
    TopsNamed (putDirectory name sub t) := by
  intro k s hs
  rw [get_putDirectory] at hs
  split at hs
  · rename_i hk
    cases hs
    rw [hk]
    exact hpath
  · exact h k s hs

/-- A directory keeps its virtual path when a line goes below it. -/
theorem addFile_topsNamed {lines : List JString} {t t' : VirtualDirectory} (hroot : Rooted lines t)
    (h : TopsNamed t) {path : JString} {line : Line} (hadd : addFile path line t = .ok t') :
    TopsNamed t' := by
  rcases addFile_cases hadd with ⟨-, hhere⟩ | ⟨name, remainder, sub, sub', hsplit, hadd', rfl, hsub⟩
  · rcases addHere_cases hhere with ⟨-, file, -, rfl⟩ |
      ⟨-, sub', rfl, ⟨-, -, hpath⟩ | ⟨sub, hsub, hkeep⟩⟩
    · intro k s hs
      rw [VirtualDirectory.directories, children_putFile] at hs
      exact h k s hs
    · refine h.putDirectory (.inl ?_)
      rw [hpath, hroot.path, List.nil_append]
    · refine h.putDirectory ?_
      rw [(hkeep (hroot.below _ sub hsub).1).2]
      exact h _ sub hsub
  · refine h.putDirectory ?_
    rcases hsub with hsub | ⟨-, rfl⟩
    · obtain ⟨hext, hne⟩ := hroot.below name sub hsub
      rw [(addFile_extends hadd' hext hne).2]
      exact h name sub hsub
    · -- made on the way: no slash in front
      have hname : name ≠ [] := (splitPath_ok hsplit).2.1.1
      have himplicit : implicitPath t name = name := by
        rw [implicitPath, hroot.path]
        rfl
      rw [himplicit] at hadd'
      exact .inr (addFile_extends hadd' (newDirectory_extends t name []) hname).2

theorem topsNamed_addFromReader {lines : List JString} {t : VirtualDirectory}
    (h : addFromReader lines newRoot = .ok t) : TopsNamed t := by
  induction lines using List.reverseRecOn generalizing t with
  | nil =>
    cases h
    intro name sub hsub
    cases hsub
  | append_singleton lines text ih =>
    obtain ⟨t₀, path, line, hlines, -, hadd⟩ := addFromReader_snoc.mp h
    exact addFile_topsNamed (rooted_addFromReader hlines).1 (ih hlines) hadd

/-- **The names in an archive** are the paths of the files, whatever the virtual path of the
directory looks like. -/
theorem entryName_tarPrefix {lines : List JString} {t : VirtualDirectory}
    (h : addFromReader lines newRoot = .ok t) {names : List JString} {d : VirtualDirectory}
    (hne : names ≠ []) (hn : ∀ n ∈ names, IsName n) (hd : directoryAt t names = some d)
    {rest : List JString} (hrest : rest ≠ []) :
    entryName (tarPrefix d ++ joinPath rest) = joinPath (names ++ rest) := by
  obtain ⟨name, names, rfl⟩ := List.exists_cons_of_ne_nil hne
  obtain ⟨hname, hslash⟩ := hn name List.mem_cons_self
  cases hsub : get t.directories name with
  | none =>
    rw [directoryAt_none hsub] at hd
    cases hd
  | some sub =>
    rw [directoryAt_cons hsub] at hd
    have hext := ((rooted_addFromReader h).1.below name sub hsub).1.directory names d hd
    have hjoin : joinPath (name :: names) = name ++ slashed names := by
      by_cases hnil : names = []
      · subst hnil
        exact (List.append_nil name).symm
      · rw [joinPath_cons hnil, slashed_eq hnil]
    have hpath : d.virtualPath = '/' :: joinPath (name :: names) ∨
        d.virtualPath = joinPath (name :: names) := by
      rw [hext, hjoin]
      rcases topsNamed_addFromReader h name sub hsub with htop | htop
      · rw [htop]
        exact .inl rfl
      · rw [htop]
        exact .inr rfl
    have hpos : 0 < d.virtualPath.length := by
      rcases hpath with hpath | hpath
      · rw [hpath]
        exact Nat.succ_pos _
      · rw [hpath]
        exact List.length_pos_iff.mpr (joinPath_ne_nil hne hn)
    have hjoined : joinPath (name :: names ++ rest) =
        joinPath (name :: names) ++ ['/'] ++ joinPath rest := by
      rw [joinPath_append hne hrest, List.append_assoc]
      rfl
    -- the first character is not a slash
    have hdrop : entryName (joinPath (name :: names ++ rest)) =
        joinPath (name :: names ++ rest) := by
      obtain ⟨c, cs, rfl⟩ := List.exists_cons_of_ne_nil hname
      have hc : c ≠ '/' := fun heq => hslash (heq ▸ List.mem_cons_self)
      rw [hjoined, hjoin, List.cons_append, List.cons_append, List.cons_append, entryName,
        List.dropWhile_cons_of_neg (by simpa using hc)]
    rw [tarPrefix, if_pos hpos]
    rcases hpath with hpath | hpath
    · rw [hpath, List.cons_append, List.cons_append, ← hjoined]
      exact hdrop
    · rw [hpath, ← hjoined]
      exact hdrop

/-! ## 4. What a download has -/

/-- A path that goes on after a slash is a path of directories. -/
theorem joinPath_split {ls : List JString} (hl : ∀ n ∈ ls, IsName n) {path rest : JString}
    (h : joinPath ls = path ++ '/' :: rest) :
    ∃ names below, names ≠ [] ∧ below ≠ [] ∧ ls = names ++ below ∧ path = joinPath names ∧
      rest = joinPath below := by
  induction ls generalizing path with
  | nil => exact absurd h.symm (List.append_ne_nil_of_right_ne_nil _ (List.cons_ne_nil _ _))
  | cons l ls ih =>
    have hslash := (hl l List.mem_cons_self).2
    by_cases hnil : ls = []
    · subst hnil
      have hmem : '/' ∈ joinPath [l] := by
        rw [h]
        exact List.mem_append_right _ List.mem_cons_self
      exact absurd hmem hslash
    · rw [joinPath_cons hnil] at h
      rcases List.append_eq_append_iff.mp h with ⟨mid, hpath, hmid⟩ | ⟨mid, hl', hmid⟩
      · rcases mid with _ | ⟨c, mid⟩
        · rw [List.append_nil] at hpath
          rw [List.nil_append, List.cons.injEq] at hmid
          exact ⟨[l], ls, List.cons_ne_nil _ _, hnil, rfl, hpath, hmid.2.symm⟩
        · rw [List.cons_append, List.cons.injEq] at hmid
          obtain ⟨rfl, hmid⟩ := hmid
          obtain ⟨names, below, hne, hbelow, rfl, rfl, rfl⟩ :=
            ih (fun n hn => hl n (List.mem_cons_of_mem _ hn)) hmid
          refine ⟨l :: names, below, List.cons_ne_nil _ _, hbelow, rfl, ?_, rfl⟩
          rw [joinPath_cons hne, hpath]
      · rcases mid with _ | ⟨c, mid⟩
        · rw [List.append_nil] at hl'
          rw [List.nil_append, List.cons.injEq] at hmid
          exact ⟨[l], ls, List.cons_ne_nil _ _, hnil, rfl, hl'.symm, hmid.2⟩
        · -- a slash inside a name
          rw [List.cons_append, List.cons.injEq] at hmid
          refine absurd ?_ hslash
          rw [hl', ← hmid.1]
          exact List.mem_append_right _ List.mem_cons_self

/-- **Which directories a user finds**: those to which the way is open.  The tree of the user does
not tell them apart from what `resolvePath` returns. -/
theorem resolvePath_directory_iff {inRole : JString → Bool} {t : VirtualDirectory}
    (ht : t.All DirectoryOk) {path : JString} {v : VirtualDirectory} :
    (∃ info d, resolvePath path inRole t = .ok info ∧ info.file = none ∧ info.directory = some d ∧
        visible inRole d = v) ↔
      ∃ names s, names ≠ [] ∧ (∀ n ∈ names, IsName n) ∧ stripSlash path = joinPath names ∧
        t.walk (accessible inRole) names = some s ∧ visible inRole s = v := by
  have hfinds := @findsDirectory_iff (visible inRole t) (visible_ok inRole ht) path v
  have hwalk : ∀ names, directoryAt (visible inRole t) names =
      (t.walk (accessible inRole) names).map (visible inRole) := fun names =>
    Trie.walk_prune (ht.imp fun _ h => h.unique) names
  constructor
  · rintro ⟨info, d, hinfo, hnone, hd, hv⟩
    have hfound : FindsDirectory (visible inRole t) path v := by
      refine ⟨info.visible inRole, ?_, hnone, ?_⟩
      · rw [resolvePath_visible ht, hinfo]
        rfl
      · rw [VirtualPathInfo.visible, hd, ← hv]
        rfl
    obtain ⟨names, hne, hn, hpath, hat⟩ := hfinds.mp hfound
    rw [hwalk] at hat
    obtain ⟨s, hs, hv'⟩ := Option.map_eq_some_iff.mp hat
    exact ⟨names, s, hne, hn, hpath, hs, hv'⟩
  · rintro ⟨names, s, hne, hn, hpath, hs, hv⟩
    have hat : directoryAt (visible inRole t) names = some v := by
      rw [hwalk, hs, ← hv]
      rfl
    obtain ⟨info', hinfo', hnone, hd'⟩ := hfinds.mpr ⟨names, hne, hn, hpath, hat⟩
    rw [resolvePath_visible ht] at hinfo'
    obtain ⟨info, hinfo, rfl⟩ := map_eq_ok hinfo'
    obtain ⟨d, hd, hv'⟩ := Option.map_eq_some_iff.mp hd'
    exact ⟨info, d, hinfo, hnone, hd, hv'⟩

/-- The archive of a directory depends on what the user sees of it. -/
theorem initTarFile_congr (records : JString → Int → Int → Nat) {inRole : JString → Bool}
    {d s : VirtualDirectory} (h : visible inRole d = visible inRole s)
    (hacc : canAccess inRole s = true) :
    initTarFile records (tarPrefix d) d inRole = initTarFile records (tarPrefix s) s inRole := by
  have hval : d.val = s.val := by
    rw [← Trie.val_prune (accessible inRole) d, ← Trie.val_prune (accessible inRole) s]
    exact congrArg Trie.val h
  have haccd : canAccess inRole d = true := by
    rw [canAccess, VirtualDirectory.requiredRoles, hval]
    exact hacc
  have hprefix : tarPrefix d = tarPrefix s := by
    rw [tarPrefix, tarPrefix, VirtualDirectory.virtualPath, VirtualDirectory.virtualPath, hval]
  rw [initTarFile, initTarFile, hprefix, ← getAllFiles_visible haccd, h, getAllFiles_visible hacc]

/-- The way to a directory is open, so its roles are the user's. -/
theorem canAccess_of_walk {inRole : JString → Bool} {t s : VirtualDirectory} {names : List JString}
    (hne : names ≠ []) (hs : t.walk (accessible inRole) names = some s) :
    canAccess inRole s = true := by
  obtain ⟨hall, hroles⟩ := Trie.walk_eq_some_iff.mp hs
  exact hroles names s List.prefix_rfl hne hall

/-- The entries of the archive of a directory. -/
theorem mem_entries_directory {lines : List JString} {t : VirtualDirectory}
    (h : addFromReader lines newRoot = .ok t) (records : JString → Int → Int → Nat)
    {inRole : JString → Bool} (reads : JString → List (List UInt8)) {names : List JString}
    {d : VirtualDirectory} (hne : names ≠ []) (hn : ∀ n ∈ names, IsName n)
    (hd : t.walk (accessible inRole) names = some d) {name : JString} {bytes : List UInt8} :
    (name, bytes) ∈ allEntries reads (initTarFile records (tarPrefix d) d inRole) ↔
      ∃ ks last, ∃ s : VirtualDirectory, ∃ file, d.walk (accessible inRole) ks = some s ∧
        get s.files last = some file ∧ name = joinPath (names ++ (ks ++ [last])) ∧
        bytes = contents reads file.filesystemPath := by
  obtain ⟨es, -, hbuilt⟩ := addFromReader_built h
  have hdok := hbuilt.ok.walk hd
  have hacc := canAccess_of_walk hne hd
  have hname : ∀ ks last, entryName (tarPrefix d ++ joinPath (ks ++ [last])) =
      joinPath (names ++ (ks ++ [last])) := fun ks last =>
    entryName_tarPrefix h hne hn (Trie.walk_eq_some_iff.mp hd).1
      (List.append_ne_nil_of_right_ne_nil ks (List.cons_ne_nil last []))
  have hkeys : (keys (getAllFiles inRole d)).Nodup := by
    rw [← getAllFiles_visible hacc, getAllFiles_everyone (visible_ok inRole hdok)]
    exact filesBelow_nodup (visible_ok inRole hdok)
  rw [allEntries, List.mem_map]
  constructor
  · rintro ⟨⟨path, file⟩, hmem, heq⟩
    obtain ⟨ks, last, s, rfl, hs, hfile⟩ := (getAllFiles_iff hdok hacc).mp
      ((mem_iff_get hkeys).mp hmem)
    cases heq
    exact ⟨ks, last, s, file, hs, hfile, hname ks last, rfl⟩
  · rintro ⟨ks, last, s, file, hs, hfile, rfl, rfl⟩
    have hget := (getAllFiles_iff hdok hacc).mpr ⟨ks, last, s, rfl, hs, hfile⟩
    refine ⟨(joinPath (ks ++ [last]), file), (mem_iff_get hkeys).mpr hget, ?_⟩
    rw [← hname ks last]
    rfl

/-- A download has entries if its path resolves to a directory. -/
theorem entries_doHeadOrGet {records : JString → Int → Int → Nat} {encode : JString → JString}
    {t : VirtualDirectory} {inRole : JString → Bool} {reads : JString → List (List UInt8)}
    {pathInfo : Option JString}
    (hcompleted : (doHeadOrGet records encode t inRole pathInfo).isCompleted records reads = true)
    {e : JString × List UInt8} :
    e ∈ (doHeadOrGet records encode t inRole pathInfo).entries records reads ↔
      ∃ path, pathInfo = some path ∧ ∃ info d, resolvePath (path.drop 1) inRole t = .ok info ∧
        info.file = none ∧ info.directory = some d ∧
        e ∈ allEntries reads (initTarFile records (tarPrefix d) d inRole) := by
  cases pathInfo with
  | none =>
    refine ⟨fun hmem => absurd hmem List.not_mem_nil, ?_⟩
    rintro ⟨path, hnone, -⟩
    cases hnone
  | some path =>
    simp only [Option.some.injEq, exists_eq_left']
    rw [doHeadOrGet, Option.map_some] at hcompleted ⊢
    dsimp only at hcompleted ⊢
    split
    · rename_i hlen
      refine ⟨fun hmem => absurd hmem List.not_mem_nil, ?_⟩
      rintro ⟨info, d, hinfo, -⟩
      rw [List.length_eq_zero_iff.mp hlen, resolvePath_eq, if_pos (by decide)] at hinfo
      cases hinfo
    · rename_i hlen
      rw [if_neg hlen] at hcompleted
      cases hresolve : resolvePath (path.drop 1) inRole t with
      | error message =>
        refine ⟨fun hmem => absurd hmem List.not_mem_nil, ?_⟩
        rintro ⟨info, d, hinfo, -⟩
        cases hinfo
      | ok info =>
        obtain ⟨directory, file, basename⟩ := info
        simp only [Except.ok.injEq, exists_and_left, exists_eq_left']
        cases file with
        | some file =>
          refine ⟨fun hmem => absurd hmem List.not_mem_nil, ?_⟩
          rintro ⟨hnone, -⟩
          cases hnone
        | none =>
          cases directory with
          | none =>
            refine ⟨fun hmem => absurd hmem List.not_mem_nil, ?_⟩
            rintro ⟨-, d, hd, -⟩
            cases hd
          | some d =>
            rw [hresolve] at hcompleted
            simp only [Option.some.injEq, exists_eq_left', true_and]
            rw [entries_of_completed records reads hcompleted]

/-- The components of the path of a file are names. -/
theorem components_of_file {t s : VirtualDirectory} (ht : t.All DirectoryOk)
    {p : DirectoryFields → Bool} {ks : List JString} (hs : t.walk p ks = some s) {last : JString}
    {file : VirtualFile} (hfile : get s.files last = some file) :
    ∀ n ∈ ks ++ [last], IsName n := by
  intro n hn
  rcases List.mem_append.mp hn with hn | hn
  · exact walk_names ht hs n hn
  · rw [List.mem_singleton.mp hn]
    exact (ht.walk hs).root.files_name last (get_isSome_iff.mp (by rw [hfile]; rfl))

/-- **The entries of a download**: every file that the user finds below the directory, by the
components of its path. -/
theorem mem_entries_iff {lines : List JString} {t : VirtualDirectory}
    (h : addFromReader lines newRoot = .ok t) {records : JString → Int → Int → Nat}
    {encode : JString → JString} {inRole : JString → Bool} {reads : JString → List (List UInt8)}
    {pathInfo : Option JString}
    (hcompleted : (doHeadOrGet records encode t inRole pathInfo).isCompleted records reads = true)
    {name : JString} {bytes : List UInt8} :
    (name, bytes) ∈ (doHeadOrGet records encode t inRole pathInfo).entries records reads ↔
      ∃ path, pathInfo = some path ∧ ∃ names ks last, ∃ s : VirtualDirectory, ∃ file,
        names ≠ [] ∧ (∀ n ∈ names, IsName n) ∧ stripSlash (path.drop 1) = joinPath names ∧
          t.walk (accessible inRole) (names ++ ks) = some s ∧ get s.files last = some file ∧
          name = joinPath (names ++ (ks ++ [last])) ∧
          bytes = contents reads file.filesystemPath := by
  obtain ⟨es, -, hbuilt⟩ := addFromReader_built h
  have hok := hbuilt.ok
  rw [entries_doHeadOrGet hcompleted]
  refine exists_congr fun path => and_congr_right fun _ => ?_
  constructor
  · rintro ⟨info, d, hinfo, hnone, hd, hmem⟩
    obtain ⟨names, s, hne, hn, hpath, hs, hsame⟩ :=
      (resolvePath_directory_iff hok).mp ⟨info, d, hinfo, hnone, hd, rfl⟩
    rw [initTarFile_congr records hsame.symm (canAccess_of_walk hne hs),
      mem_entries_directory h records reads hne hn hs] at hmem
    obtain ⟨ks, last, s', file, hs', hfile, hname, hbytes⟩ := hmem
    exact ⟨names, ks, last, s', file, hne, hn, hpath, Trie.walk_append.mpr ⟨s, hs, hs'⟩, hfile,
      hname, hbytes⟩
  · rintro ⟨names, ks, last, s', file, hne, hn, hpath, hwalk, hfile, hname, hbytes⟩
    obtain ⟨s, hs, hs'⟩ := Trie.walk_append.mp hwalk
    obtain ⟨info, d, hinfo, hnone, hd, hsame⟩ :=
      (resolvePath_directory_iff hok).mpr ⟨names, s, hne, hn, hpath, hs, rfl⟩
    refine ⟨info, d, hinfo, hnone, hd, ?_⟩
    rw [initTarFile_congr records hsame (canAccess_of_walk hne hs),
      mem_entries_directory h records reads hne hn hs]
    exact ⟨ks, last, s', file, hs', hfile, hname, hbytes⟩

/-- The same by paths: the file resolves, and the path of the download is on the way to it. -/
theorem mem_entries_path {lines : List JString} {t : VirtualDirectory}
    (h : addFromReader lines newRoot = .ok t) {records : JString → Int → Int → Nat}
    {encode : JString → JString} {inRole : JString → Bool} {reads : JString → List (List UInt8)}
    {pathInfo : Option JString}
    (hcompleted : (doHeadOrGet records encode t inRole pathInfo).isCompleted records reads = true)
    {name : JString} {bytes : List UInt8} :
    (name, bytes) ∈ (doHeadOrGet records encode t inRole pathInfo).entries records reads ↔
      endsWith name '/' = false ∧
        (∃ path ∈ pathInfo, stripSlash (path.drop 1) ++ ['/'] <+: name) ∧
        ∃ info file, resolvePath name inRole t = .ok info ∧ info.file = some file ∧
          bytes = contents reads file.filesystemPath := by
  obtain ⟨es, -, hbuilt⟩ := addFromReader_built h
  have hok := hbuilt.ok
  rw [mem_entries_iff h hcompleted]
  constructor
  · rintro ⟨path, rfl, names, ks, last, s, file, hne, hn, hpath, hwalk, hfile, rfl, hbytes⟩
    have hcomponents := components_of_file hok hwalk hfile
    rw [List.append_assoc] at hcomponents
    have hslash : endsWith (joinPath (names ++ (ks ++ [last]))) '/' = false :=
      joinPath_endsWith (List.append_ne_nil_of_left_ne_nil hne _) hcomponents
    refine ⟨hslash, ⟨path, rfl, joinPath (ks ++ [last]), ?_⟩, ?_⟩
    · rw [hpath, joinPath_append hne (List.append_ne_nil_of_right_ne_nil ks
        (List.cons_ne_nil last [])), List.append_assoc]
      rfl
    · obtain ⟨info, hinfo, hfound⟩ := (resolvePath_file_iff hok hslash file).mpr
        ⟨names ++ ks, last, s, by rw [List.append_assoc], hwalk, hfile⟩
      exact ⟨info, file, hinfo, hfound, hbytes⟩
  · rintro ⟨hslash, ⟨path, hpath, rest, hrest⟩, info, file, hinfo, hfound, hbytes⟩
    obtain ⟨js, last, s, rfl, hwalk, hfile⟩ :=
      (resolvePath_file_iff hok hslash file).mp ⟨info, hinfo, hfound⟩
    have hcomponents := components_of_file hok hwalk hfile
    rw [List.append_assoc] at hrest
    obtain ⟨names, below, hne, hbelow, hsplit, hjoin, -⟩ := joinPath_split hcomponents hrest.symm
    obtain ⟨ks, k, rfl⟩ := (List.eq_nil_or_concat below).resolve_left hbelow
    rw [List.concat_eq_append, ← List.append_assoc] at hsplit
    obtain ⟨rfl, hlast⟩ := List.append_inj' hsplit rfl
    cases hlast
    refine ⟨path, hpath, names, ks, last, s, file, hne, fun n hmem => ?_, hjoin, hwalk, hfile, ?_,
      hbytes⟩
    · exact hcomponents n (List.mem_append_left _ (List.mem_append_left _ hmem))
    · rw [List.append_assoc]

/-- The components of the path of a file that the user finds. -/
theorem DotFree.components {lines : List JString} {t : VirtualDirectory}
    (h : addFromReader lines newRoot = .ok t) {inRole : JString → Bool} (hdots : DotFree inRole t)
    {ks : List JString} {s : VirtualDirectory} (hwalk : t.walk (accessible inRole) ks = some s)
    {last : JString} {file : VirtualFile} (hfile : get s.files last = some file) :
    ∀ n ∈ ks ++ [last], n ≠ lit "." ∧ n ≠ lit ".." := by
  obtain ⟨es, -, hbuilt⟩ := addFromReader_built h
  have hacc : canAccess inRole t = true := by
    rw [canAccess, hbuilt.requiredRoles_eq]
    rfl
  have hget := (getAllFiles_iff hbuilt.ok hacc).mpr ⟨ks, last, s, rfl, hwalk, hfile⟩
  have hsplit := hdots _ (get_isSome_iff.mp (by rw [hget]; rfl))
  rwa [splitOn_joinPath (List.append_ne_nil_of_right_ne_nil ks (List.cons_ne_nil _ _))
    (components_of_file hbuilt.ok hwalk hfile)] at hsplit

/-- **The files that a download is unpacked to.** -/
theorem mem_unpacked_iff {lines : List JString} {t : VirtualDirectory}
    (h : addFromReader lines newRoot = .ok t) {inRole : JString → Bool} (hdots : DotFree inRole t)
    {records : JString → Int → Int → Nat} {encode : JString → JString}
    {reads : JString → List (List UInt8)} {pathInfo : Option JString}
    (hcompleted : (doHeadOrGet records encode t inRole pathInfo).isCompleted records reads = true)
    {names : List JString} {bytes : List UInt8} :
    (∃ e ∈ (doHeadOrGet records encode t inRole pathInfo).entries records reads,
        (unpackedPath e.1, e.2) = (names, bytes)) ↔
      names ≠ [] ∧ (∀ n ∈ names, IsName n) ∧
        (∃ path ∈ pathInfo, stripSlash (path.drop 1) ++ ['/'] <+: joinPath names) ∧
        ∃ info file, resolvePath (joinPath names) inRole t = .ok info ∧ info.file = some file ∧
          bytes = contents reads file.filesystemPath := by
  obtain ⟨es, -, hbuilt⟩ := addFromReader_built h
  have hok := hbuilt.ok
  constructor
  · rintro ⟨⟨name, bytes⟩, hmem, heq⟩
    obtain ⟨path, -, dirs, ks, last, s, file, hne, -, -, hwalk, hfile, rfl, -⟩ :=
      (mem_entries_iff h hcompleted).mp hmem
    have hcomponents := components_of_file hok hwalk hfile
    have hdots := hdots.components h hwalk hfile
    rw [List.append_assoc] at hcomponents hdots
    have hne := List.append_ne_nil_of_left_ne_nil hne (ks ++ [last])
    rw [unpackedPath_joinPath hne hcomponents hdots] at heq
    cases heq
    exact ⟨hne, hcomponents, ((mem_entries_path h hcompleted).mp hmem).2⟩
  · rintro ⟨hne, hn, hprefix, info, file, hinfo, hfile, hbytes⟩
    have hslash := joinPath_endsWith hne hn
    have hmem := (mem_entries_path h hcompleted).mpr
      ⟨hslash, hprefix, info, file, hinfo, hfile, hbytes⟩
    refine ⟨_, hmem, ?_⟩
    obtain ⟨ks, last, s, hjoin, hwalk, hget⟩ :=
      (resolvePath_file_iff hok hslash file).mp ⟨info, hinfo, hfile⟩
    have hnames := joinPath_inj hne (List.append_ne_nil_of_right_ne_nil ks (List.cons_ne_nil _ _))
      hn (components_of_file hok hwalk hget) hjoin
    have hdots := hdots.components h hwalk hget
    rw [← hnames] at hdots
    rw [unpackedPath_joinPath hne hn hdots]

/-! ## 5. Unpacking everything -/

/-- There is no file below a file. -/
theorem not_below_file {lines : List JString} {t : VirtualDirectory}
    (h : addFromReader lines newRoot = .ok t) {inRole : JString → Bool} {name name' : JString}
    {file file' : VirtualFile} (hslash : endsWith name '/' = false)
    (hfile : ∃ info, resolvePath name inRole t = .ok info ∧ info.file = some file)
    (hslash' : endsWith name' '/' = false)
    (hfile' : ∃ info, resolvePath name' inRole t = .ok info ∧ info.file = some file') :
    ¬ name ++ ['/'] <+: name' := by
  obtain ⟨es, -, hbuilt⟩ := addFromReader_built h
  have hok := hbuilt.ok
  obtain ⟨ks, last, s, rfl, hs, hget⟩ := (resolvePath_file_iff hok hslash file).mp hfile
  obtain ⟨ks', last', s', rfl, hs', hget'⟩ := (resolvePath_file_iff hok hslash' file').mp hfile'
  have hcomponents := components_of_file hok hs hget
  have hcomponents' := components_of_file hok hs' hget'
  rintro ⟨rest, hrest⟩
  rw [List.append_assoc] at hrest
  obtain ⟨names, below, hne, hbelow, hsplit, hjoin, -⟩ := joinPath_split hcomponents' hrest.symm
  have hnames : names = ks ++ [last] := by
    refine joinPath_inj hne (List.append_ne_nil_of_right_ne_nil ks (List.cons_ne_nil last []))
      (fun n hn => hcomponents' n ?_) hcomponents hjoin.symm
    rw [hsplit]
    exact List.mem_append_left _ hn
  subst hnames
  obtain ⟨js, k, rfl⟩ := (List.eq_nil_or_concat below).resolve_left hbelow
  rw [List.concat_eq_append, ← List.append_assoc] at hsplit
  obtain ⟨rfl, -⟩ := List.append_inj' hsplit rfl
  -- the way to the second file goes through a directory with the name of the first
  rw [List.append_assoc, List.singleton_append] at hs'
  obtain ⟨s₁, hs₁, hrest'⟩ := Trie.walk_append.mp hs'
  rw [hs] at hs₁
  cases hs₁
  obtain ⟨c, hc, -⟩ := Trie.walk_cons_eq_some.mp hrest'
  have hnone := (hok.walk hs).root.no_directory (by rw [hget]; rfl : (get s.files last).isSome)
  rw [VirtualDirectory.directories, hc] at hnone
  cases hnone

/-- **Unpacking all tar files in the same directory reproduces the virtual directory structure.**
Whatever a user downloads to the end, in whatever order: the files in the directory are then those
below a downloaded path that the user finds in the virtual directory, each under its path and with
its contents, and no file is where another needs a directory. -/
theorem downloads_reproduce_tree {lines : List JString} {t : VirtualDirectory}
    (h : addFromReader lines newRoot = .ok t) {inRole : JString → Bool} (hdots : DotFree inRole t)
    (records : JString → Int → Int → Nat) (encode : JString → JString)
    (reads : JString → List (List UInt8)) (pathInfos : List (Option JString))
    (hcompleted : ∀ pathInfo ∈ pathInfos,
      (doHeadOrGet records encode t inRole pathInfo).isCompleted records reads = true) :
    (∀ names bytes,
      get (unpackAll records reads (pathInfos.map (doHeadOrGet records encode t inRole))) names =
          some bytes ↔
        names ≠ [] ∧ (∀ n ∈ names, IsName n) ∧
          (∃ path, some path ∈ pathInfos ∧
            stripSlash (path.drop 1) ++ ['/'] <+: joinPath names) ∧
          ∃ info file, resolvePath (joinPath names) inRole t = .ok info ∧
            info.file = some file ∧ bytes = contents reads file.filesystemPath) ∧
      ∀ names ∈ keys (unpackAll records reads
          (pathInfos.map (doHeadOrGet records encode t inRole))),
        ∀ names' ∈ keys (unpackAll records reads
            (pathInfos.map (doHeadOrGet records encode t inRole))),
          names <+: names' → names = names' := by
  have hunpacked : ∀ names bytes,
      get (unpackAll records reads (pathInfos.map (doHeadOrGet records encode t inRole))) names =
          some bytes ↔
        names ≠ [] ∧ (∀ n ∈ names, IsName n) ∧
          (∃ path, some path ∈ pathInfos ∧
            stripSlash (path.drop 1) ++ ['/'] <+: joinPath names) ∧
          ∃ info file, resolvePath (joinPath names) inRole t = .ok info ∧
            info.file = some file ∧ bytes = contents reads file.filesystemPath := by
    intro names bytes
    -- a path has the contents of the file that it resolves to
    have hput := @get_foldl_put (List JString) (List UInt8) _
      (fun names bytes => ∃ info file, resolvePath (joinPath names) inRole t = .ok info ∧
        info.file = some file ∧ bytes = contents reads file.filesystemPath)
      (fun names v v' ⟨info, file, hinfo, hfile, hv⟩ ⟨info', file', hinfo', hfile', hv'⟩ => by
        rw [hinfo] at hinfo'
        cases hinfo'
        rw [hfile] at hfile'
        cases hfile'
        rw [hv, hv'])
      (((pathInfos.map (doHeadOrGet records encode t inRole)).flatMap
        (DownloadResponse.entries records reads)).map fun e => (unpackedPath e.1, e.2)) []
      (fun e he => by
        obtain ⟨entry, hentry, rfl⟩ := List.mem_map.mp he
        obtain ⟨response, hresponse, hmem⟩ := List.mem_flatMap.mp hentry
        obtain ⟨pathInfo, hpathInfo, rfl⟩ := List.mem_map.mp hresponse
        exact ((mem_unpacked_iff h hdots (hcompleted _ hpathInfo)).mp
          ⟨entry, hmem, rfl⟩).2.2.2)
      (fun k v hget => by cases hget) names bytes
    rw [unpackAll_eq, hput, or_iff_left (by rintro ⟨⟩), List.mem_map]
    constructor
    · rintro ⟨entry, hentry, heq⟩
      obtain ⟨response, hresponse, hmem⟩ := List.mem_flatMap.mp hentry
      obtain ⟨pathInfo, hpathInfo, rfl⟩ := List.mem_map.mp hresponse
      obtain ⟨hne, hn, ⟨path, rfl, hprefix⟩, hfound⟩ :=
        (mem_unpacked_iff h hdots (hcompleted _ hpathInfo)).mp ⟨entry, hmem, heq⟩
      exact ⟨hne, hn, ⟨path, hpathInfo, hprefix⟩, hfound⟩
    · rintro ⟨hne, hn, ⟨path, hpath, hprefix⟩, hfound⟩
      obtain ⟨entry, hmem, heq⟩ := (mem_unpacked_iff h hdots (hcompleted _ hpath)).mpr
        ⟨hne, hn, ⟨path, rfl, hprefix⟩, hfound⟩
      exact ⟨entry, List.mem_flatMap.mpr ⟨_, List.mem_map.mpr ⟨_, hpath, rfl⟩, hmem⟩, heq⟩
  refine ⟨hunpacked, fun names hnames names' hnames' hprefix => ?_⟩
  obtain ⟨bytes, hget⟩ := Option.isSome_iff_exists.mp (get_isSome_iff.mpr hnames)
  obtain ⟨bytes', hget'⟩ := Option.isSome_iff_exists.mp (get_isSome_iff.mpr hnames')
  obtain ⟨hne, hn, -, info, file, hinfo, hfile, -⟩ := (hunpacked _ _).mp hget
  obtain ⟨hne', hn', -, info', file', hinfo', hfile', -⟩ := (hunpacked _ _).mp hget'
  obtain ⟨rest, rfl⟩ := hprefix
  by_contra hdiffer
  have hrest : rest ≠ [] := by
    rintro rfl
    exact hdiffer (List.append_nil names).symm
  refine not_below_file h (joinPath_endsWith hne hn) ⟨info, hinfo, hfile⟩
    (joinPath_endsWith hne' hn') ⟨info', hinfo', hfile'⟩ ⟨joinPath rest, ?_⟩
  rw [joinPath_append hne hrest, List.append_assoc]
  rfl

/-- What is in the files of the example. -/
def shortFiles (path : JString) : List (List UInt8) :=
  if path = lit "x" then [utf8 (lit "one"), utf8 (lit "12")] else [utf8 (lit "another")]

/-- Two directories, of which one has a slash in front of its virtual path and one has not: the
second download is of a directory inside the first one. -/
theorem downloads_reproduce_tree_twoDirectories :
    ∃ t, addFromReader [lit "a/b/f,x,5,1,text/plain", lit "c,,0,0,directory",
        lit "c/d/g,y,7,1,text/plain"] newRoot = .ok t ∧
      (tarPrefix <$> directoryAt t [lit "a"], tarPrefix <$> directoryAt t [lit "c"]) =
        (some (lit "a/"), some (lit "/c/")) ∧
      get (unpackAll posixRecords shortFiles ([some (lit "/a"), some (lit "/c/d/"), none].map
        (doHeadOrGet posixRecords id t fun _ => false))) [lit "c", lit "d", lit "g"] =
          some (utf8 (lit "another")) := by
  have hrun : ((addFromReader [lit "a/b/f,x,5,1,text/plain", lit "c,,0,0,directory",
      lit "c/d/g,y,7,1,text/plain"] newRoot).toOption.map fun t =>
        ((tarPrefix <$> directoryAt t [lit "a"], tarPrefix <$> directoryAt t [lit "c"]),
          ((resolvePath (lit "c/d/g") (fun _ => false) t).toOption.map
            fun info => info.file.map VirtualFile.filesystemPath),
          decide (DotFree (fun _ => false) t),
          [some (lit "/a"), some (lit "/c/d/"), none].all fun pathInfo =>
            (doHeadOrGet posixRecords id t (fun _ => false) pathInfo).isCompleted posixRecords
              shortFiles)) =
      some ((some (lit "a/"), some (lit "/c/")), some (some (lit "y")), true, true) := by
    decide +kernel
  obtain ⟨t, ht, hviews⟩ := Option.map_eq_some_iff.mp hrun
  simp only [Prod.mk.injEq] at hviews
  obtain ⟨hprefixes, hresolve, hdots, hcompleted⟩ := hviews
  obtain ⟨info, hinfo, hinfo'⟩ := Option.map_eq_some_iff.mp hresolve
  obtain ⟨file, hfile, hpath⟩ := Option.map_eq_some_iff.mp hinfo'
  have ht := ok_of_toOption ht
  refine ⟨t, ht, Prod.ext hprefixes.1 hprefixes.2, ?_⟩
  refine ((downloads_reproduce_tree ht (of_decide_eq_true hdots) posixRecords id shortFiles _
    (List.all_eq_true.mp hcompleted)).1 _ _).mpr
    ⟨by decide, ?_, ⟨lit "/c/d/", by decide, by decide⟩, info, file, ok_of_toOption hinfo, hfile,
      ?_⟩
  · intro n hn
    unfold IsName
    revert n
    decide
  · rw [hpath]
    decide

end HdfStream.Webapp
