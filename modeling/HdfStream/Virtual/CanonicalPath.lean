/-
# The paths that the nodes of the tree have

Every file and every directory keeps its virtual path, which is put together from that of its
parent when it is made.  Below a directory other than the root this is always the path of the
directory, a slash and the name (`addFile_extends`).  Below the root there are two forms: a file, or
a directory that has a line of its own, gets a slash and its name, but a directory that is made on
the way to something else gets its name alone.

`knowsPaths_iff` says when all paths are the ones under which the nodes are found, with a slash in
front: every line that goes below a directory of the root comes after a line for that directory.
The prefix and the name of a tar file (`TarFileServlet.java`) are made from the virtual path.
-/
import HdfStream.Virtual.Configuration

namespace HdfStream.Virtual

open Java LinkedMap Outcome

/-! ## 1. What is made from the virtual path -/

/-- `String.replace`, for characters. -/
def replace (old new : Char) (s : JString) : JString := s.map fun c => if c = old then new else c

/-- The prefix of the entries of a tar file. -/
def tarPrefix (directory : VirtualDirectory) : JString :=
  if 0 < directory.virtualPath.length then directory.virtualPath ++ ['/'] else []

/-- The name of a tar file; `encode` is `URLEncoder.encode`. -/
def tarName (encode : JString → JString) (directory : VirtualDirectory) : JString :=
  encode (replace '/' '_' directory.virtualPath ++ lit ".tar")

/-- Every file and every directory below the root has the path under which it is found, with a
slash in front; the prefix and the name of a tar file are made from this path. -/
structure KnowsPaths (t : VirtualDirectory) : Prop where
  file : ∀ names file, fileAt t names = some file →
    FindsFile t (joinPath names) file ∧ file.virtualPath = '/' :: joinPath names
  directory : ∀ names d, names ≠ [] → directoryAt t names = some d →
    FindsDirectory t (joinPath names) d ∧ d.virtualPath = '/' :: joinPath names ∧
      tarPrefix d = '/' :: joinPath names ++ ['/'] ∧
      ∀ encode, tarName encode d = encode (replace '/' '_' ('/' :: joinPath names) ++ lit ".tar")

/-- Every line that goes below a directory of the root comes after a line for that directory. -/
def TopsFirst (lines : List JString) : Prop :=
  ∀ before text after, lines = before ++ text :: after →
    ∀ path line name remainder, parseLine text = .ok (path, line) →
      splitPath path = .ok (some name, remainder) →
      ∃ text' ∈ before, ∃ line', parseLine text' = .ok (name, line') ∧ line'.isDirectory = true

/-! ## 2. Below a directory -/

/-- A slash before each component. -/
def slashed (names : List JString) : JString := names.flatMap fun name => '/' :: name

theorem slashed_eq {names : List JString} (h : names ≠ []) :
    slashed names = '/' :: joinPath names := by
  induction names with
  | nil => exact absurd rfl h
  | cons name names ih =>
    by_cases hnil : names = []
    · subst hnil
      exact List.append_nil _
    · rw [joinPath_cons hnil, ← ih hnil]
      rfl

/-- Below `d` every virtual path is that of `d`, and the names on the way. -/
structure Extends (d : VirtualDirectory) : Prop where
  directory : ∀ names s, directoryAt d names = some s →
    s.virtualPath = d.virtualPath ++ slashed names
  file : ∀ names file, fileAt d names = some file →
    file.virtualPath = d.virtualPath ++ slashed names

theorem newDirectory_extends (d : VirtualDirectory) (virtualPath : JString)
    (roles : List JString) : Extends (newDirectory d virtualPath roles) where
  directory names s hs := by
    obtain ⟨rfl, rfl⟩ := directoryAt_new hs
    exact (List.append_nil _).symm
  file names file hfile := by
    rw [fileAt_newDirectory] at hfile
    cases hfile

/-- The metadata path and the roles of a directory change. -/
theorem Extends.congr {d d' : VirtualDirectory} (h : Extends d)
    (hchildren : d'.children = d.children) (hfiles : d'.files = d.files)
    (hpath : d'.virtualPath = d.virtualPath) : Extends d' where
  directory names s hs := by
    rw [hpath]
    cases names with
    | nil =>
      cases hs
      rw [hpath]
      exact (List.append_nil _).symm
    | cons name names =>
      rw [directoryAt_congr hchildren] at hs
      exact h.directory _ s hs
  file names file hfile := by
    rw [fileAt_congr hfiles hchildren] at hfile
    rw [hpath]
    exact h.file _ file hfile

theorem virtualPath_putDirectory (name : JString) (sub d : VirtualDirectory) :
    (putDirectory name sub d).virtualPath = d.virtualPath :=
  congrArg DirectoryFields.virtualPath (val_putDirectory _ _ _)

/-- **A subdirectory** with the right path. -/
theorem Extends.putDirectory {d sub : VirtualDirectory} {name : JString} (h : Extends d)
    (hsub : Extends sub) (hpath : sub.virtualPath = d.virtualPath ++ '/' :: name) :
    Extends (putDirectory name sub d) where
  directory names s hs := by
    rw [virtualPath_putDirectory]
    cases names with
    | nil =>
      cases hs
      rw [virtualPath_putDirectory]
      exact (List.append_nil _).symm
    | cons k names =>
      by_cases hk : name = k
      · subst hk
        rw [directoryAt_put_self] at hs
        rw [hsub.directory _ s hs, hpath, List.append_assoc]
        rfl
      · rw [directoryAt_put_ne hk] at hs
        exact h.directory _ s hs
  file names file hfile := by
    rw [virtualPath_putDirectory]
    cases names with
    | nil => cases hfile
    | cons k names =>
      by_cases hk : name = k
      · subst hk
        by_cases hnil : names = []
        · subst hnil
          rw [fileAt, files_putDirectory] at hfile
          exact h.file [name] file hfile
        · rw [fileAt_put_self hnil] at hfile
          rw [hsub.file _ file hfile, hpath, List.append_assoc]
          rfl
      · rw [fileAt_put_ne hk] at hfile
        exact h.file _ file hfile

theorem virtualPath_putFile (name : JString) (file : VirtualFile) (d : VirtualDirectory) :
    (putFile name file d).virtualPath = d.virtualPath := by
  cases d with
  | node fields subdirs => rfl

/-- **A file** with the right path. -/
theorem Extends.putFile {d : VirtualDirectory} {name : JString} (h : Extends d)
    {file : VirtualFile} (hpath : file.virtualPath = d.virtualPath ++ '/' :: name) :
    Extends (putFile name file d) where
  directory names s hs := by
    rw [virtualPath_putFile]
    cases names with
    | nil =>
      cases hs
      rw [virtualPath_putFile]
      exact (List.append_nil _).symm
    | cons k names =>
      rw [directoryAt_congr (children_putFile name file d)] at hs
      exact h.directory _ s hs
  file names file' hfile := by
    rw [virtualPath_putFile]
    rcases names with _ | ⟨k, _ | ⟨k', names⟩⟩
    · cases hfile
    · rw [fileAt, files_putFile] at hfile
      by_cases hk : name = k
      · subst hk
        rw [get_put_self] at hfile
        cases hfile
        rw [hpath]
        exact congrArg (d.virtualPath ++ ·) (List.append_nil _).symm
      · rw [get_put_ne _ hk] at hfile
        exact h.file [k] file' hfile
    · refine h.file _ file' ?_
      rw [← hfile, fileAt, fileAt, VirtualDirectory.directories, VirtualDirectory.directories,
        children_putFile]
      · exact List.cons_ne_nil _ _
      · exact List.cons_ne_nil _ _

/-- `setRealPath`, and more roles. -/
theorem Extends.setRealPath {d d' : VirtualDirectory} (h : Extends d) {realPath : JString}
    (hset : setRealPath realPath d = .ok d') :
    (Extends d' ∧ d'.virtualPath = d.virtualPath) ∧
      ∀ roles, Extends (requireRoles roles d') ∧
        (requireRoles roles d').virtualPath = d.virtualPath := by
  obtain ⟨hchildren, path, hval⟩ := setRealPath_ok hset
  have hpath : d'.virtualPath = d.virtualPath := by
    rw [VirtualDirectory.virtualPath, hval]
    rfl
  have hfiles : d'.files = d.files := by
    rw [VirtualDirectory.files, hval]
    rfl
  refine ⟨⟨h.congr hchildren hfiles hpath, hpath⟩, fun roles => ?_⟩
  have hpath' : (requireRoles roles d').virtualPath = d'.virtualPath := by
    rw [VirtualDirectory.virtualPath, val_requireRoles]
    rfl
  have hfiles' : (requireRoles roles d').files = d'.files := by
    rw [VirtualDirectory.files, val_requireRoles]
    rfl
  exact ⟨h.congr ((children_requireRoles roles d').trans hchildren) (hfiles'.trans hfiles)
    (hpath'.trans hpath), hpath'.trans hpath⟩

/-- What `addHere` does: a file with its path, or a subdirectory, which is there or gets a slash and
its name. -/
theorem addHere_cases {name : JString} {line : Line} {d d' : VirtualDirectory}
    (h : addHere name line d = .ok d') :
    (line.isDirectory = false ∧ ∃ file : VirtualFile,
      file.virtualPath = d.virtualPath ++ '/' :: name ∧ d' = putFile name file d) ∨
    (line.isDirectory = true ∧ ∃ sub' : VirtualDirectory, d' = putDirectory name sub' d ∧
      ((get d.directories name = none ∧ Extends sub' ∧
          sub'.virtualPath = d.virtualPath ++ '/' :: name) ∨
        ∃ sub, get d.directories name = some sub ∧
          (Extends sub → Extends sub' ∧ sub'.virtualPath = sub.virtualPath))) := by
  unfold addHere at h
  split at h
  · rename_i hdir
    split at h
    · cases h
    split at h
    · rename_i hnone
      obtain ⟨sub', hset, rfl⟩ := map_eq_ok h
      exact .inr ⟨hdir, sub', rfl, .inl ⟨hnone,
        ((newDirectory_extends d _ line.requiredRoles).setRealPath hset).1⟩⟩
    · rename_i sub hsub
      obtain ⟨sub', hset, rfl⟩ := map_eq_ok h
      exact .inr ⟨hdir, _, rfl, .inr ⟨sub, hsub, fun hext =>
        (hext.setRealPath hset).2 line.requiredRoles⟩⟩
  · rename_i hdir
    split at h
    · cases h
    split at h
    · cases h
    cases h
    exact .inl ⟨Bool.eq_false_iff.mpr hdir, _, rfl, rfl⟩

/-- What `addFile` does with a longer path: it goes on in a subdirectory, which is there or is made
on the way. -/
theorem addFile_cases {path : JString} {line : Line} {d d' : VirtualDirectory}
    (h : addFile path line d = .ok d') :
    (splitPath path = .ok (none, path) ∧ addHere path line d = .ok d') ∨
    ∃ name remainder sub sub', splitPath path = .ok (some name, remainder) ∧
      addFile remainder line sub = .ok sub' ∧ d' = putDirectory name sub' d ∧
      (get d.directories name = some sub ∨
        (get d.directories name = none ∧ sub = newDirectory d (implicitPath d name) [])) := by
  rw [addFile] at h
  split at h
  · cases h
  · rename_i remainder hsplit
    obtain ⟨rfl, -⟩ := splitPath_ok hsplit
    exact .inl ⟨hsplit, h⟩
  · rename_i name remainder hsplit
    split at h
    · rename_i sub hsub
      obtain ⟨sub', hadd, rfl⟩ := map_eq_ok h
      exact .inr ⟨name, remainder, sub, sub', hsplit, hadd, rfl, .inl hsub⟩
    · rename_i hnone
      split at h
      · cases h
      obtain ⟨sub', hadd, rfl⟩ := map_eq_ok h
      exact .inr ⟨name, remainder, _, sub', hsplit, hadd, rfl, .inr ⟨hnone, rfl⟩⟩

/-- The directory itself has the path without names. -/
theorem Extends.child {d sub : VirtualDirectory} {name : JString} (h : Extends d)
    (hsub : get d.directories name = some sub) :
    Extends sub ∧ sub.virtualPath = d.virtualPath ++ '/' :: name := by
  have hpath : sub.virtualPath = d.virtualPath ++ '/' :: name := by
    have hone := h.directory [name] sub (directoryAt_cons hsub [])
    rw [hone]
    exact congrArg (d.virtualPath ++ ·) (List.append_nil _)
  refine ⟨⟨fun names s hs => ?_, fun names file hfile => ?_⟩, hpath⟩
  · rw [h.directory (name :: names) s (by rw [directoryAt_cons hsub, hs]), hpath, List.append_assoc]
    rfl
  · by_cases hnil : names = []
    · subst hnil
      cases hfile
    · rw [h.file (name :: names) file (by rw [fileAt_cons hsub hnil, hfile]), hpath,
        List.append_assoc]
      rfl

/-- **A line below a directory** that is not the root. -/
theorem addFile_extends {path : JString} {line : Line} {d d' : VirtualDirectory}
    (h : addFile path line d = .ok d') (hd : Extends d) (hne : d.virtualPath ≠ []) :
    Extends d' ∧ d'.virtualPath = d.virtualPath := by
  induction hlen : path.length using Nat.strong_induction_on generalizing path d d' with
  | _ len ih =>
    subst hlen
    rcases addFile_cases h with ⟨-, hhere⟩ |
      ⟨name, remainder, sub, sub', hsplit, hadd, rfl, hsub⟩
    · rcases addHere_cases hhere with ⟨-, file, hpath, rfl⟩ |
        ⟨-, sub', rfl, ⟨-, hsub', hpath⟩ | ⟨sub, hsub, hkeep⟩⟩
      · exact ⟨hd.putFile hpath, virtualPath_putFile _ _ _⟩
      · exact ⟨hd.putDirectory hsub' hpath, virtualPath_putDirectory _ _ _⟩
      · obtain ⟨hext, hpath⟩ := hd.child hsub
        obtain ⟨hext', hpath'⟩ := hkeep hext
        exact ⟨hd.putDirectory hext' (hpath'.trans hpath), virtualPath_putDirectory _ _ _⟩
    · -- the subdirectory has the right path, also when it is new
      have hext : Extends sub ∧ sub.virtualPath = d.virtualPath ++ '/' :: name := by
        rcases hsub with hsub | ⟨-, rfl⟩
        · exact hd.child hsub
        · exact ⟨newDirectory_extends d _ [], if_pos (List.length_pos_iff.mpr hne)⟩
      have hne' : sub.virtualPath ≠ [] := by
        rw [hext.2]
        exact List.append_ne_nil_of_right_ne_nil _ (List.cons_ne_nil _ _)
      obtain ⟨hext', hpath'⟩ := ih _ (splitPath_length_lt hsplit) hadd hext.1 hne' rfl
      exact ⟨hd.putDirectory hext' (hpath'.trans hext.2), virtualPath_putDirectory _ _ _⟩

/-! ## 3. Below the root -/

/-- The directories of the root have a slash and their name. -/
def TopsKnow (t : VirtualDirectory) : Prop :=
  ∀ name sub, get t.directories name = some sub → sub.virtualPath = '/' :: name

/-- The line makes the directory `name` of the root, if it is not there. -/
def MakesTop (text name : JString) : Prop :=
  ∃ path line, parseLine text = .ok (path, line) ∧
    ((splitPath path = .ok (none, name) ∧ line.isDirectory = true) ∨
      ∃ remainder, splitPath path = .ok (some name, remainder))

/-- The root after some lines. -/
structure Rooted (lines : List JString) (t : VirtualDirectory) : Prop where
  path : t.virtualPath = []
  files : ∀ name file, get t.files name = some file → file.virtualPath = '/' :: name
  below : ∀ name sub, get t.directories name = some sub → Extends sub ∧ sub.virtualPath ≠ []
  made : ∀ name, (get t.directories name).isSome ↔ ∃ text ∈ lines, MakesTop text name

theorem get_putDirectory (name k : JString) (sub d : VirtualDirectory) :
    get (putDirectory name sub d).directories k =
      if k = name then some sub else get d.directories k := by
  rw [VirtualDirectory.directories, children_putDirectory]
  by_cases hk : k = name
  · rw [if_pos hk, hk, get_put_self]
  · rw [if_neg hk, get_put_ne _ fun h => hk h.symm]
    rfl

/-- A directory of the root is made, or changes. -/
theorem Rooted.putDirectory {lines : List JString} {t sub : VirtualDirectory}
    (h : Rooted lines t) {text name : JString} (hext : Extends sub)
    (hne : sub.virtualPath ≠ []) (hmakes : ∀ k, MakesTop text k ↔ k = name) :
    Rooted (lines ++ [text]) (putDirectory name sub t) where
  path := (virtualPath_putDirectory name sub t).trans h.path
  files k file hfile := by
    rw [files_putDirectory] at hfile
    exact h.files k file hfile
  below k s hs := by
    rw [get_putDirectory] at hs
    split at hs
    · cases hs
      exact ⟨hext, hne⟩
    · exact h.below k s hs
  made k := by
    rw [get_putDirectory]
    simp only [List.mem_append, List.mem_singleton, or_and_right, exists_or, exists_eq_left, hmakes,
      ← h.made]
    split
    · rename_i hk
      exact ⟨fun _ => .inr hk, fun _ => rfl⟩
    · rename_i hk
      exact ⟨.inl, fun hor => hor.resolve_right hk⟩

/-- A file of the root is made. -/
theorem Rooted.putFile {lines : List JString} {t : VirtualDirectory} (h : Rooted lines t)
    {text name : JString} {file : VirtualFile} (hpath : file.virtualPath = '/' :: name)
    (hmakes : ∀ k, ¬ MakesTop text k) : Rooted (lines ++ [text]) (putFile name file t) where
  path := (virtualPath_putFile name file t).trans h.path
  files k file' hfile := by
    rw [files_putFile] at hfile
    by_cases hk : name = k
    · subst hk
      rw [get_put_self] at hfile
      cases hfile
      exact hpath
    · rw [get_put_ne _ hk] at hfile
      exact h.files k file' hfile
  below k s hs := by
    rw [VirtualDirectory.directories, children_putFile] at hs
    exact h.below k s hs
  made k := by
    rw [VirtualDirectory.directories, children_putFile]
    simp only [List.mem_append, List.mem_singleton, or_and_right, exists_or, exists_eq_left, hmakes,
      or_false]
    exact h.made k

/-- What a line makes. -/
theorem makesTop_iff {text path k : JString} {line : Line}
    (hparse : parseLine text = .ok (path, line)) : MakesTop text k ↔
      (splitPath path = .ok (none, k) ∧ line.isDirectory = true) ∨
        ∃ remainder, splitPath path = .ok (some k, remainder) := by
  constructor
  · rintro ⟨path', line', hparse', h⟩
    rw [hparse] at hparse'
    cases hparse'
    exact h
  · exact fun h => ⟨path, line, hparse, h⟩

theorem topsFirst_snoc {lines : List JString} {text path : JString} {line : Line}
    (hparse : parseLine text = .ok (path, line)) :
    TopsFirst (lines ++ [text]) ↔ TopsFirst lines ∧
      ∀ name remainder, splitPath path = .ok (some name, remainder) →
        ∃ text' ∈ lines, ∃ line', parseLine text' = .ok (name, line') ∧
          line'.isDirectory = true := by
  constructor
  · intro h
    refine ⟨fun before text' after heq => ?_, fun name remainder hsplit =>
      h lines text [] rfl path line name remainder hparse hsplit⟩
    exact h before text' (after ++ [text])
      (by rw [heq, List.append_assoc, List.cons_append])
  · rintro ⟨h, hlast⟩ before text' after heq path' line' name remainder hparse' hsplit
    rcases List.eq_nil_or_concat after with rfl | ⟨after, b, rfl⟩
    · obtain ⟨hl, ha⟩ := List.append_inj' heq rfl
      cases ha
      rw [hparse] at hparse'
      cases hparse'
      rw [← hl]
      exact hlast name remainder hsplit
    · rw [List.concat_eq_append, ← List.cons_append, ← List.append_assoc] at heq
      exact h before text' after (List.append_inj' heq rfl).1 path' line' name remainder hparse'
        hsplit

/-- A directory of the root that changes keeps its path. -/
theorem topsKnow_old {t sub sub' : VirtualDirectory} {name : JString}
    (hsub : get t.directories name = some sub) (hpath : sub'.virtualPath = sub.virtualPath) :
    TopsKnow (putDirectory name sub' t) ↔ TopsKnow t := by
  constructor
  · intro h k s hs
    by_cases hk : k = name
    · subst hk
      rw [hsub] at hs
      cases hs
      rw [← hpath]
      exact h k sub' (by rw [get_putDirectory, if_pos rfl])
    · exact h k s (by rw [get_putDirectory, if_neg hk, hs])
  · intro h k s hs
    rw [get_putDirectory] at hs
    split at hs
    · rename_i hk
      cases hs
      rw [hpath, hk]
      exact h name sub hsub
    · exact h k s hs

/-- A directory of the root that is new has to have the right path. -/
theorem topsKnow_new {t sub' : VirtualDirectory} {name : JString}
    (hnone : get t.directories name = none) :
    TopsKnow (putDirectory name sub' t) ↔ TopsKnow t ∧ sub'.virtualPath = '/' :: name := by
  constructor
  · intro h
    refine ⟨fun k s hs => h k s ?_, h name sub' (by rw [get_putDirectory, if_pos rfl])⟩
    rw [get_putDirectory, if_neg, hs]
    rintro rfl
    rw [hnone] at hs
    cases hs
  · rintro ⟨h, hpath⟩ k s hs
    rw [get_putDirectory] at hs
    split at hs
    · rename_i hk
      cases hs
      rw [hpath, hk]
    · exact h k s hs

/-- A line for a file or a directory of the root. -/
theorem Rooted.here {lines : List JString} {t t' : VirtualDirectory} (h : Rooted lines t)
    {text path : JString} {line : Line} (hparse : parseLine text = .ok (path, line))
    (hsplit : splitPath path = .ok (none, path)) (hadd : addHere path line t = .ok t') :
    Rooted (lines ++ [text]) t' ∧ (TopsKnow t' ↔ TopsKnow t) := by
  have hmakes : ∀ k, MakesTop text k ↔ k = path ∧ line.isDirectory = true := by
    intro k
    rw [makesTop_iff hparse, hsplit]
    constructor
    · rintro (⟨hk, hdir⟩ | ⟨_, hk⟩)
      · cases hk
        exact ⟨rfl, hdir⟩
      · cases hk
    · rintro ⟨rfl, hdir⟩
      exact .inl ⟨rfl, hdir⟩
  rcases addHere_cases hadd with ⟨hkind, file, hpath, rfl⟩ |
    ⟨hdir, sub', rfl, ⟨hnone, hext, hpath⟩ | ⟨sub, hsub, hkeep⟩⟩
  · rw [h.path] at hpath
    refine ⟨h.putFile hpath fun k hk => ?_, ?_⟩
    · have hdir := ((hmakes k).mp hk).2
      rw [hkind] at hdir
      cases hdir
    · unfold TopsKnow
      rw [VirtualDirectory.directories, children_putFile]
      exact Iff.rfl
  · have hpath : sub'.virtualPath = '/' :: path := by rw [hpath, h.path, List.nil_append]
    refine ⟨h.putDirectory hext ?_ fun k => ?_, ?_⟩
    · rw [hpath]
      exact List.cons_ne_nil _ _
    · rw [hmakes, and_iff_left hdir]
    · rw [topsKnow_new hnone, and_iff_left hpath]
  · obtain ⟨hext, hne⟩ := h.below path sub hsub
    obtain ⟨hext', hpath⟩ := hkeep hext
    refine ⟨h.putDirectory hext' (by rw [hpath]; exact hne) fun k => ?_, topsKnow_old hsub hpath⟩
    rw [hmakes, and_iff_left hdir]

/-- A line below a directory of the root. -/
theorem Rooted.descend {lines : List JString} {t sub sub' : VirtualDirectory} (h : Rooted lines t)
    {text path name remainder : JString} {line : Line}
    (hparse : parseLine text = .ok (path, line))
    (hsplit : splitPath path = .ok (some name, remainder))
    (hadd : addFile remainder line sub = .ok sub')
    (hsub : get t.directories name = some sub ∨
      (get t.directories name = none ∧ sub = newDirectory t (implicitPath t name) [])) :
    Rooted (lines ++ [text]) (Virtual.putDirectory name sub' t) ∧
      (TopsKnow (Virtual.putDirectory name sub' t) ↔
        TopsKnow t ∧ (get t.directories name).isSome = true) := by
  have hmakes : ∀ k, MakesTop text k ↔ k = name := by
    intro k
    rw [makesTop_iff hparse, hsplit]
    constructor
    · rintro (⟨hk, -⟩ | ⟨_, hk⟩)
      · cases hk
      · cases hk
        rfl
    · rintro rfl
      exact .inr ⟨remainder, rfl⟩
  rcases hsub with hsub | ⟨hnone, rfl⟩
  · obtain ⟨hext, hne⟩ := h.below name sub hsub
    obtain ⟨hext', hpath⟩ := addFile_extends hadd hext hne
    refine ⟨h.putDirectory hext' (by rw [hpath]; exact hne) hmakes, ?_⟩
    rw [topsKnow_old hsub hpath, hsub]
    exact (and_iff_left rfl).symm
  · have hname : name ≠ [] := (splitPath_ok hsplit).2.1.1
    have himplicit : implicitPath t name = name := by
      rw [implicitPath, h.path]
      rfl
    rw [himplicit] at hadd
    obtain ⟨hext', hpath⟩ := addFile_extends hadd (newDirectory_extends t name []) hname
    have hpath : sub'.virtualPath = name := hpath
    refine ⟨h.putDirectory hext' (by rw [hpath]; exact hname) hmakes, ?_⟩
    rw [topsKnow_new hnone, hnone]
    refine ⟨fun hknow => ?_, fun hknow => Bool.noConfusion hknow.2⟩
    -- the new directory has no slash in front
    have hlen := congrArg List.length (hpath.symm.trans hknow.2)
    rw [List.length_cons] at hlen
    omega

/-- **Every line**: the directories of the root still have the right paths if and only if they had
before, and the line goes below none of them that is not there yet. -/
theorem Rooted.line {lines : List JString} {t t' : VirtualDirectory} (h : Rooted lines t)
    (hknow : TopsKnow t ↔ TopsFirst lines) {text path : JString} {line : Line}
    (hparse : parseLine text = .ok (path, line)) (hadd : addFile path line t = .ok t') :
    Rooted (lines ++ [text]) t' ∧ (TopsKnow t' ↔ TopsFirst (lines ++ [text])) := by
  rw [topsFirst_snoc hparse, ← hknow]
  rcases addFile_cases hadd with ⟨hsplit, hhere⟩ |
    ⟨name, remainder, sub, sub', hsplit, hadd', rfl, hsub⟩
  · obtain ⟨hrooted, htops⟩ := h.here hparse hsplit hhere
    refine ⟨hrooted, htops.trans (and_iff_left fun name remainder hsplit' => ?_).symm⟩
    rw [hsplit] at hsplit'
    cases hsplit'
  · obtain ⟨hrooted, htops⟩ := h.descend hparse hsplit hadd' hsub
    refine ⟨hrooted, htops.trans (and_congr_right fun htopsKnow => ?_)⟩
    rw [h.made]
    constructor
    · rintro ⟨text', htext', path', line', hparse', hmakes⟩ name' remainder' hsplit'
      rw [hsplit] at hsplit'
      cases hsplit'
      rcases hmakes with ⟨hsplit'', hdir⟩ | ⟨remainder'', hsplit''⟩
      · obtain ⟨rfl, -⟩ := splitPath_ok hsplit''
        exact ⟨text', htext', line', hparse', hdir⟩
      · -- that line went below the directory, so there is a line before it
        obtain ⟨before, after, rfl⟩ := List.append_of_mem htext'
        obtain ⟨text'', htext'', hline⟩ := hknow.mp htopsKnow before text' after rfl path' line'
          name remainder'' hparse' hsplit''
        exact ⟨text'', List.mem_append_left _ htext'', hline⟩
    · intro hlisted
      obtain ⟨text', htext', line', hparse', hdir⟩ := hlisted name remainder hsplit
      exact ⟨text', htext', name, line', hparse', .inl ⟨splitPath_name (splitPath_ok hsplit).2.1,
        hdir⟩⟩

theorem rooted_addFromReader {lines : List JString} {t : VirtualDirectory}
    (h : addFromReader lines newRoot = .ok t) :
    Rooted lines t ∧ (TopsKnow t ↔ TopsFirst lines) := by
  induction lines using List.reverseRecOn generalizing t with
  | nil =>
    cases h
    refine ⟨⟨rfl, fun name file hfile => ?_, fun name sub hsub => ?_, fun name => ?_⟩,
      fun _ before text after heq => ?_, fun _ name sub hsub => ?_⟩
    · cases hfile
    · cases hsub
    · exact ⟨fun h => Bool.noConfusion h, fun ⟨text, htext, _⟩ => absurd htext List.not_mem_nil⟩
    · exact absurd heq.symm (List.append_ne_nil_of_right_ne_nil _ (List.cons_ne_nil _ _))
    · cases hsub
  | append_singleton lines text ih =>
    obtain ⟨t₀, path, line, hlines, hparse, hadd⟩ := addFromReader_snoc.mp h
    obtain ⟨hrooted, hknow⟩ := ih hlines
    exact hrooted.line hknow hparse hadd

/-! ## 4. The whole tree -/

/-- The root is like any other directory then. -/
theorem Rooted.extends {lines : List JString} {t : VirtualDirectory} (h : Rooted lines t)
    (hknow : TopsKnow t) : Extends t where
  directory names s hs := by
    cases names with
    | nil =>
      cases hs
      exact (List.append_nil _).symm
    | cons name names =>
      cases hsub : get t.directories name with
      | none =>
        rw [directoryAt_none hsub] at hs
        cases hs
      | some sub =>
        rw [directoryAt_cons hsub] at hs
        rw [(h.below name sub hsub).1.directory names s hs, hknow name sub hsub, h.path]
        rfl
  file names file hfile := by
    rcases names with _ | ⟨name, names⟩
    · cases hfile
    by_cases hnil : names = []
    · subst hnil
      rw [h.files name file hfile, h.path]
      exact (List.append_nil _).symm
    cases hsub : get t.directories name with
    | none =>
      rw [fileAt_none hsub hnil] at hfile
      cases hfile
    | some sub =>
      rw [fileAt_cons hsub hnil] at hfile
      rw [(h.below name sub hsub).1.file names file hfile, hknow name sub hsub, h.path]
      rfl

/-- The nodes of a tree that was read are found under their paths. -/
theorem Built.finds {es : List (List JString × Line)} {t : VirtualDirectory} (h : Built es t) :
    (∀ names file, Virtual.fileAt t names = some file → names ≠ [] ∧
      FindsFile t (joinPath names) file) ∧
    ∀ names d, names ≠ [] → directoryAt t names = some d → FindsDirectory t (joinPath names) d := by
  have hnames : ∀ names, names ≠ [] → Named t names → ∀ n ∈ names, IsName n := by
    intro names hne hnamed n hn
    obtain ⟨e, he, hbefore⟩ := (h.named hne).mp hnamed
    exact (h.names e he).2 n (hbefore.subset hn)
  refine ⟨fun names file hfile => ?_, fun names d hne hd => ?_⟩
  · have hne : names ≠ [] := by
      rintro rfl
      cases hfile
    have hn := hnames names hne (named_of_fileAt (by rw [hfile]; rfl))
    exact ⟨hne, (findsFile_iff h.ok).mpr ⟨names, hne, hn, stripSlash_joinPath hne hn, hfile⟩⟩
  · have hn := hnames names hne (named_of_directoryAt (by rw [hd]; rfl))
    exact (findsDirectory_iff h.ok).mpr ⟨names, hne, hn, stripSlash_joinPath hne hn, hd⟩

/-- **When every node knows its path.** -/
theorem knowsPaths_iff {lines : List JString} {t : VirtualDirectory}
    (h : addFromReader lines newRoot = .ok t) : KnowsPaths t ↔ TopsFirst lines := by
  obtain ⟨hrooted, hknow⟩ := rooted_addFromReader h
  obtain ⟨es, -, hbuilt⟩ := addFromReader_built h
  obtain ⟨hfiles, hdirectories⟩ := hbuilt.finds
  rw [← hknow]
  constructor
  · intro hpaths name sub hsub
    exact (hpaths.directory [name] sub (List.cons_ne_nil _ _) (directoryAt_cons hsub [])).2.1
  · intro htops
    have hext := hrooted.extends htops
    refine ⟨fun names file hfile => ?_, fun names d hne hd => ?_⟩
    · obtain ⟨hne, hfinds⟩ := hfiles names file hfile
      have hpath := hext.file names file hfile
      rw [hrooted.path, List.nil_append, slashed_eq hne] at hpath
      exact ⟨hfinds, hpath⟩
    · have hpath := hext.directory names d hd
      rw [hrooted.path, List.nil_append, slashed_eq hne] at hpath
      refine ⟨hdirectories names d hne hd, hpath, ?_, fun encode => ?_⟩
      · rw [tarPrefix, hpath]
        exact if_pos (Nat.succ_pos _)
      · rw [tarName, hpath]

/-- A directory of the root, and a file in it. -/
def directoryFirst : List JString := [lit "a,/m,0,0,directory", lit "a/f,/x,5,10,text/plain"]

theorem directoryFirst_topsFirst : TopsFirst directoryFirst := by
  have hdirectory : (parseLine (lit "a,/m,0,0,directory")).toOption.map
      (fun r => (r.1, r.2.isDirectory, (splitPath r.1).toOption)) =
      some (lit "a", true, some (none, lit "a")) := by decide +kernel
  have hfile : (parseLine (lit "a/f,/x,5,10,text/plain")).toOption.map
      (fun r => (splitPath r.1).toOption) = some (some (some (lit "a"), lit "f")) := by
    decide +kernel
  obtain ⟨⟨path', line'⟩, hparse', hline'⟩ := Option.map_eq_some_iff.mp hdirectory
  simp only [Prod.mk.injEq] at hline'
  obtain ⟨rfl, hdir, hsplit'⟩ := hline'
  have hparse' := ok_of_toOption hparse'
  intro before text after heq path line name remainder hparse hsplit
  rcases before with _ | ⟨text', before⟩
  · -- the first line goes below nothing
    rw [directoryFirst, List.nil_append, List.cons.injEq] at heq
    rw [← heq.1, hparse'] at hparse
    cases hparse
    rw [hsplit] at hsplit'
    cases hsplit'
  · rw [directoryFirst, List.cons_append, List.cons.injEq] at heq
    obtain ⟨rfl, heq⟩ := heq
    rcases before with _ | ⟨text'', before⟩
    · rw [List.nil_append, List.cons.injEq] at heq
      rw [heq.1, hparse] at hfile
      have hname := Option.some.inj hfile
      dsimp only at hname
      rw [hsplit] at hname
      cases hname
      exact ⟨_, List.mem_singleton_self _, line', hparse', hdir⟩
    · rw [List.cons_append, List.cons.injEq] at heq
      exact absurd heq.2.symm (List.append_ne_nil_of_right_ne_nil _ (List.cons_ne_nil _ _))

theorem knowsPaths_iff_directoryFirst :
    ∃ t, addFromReader directoryFirst newRoot = .ok t ∧ KnowsPaths t := by
  have hread : (addFromReader directoryFirst newRoot).toOption.isSome := by decide +kernel
  obtain ⟨t, ht⟩ := Option.isSome_iff_exists.mp hread
  exact ⟨t, ok_of_toOption ht, (knowsPaths_iff (ok_of_toOption ht)).mpr directoryFirst_topsFirst⟩

/-- **A file without a slash in front**, in a directory that has no line. -/
theorem fileOnly_not_knowsPaths :
    ∃ t, addFromReader [lit "a/f,/x,5,10,text/plain"] newRoot = .ok t ∧
      (fileAt t [lit "a", lit "f"]).map VirtualFile.virtualPath = some (lit "a/f") ∧
      ¬ KnowsPaths t := by
  have hread : (addFromReader [lit "a/f,/x,5,10,text/plain"] newRoot).toOption.map
      (fun t => (fileAt t [lit "a", lit "f"]).map VirtualFile.virtualPath) =
      some (some (lit "a/f")) := by decide +kernel
  obtain ⟨t, ht, hpath⟩ := Option.map_eq_some_iff.mp hread
  refine ⟨t, ok_of_toOption ht, hpath, fun hknows => ?_⟩
  obtain ⟨file, hfile, hvirtual⟩ := Option.map_eq_some_iff.mp hpath
  have hcanonical := (hknows.file _ file hfile).2
  rw [hvirtual] at hcanonical
  exact absurd hcanonical (by decide +kernel)

end HdfStream.Virtual
