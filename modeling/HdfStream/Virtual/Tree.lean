/-
# What a line of the configuration does to the tree

`addFile` goes down the components of its path, making directories where there are none, and
adds a file or a directory at the end.  `Added` says this as a relation on the components, one
constructor for each thing a level can do; everything about the tree is proved by induction on
it.  `Built` chains the lines of a configuration.

`DirectoryOk` is the invariant of a directory: its maps have distinct keys, which are
components of paths, no name is both a file and a directory, and `size_of_files` is the sum of
the lengths of its files.
-/
import HdfStream.Virtual.Paths
import Mathlib.Data.BitVec

namespace HdfStream.Virtual

open Java LinkedMap

/-! ## 1. One line -/

/-- The subdirectory `name` of `d`: the one there is, or a new one. -/
inductive Subdirectory (d : VirtualDirectory) (name : JString) : VirtualDirectory → Prop where
  | old {sub : VirtualDirectory} (hsub : get d.directories name = some sub) :
      Subdirectory d name sub
  | new (virtualPath : JString) (hsub : get d.directories name = none)
      (hfile : get d.files name = none) : Subdirectory d name (newDirectory d virtualPath [])

/-- The file a line adds to `d`. -/
def newFile (d : VirtualDirectory) (name : JString) (line : Line) : VirtualFile where
  virtualPath := d.virtualPath ++ '/' :: name
  filesystemPath := line.realFilename
  length := line.length
  lastModified := line.lastModified
  mediaType := line.mediaType

/-- `line` with the path `names` turns the first directory into the second. -/
inductive Added (line : Line) : List JString → VirtualDirectory → VirtualDirectory → Prop where
  | directory {d sub sub' : VirtualDirectory} {name : JString} (hdir : line.isDirectory = true)
      (hfile : get d.files name = none) (hsub : Subdirectory d name sub)
      (hpath : setRealPath line.realFilename sub = .ok sub') :
      Added line [name] d (putDirectory name (requireRoles line.requiredRoles sub') d)
  | file {d : VirtualDirectory} {name : JString} (hdir : line.isDirectory = false)
      (hfile : get d.files name = none) (hsub : get d.directories name = none) :
      Added line [name] d (putFile name (newFile d name line) d)
  | descend {d sub sub' : VirtualDirectory} {name : JString} {names : List JString}
      (hsub : Subdirectory d name sub) (h : Added line names sub sub') :
      Added line (name :: names) d (putDirectory name sub' d)

theorem setRealPath_newDirectory {d sub : VirtualDirectory} {realPath virtualPath : JString}
    {roles : List JString} (h : setRealPath realPath (newDirectory d virtualPath roles) = .ok sub) :
    ∃ sub', setRealPath realPath (newDirectory d virtualPath []) = .ok sub' ∧
      sub = requireRoles roles sub' := by
  cases h
  exact ⟨_, rfl, rfl⟩

theorem ok_of_toOption {ε α : Type} {x : Except ε α} {a : α} (h : x.toOption = some a) :
    x = .ok a := by
  cases x with
  | error e => cases h
  | ok b => exact congrArg Except.ok (Option.some.inj h)

theorem map_eq_ok {ε α β : Type} {f : α → β} {x : Except ε α} {b : β} (h : x.map f = .ok b) :
    ∃ a, x = .ok a ∧ b = f a := by
  cases x with
  | error e => cases h
  | ok a => exact ⟨a, rfl, (Except.ok.inj h).symm⟩

theorem addHere_added {line : Line} {name : JString} {d d' : VirtualDirectory}
    (h : addHere name line d = .ok d') : Added line [name] d d' := by
  unfold addHere at h
  split at h
  · rename_i hdir
    split at h
    · cases h
    rename_i hfile
    have hfile := Option.not_isSome_iff_eq_none.mp hfile
    split at h
    · rename_i hlookup
      obtain ⟨sub, hpath, rfl⟩ := map_eq_ok h
      obtain ⟨sub', hpath', rfl⟩ := setRealPath_newDirectory hpath
      exact .directory hdir hfile (.new _ hlookup hfile) hpath'
    · rename_i sub hlookup
      obtain ⟨sub', hpath, rfl⟩ := map_eq_ok h
      exact .directory hdir hfile (.old hlookup) hpath
  · rename_i hdir
    split at h
    · cases h
    rename_i hfile
    split at h
    · cases h
    rename_i hsub
    cases h
    exact .file (Bool.eq_false_iff.mpr hdir) (Option.not_isSome_iff_eq_none.mp hfile)
      (Option.not_isSome_iff_eq_none.mp hsub)

/-- **What `addFile` does**, in terms of the components of the path. -/
theorem addFile_added {line : Line} {path : JString} {d d' : VirtualDirectory}
    (h : addFile path line d = .ok d') :
    ∃ names, names ≠ [] ∧ (∀ n ∈ names, IsName n) ∧ path = joinPath names ∧
      Added line names d d' := by
  induction hlen : path.length using Nat.strong_induction_on generalizing path d d' with
  | _ len ih =>
    subst hlen
    rw [addFile] at h
    split at h
    · cases h
    · rename_i name hsplit
      obtain ⟨rfl, hname⟩ := splitPath_ok hsplit
      refine ⟨[path], List.cons_ne_nil _ _, fun n hn => ?_, rfl, addHere_added h⟩
      rwa [List.mem_singleton.mp hn]
    · rename_i name remainder hsplit
      obtain ⟨rfl, hname, hne⟩ := splitPath_ok hsplit
      -- both branches go on in a subdirectory, which is there or new
      have hsub : ∃ sub sub', Subdirectory d name sub ∧ addFile remainder line sub = .ok sub' ∧
          d' = putDirectory name sub' d := by
        split at h
        · rename_i sub hlookup
          obtain ⟨sub', hadd, rfl⟩ := map_eq_ok h
          exact ⟨sub, sub', .old hlookup, hadd, rfl⟩
        · rename_i hlookup
          split at h
          · cases h
          rename_i hfile
          obtain ⟨sub', hadd, rfl⟩ := map_eq_ok h
          exact ⟨_, sub', .new _ hlookup (Option.not_isSome_iff_eq_none.mp hfile), hadd, rfl⟩
      obtain ⟨sub, sub', hsub, hadd, rfl⟩ := hsub
      obtain ⟨names, hnames, hn, rfl, hadded⟩ := ih _ (splitPath_length_lt hsplit) hadd rfl
      refine ⟨name :: names, List.cons_ne_nil _ _, fun n hn' => ?_,
        (joinPath_cons hnames name).symm,
        .descend hsub hadded⟩
      rcases List.mem_cons.mp hn' with rfl | hn'
      · exact hname
      · exact hn n hn'

/-! ## 2. The invariant -/

/-- What holds of every directory of the tree. -/
structure DirectoryOk (d : VirtualDirectory) : Prop where
  files_nodup : (keys d.files).Nodup
  unique : d.UniqueNames
  disjoint : ∀ n ∈ keys d.files, n ∉ keys d.directories
  files_name : ∀ n ∈ keys d.files, IsName n
  directories_name : ∀ n ∈ keys d.directories, IsName n
  size : d.val.sizeOfFiles = (d.files.map fun entry => entry.2.length).sum

theorem newDirectory_ok (d : VirtualDirectory) (virtualPath : JString) (roles : List JString) :
    DirectoryOk (newDirectory d virtualPath roles) where
  files_nodup := List.nodup_nil
  unique := List.nodup_nil
  disjoint := fun n hn => by cases hn
  files_name := fun n hn => by cases hn
  directories_name := fun n hn => by cases hn
  size := rfl

/-- The invariant looks at the maps and at `size_of_files` only. -/
theorem DirectoryOk.congr {d d' : VirtualDirectory} (h : DirectoryOk d)
    (hchildren : d'.children = d.children) (hfiles : d'.files = d.files)
    (hsize : d'.val.sizeOfFiles = d.val.sizeOfFiles) : DirectoryOk d' := by
  have hdirs : d'.directories = d.directories := hchildren
  constructor
  · rw [hfiles]
    exact h.files_nodup
  · rw [Trie.UniqueNames, hchildren]
    exact h.unique
  · rw [hfiles, hdirs]
    exact h.disjoint
  · rw [hfiles]
    exact h.files_name
  · rw [hdirs]
    exact h.directories_name
  · rw [hsize, hfiles]
    exact h.size

theorem DirectoryOk.putDirectory {d : VirtualDirectory} (h : DirectoryOk d) {name : JString}
    (hname : IsName name) (hfile : get d.files name = none) (sub : VirtualDirectory) :
    DirectoryOk (putDirectory name sub d) := by
  have hval : (Virtual.putDirectory name sub d).val = d.val := val_putDirectory _ _ _
  have hfiles : (Virtual.putDirectory name sub d).files = d.files :=
    congrArg DirectoryFields.files hval
  have hdirs : (Virtual.putDirectory name sub d).directories = put d.directories name sub :=
    children_putDirectory _ _ _
  constructor
  · rw [hfiles]
    exact h.files_nodup
  · rw [Trie.UniqueNames, children_putDirectory]
    exact nodup_put h.unique name sub
  · intro n hn hmem
    rw [hfiles] at hn
    rw [hdirs] at hmem
    rcases mem_keys_put.mp hmem with rfl | hmem
    · exact get_eq_none_iff.mp hfile hn
    · exact h.disjoint n hn hmem
  · rw [hfiles]
    exact h.files_name
  · intro n hn
    rw [hdirs] at hn
    rcases mem_keys_put.mp hn with rfl | hn
    · exact hname
    · exact h.directories_name n hn
  · rw [hval, hfiles]
    exact h.size

theorem DirectoryOk.putFile {d : VirtualDirectory} (h : DirectoryOk d) {name : JString}
    (hname : IsName name) (hfile : get d.files name = none) (hsub : get d.directories name = none)
    (file : VirtualFile) : DirectoryOk (putFile name file d) := by
  have hdirs : (Virtual.putFile name file d).directories = d.directories := children_putFile _ _ _
  constructor
  · rw [files_putFile]
    exact nodup_put h.files_nodup name file
  · rw [Trie.UniqueNames, children_putFile]
    exact h.unique
  · intro n hn hmem
    rw [files_putFile] at hn
    rw [hdirs] at hmem
    rcases mem_keys_put.mp hn with rfl | hn
    · exact get_eq_none_iff.mp hsub hmem
    · exact h.disjoint n hn hmem
  · intro n hn
    rw [files_putFile] at hn
    rcases mem_keys_put.mp hn with rfl | hn
    · exact hname
    · exact h.files_name n hn
  · rw [hdirs]
    exact h.directories_name
  · rw [sizeOfFiles_putFile, files_putFile, put_of_notMem (get_eq_none_iff.mp hfile), h.size,
      List.map_append, List.sum_append]
    simp only [List.map_cons, List.map_nil, List.sum_cons, List.sum_nil, add_zero]

/-- A name under which no file is. -/
theorem Subdirectory.file_none {d sub : VirtualDirectory} {name : JString}
    (hsub : Subdirectory d name sub) (hd : DirectoryOk d) :
    get d.files name = none := by
  cases hsub with
  | old hsub =>
    refine get_eq_none_iff.mpr fun hmem => hd.disjoint name hmem ?_
    exact get_isSome_iff.mp (by rw [hsub]; rfl)
  | new virtualPath _ hfile => exact hfile

/-- A property of every directory that new directories have holds of every subdirectory. -/
theorem Subdirectory.all {P : VirtualDirectory → Prop} {d sub : VirtualDirectory} {name : JString}
    (hsub : Subdirectory d name sub) (hd : d.All P)
    (hnew : ∀ virtualPath, P (newDirectory d virtualPath [])) : sub.All P := by
  cases hsub with
  | old hsub => exact hd.child (mem_of_get hsub)
  | new virtualPath _ _ => exact .node (hnew virtualPath) fun c hc => by cases hc

/-- The subdirectory a directory line leaves: the old one with the roles of the line. -/
theorem requireRoles_ok {sub sub' : VirtualDirectory} {realPath : JString}
    (h : setRealPath realPath sub = .ok sub') (roles : List JString) :
    (requireRoles roles sub').children = sub.children ∧
      (requireRoles roles sub').files = sub.files ∧
      ∀ role, role ∈ (requireRoles roles sub').requiredRoles ↔
        role ∈ roles ∨ role ∈ sub.requiredRoles := by
  obtain ⟨hchildren, path, hval⟩ := setRealPath_ok h
  refine ⟨by rw [children_requireRoles, hchildren], ?_, fun role => ?_⟩
  · rw [VirtualDirectory.files, val_requireRoles, hval]
    rfl
  · rw [VirtualDirectory.requiredRoles, val_requireRoles, hval]
    exact mem_addRoles

theorem all_putDirectory {P : VirtualDirectory → Prop} {d sub : VirtualDirectory} {name : JString}
    (hd : d.All P) (hsub : sub.All P) (h : P (putDirectory name sub d)) :
    (putDirectory name sub d).All P := by
  cases d with
  | node fields subdirs =>
    refine .node h fun c hc => ?_
    rcases mem_put hc with rfl | hold
    · exact hsub
    · exact hd.child hold

/-- Changing the root only. -/
theorem all_of_children {P : VirtualDirectory → Prop} {d d' : VirtualDirectory} (hd : d.All P)
    (hchildren : d'.children = d.children) (h : P d') : d'.All P := by
  cases d' with
  | node fields subdirs => exact .node h fun c hc => hd.child (hchildren ▸ hc)

/-- **A line keeps the invariant.** -/
theorem Added.ok {line : Line} {names : List JString} {d d' : VirtualDirectory}
    (h : Added line names d d') (hn : ∀ n ∈ names, IsName n) (hd : d.All DirectoryOk) :
    d'.All DirectoryOk := by
  induction h with
  | @directory d sub sub' name hdir hfile hsub hpath =>
    obtain ⟨hchildren, hfiles, _⟩ := requireRoles_ok hpath line.requiredRoles
    have hall := hsub.all hd fun virtualPath => newDirectory_ok d virtualPath []
    have hsize : (requireRoles line.requiredRoles sub').val.sizeOfFiles = sub.val.sizeOfFiles := by
      obtain ⟨_, path, hval⟩ := setRealPath_ok hpath
      rw [val_requireRoles, hval]
    exact all_putDirectory hd
      (all_of_children hall hchildren (hall.root.congr hchildren hfiles hsize))
      (hd.root.putDirectory (hn name List.mem_cons_self) hfile _)
  | @file d name hdir hfile hsub =>
    exact all_of_children hd (children_putFile _ _ _)
      (hd.root.putFile (hn name List.mem_cons_self) hfile hsub _)
  | @descend d sub sub' name names hsub h ih =>
    exact all_putDirectory hd
      (ih (fun m hm => hn m (List.mem_cons_of_mem _ hm))
        (hsub.all hd fun virtualPath => newDirectory_ok d virtualPath []))
      (hd.root.putDirectory (hn name List.mem_cons_self) (hsub.file_none hd.root) _)

/-! ## 3. The subdirectories after a line -/

/-- The directory below `d` with the path `names`. -/
abbrev directoryAt (d : VirtualDirectory) (names : List JString) : Option VirtualDirectory :=
  d.walk (fun _ => true) names

theorem directoryAt_cons {d : VirtualDirectory} {name : JString} {sub : VirtualDirectory}
    (h : get d.directories name = some sub) (names : List JString) :
    directoryAt d (name :: names) = directoryAt sub names := by
  rw [directoryAt, Trie.walk, show get d.children name = some sub from h]
  exact if_pos rfl

theorem directoryAt_none {d : VirtualDirectory} {name : JString}
    (h : get d.directories name = none) (names : List JString) :
    directoryAt d (name :: names) = none := by
  rw [directoryAt, Trie.walk, show get d.children name = none from h]

theorem directoryAt_congr {d d' : VirtualDirectory} (h : d'.children = d.children) (name : JString)
    (names : List JString) : directoryAt d' (name :: names) = directoryAt d (name :: names) := by
  rw [directoryAt, directoryAt, Trie.walk, Trie.walk, h]

theorem directoryAt_put_self (name : JString) (sub d : VirtualDirectory) (names : List JString) :
    directoryAt (putDirectory name sub d) (name :: names) = directoryAt sub names := by
  refine directoryAt_cons ?_ names
  rw [VirtualDirectory.directories, children_putDirectory, get_put_self]

theorem directoryAt_put_ne {name k : JString} (h : name ≠ k) (sub d : VirtualDirectory)
    (names : List JString) :
    directoryAt (putDirectory name sub d) (k :: names) = directoryAt d (k :: names) := by
  rw [directoryAt, directoryAt, Trie.walk, Trie.walk, children_putDirectory, get_put_ne _ h]

theorem directoryAt_new {d s : VirtualDirectory} {virtualPath : JString}
    {roles names : List JString}
    (h : directoryAt (newDirectory d virtualPath roles) names = some s) :
    names = [] ∧ s = newDirectory d virtualPath roles := by
  cases names with
  | nil => exact ⟨rfl, (Option.some.inj h).symm⟩
  | cons name names => cases h

/-- A directory below `sub` is below `d`, or `sub` is new and has the roles of `d` only. -/
theorem Subdirectory.directoryAt {d sub s : VirtualDirectory} {name : JString}
    {names : List JString} (hsub : Subdirectory d name sub)
    (hs : directoryAt sub names = some s) :
    Virtual.directoryAt d (name :: names) = some s ∨
      (names = [] ∧ s.requiredRoles = d.requiredRoles ∧ s.children = [] ∧ s.files = []) := by
  cases hsub with
  | old hsub => exact .inl ((directoryAt_cons hsub names).trans hs)
  | new virtualPath hsub hfile =>
    obtain ⟨rfl, rfl⟩ := directoryAt_new hs
    exact .inr ⟨rfl, rfl, rfl, rfl⟩

/-- A line leaves the roles of the directory its path starts from. -/
theorem Added.requiredRoles_eq {line : Line} {names : List JString} {d d' : VirtualDirectory}
    (h : Added line names d d') : d'.requiredRoles = d.requiredRoles := by
  cases h with
  | directory hdir hfile hsub hpath =>
    exact congrArg DirectoryFields.requiredRoles (val_putDirectory _ _ _)
  | file hdir hfile hsub => exact requiredRoles_putFile _ _ _
  | descend hsub h => exact congrArg DirectoryFields.requiredRoles (val_putDirectory _ _ _)

/-- **A directory stays**, and keeps its roles. -/
theorem Added.mono {line : Line} {names : List JString} {d d' : VirtualDirectory}
    (h : Added line names d d') {ls : List JString} {s : VirtualDirectory}
    (hs : directoryAt d ls = some s) :
    ∃ s', directoryAt d' ls = some s' ∧ ∀ role ∈ s.requiredRoles, role ∈ s'.requiredRoles := by
  cases ls with
  | nil =>
    cases hs
    exact ⟨d', rfl, fun role hrole => h.requiredRoles_eq ▸ hrole⟩
  | cons k ls =>
    induction h generalizing k ls s with
    | @directory d sub sub' name hdir hfile hsub hpath =>
      by_cases hk : name = k
      · subst hk
        obtain ⟨hchildren, _, hroles⟩ := requireRoles_ok hpath line.requiredRoles
        rw [directoryAt_put_self]
        cases hsub with
        | new virtualPath hsub _ =>
          rw [directoryAt_none hsub] at hs
          cases hs
        | old hsub =>
          rw [directoryAt_cons hsub] at hs
          cases ls with
          | nil =>
            cases hs
            exact ⟨_, rfl, fun role hrole => (hroles role).mpr (.inr hrole)⟩
          | cons j ls => exact ⟨s, (directoryAt_congr hchildren j ls).trans hs, fun _ => id⟩
      · exact ⟨s, (directoryAt_put_ne hk _ _ _).trans hs, fun _ => id⟩
    | file hdir hfile hsub =>
      exact ⟨s, (directoryAt_congr (children_putFile _ _ _) k ls).trans hs, fun _ => id⟩
    | @descend d sub sub' name names hsub h ih =>
      by_cases hk : name = k
      · subst hk
        rw [directoryAt_put_self]
        cases hsub with
        | new virtualPath hsub _ =>
          rw [directoryAt_none hsub] at hs
          cases hs
        | old hsub =>
          rw [directoryAt_cons hsub] at hs
          cases ls with
          | nil =>
            cases hs
            exact ⟨sub', rfl, fun role hrole => h.requiredRoles_eq ▸ hrole⟩
          | cons j ls => exact ih j ls hs
      · exact ⟨s, (directoryAt_put_ne hk _ _ _).trans hs, fun _ => id⟩

/-- **A directory line makes its directory**, which requires the roles of the line. -/
theorem Added.made {line : Line} {names : List JString} {d d' : VirtualDirectory}
    (h : Added line names d d') (hdir : line.isDirectory = true) :
    ∃ s', directoryAt d' names = some s' ∧
      ∀ role ∈ line.requiredRoles, role ∈ s'.requiredRoles := by
  induction h with
  | directory _ hfile hsub hpath =>
    obtain ⟨_, _, hroles⟩ := requireRoles_ok hpath line.requiredRoles
    exact ⟨_, directoryAt_put_self _ _ _ [], fun role hrole => (hroles role).mpr (.inl hrole)⟩
  | file hfile => exact absurd hdir (Bool.eq_false_iff.mp hfile)
  | descend hsub h ih =>
    obtain ⟨s', hs', hroles⟩ := ih
    exact ⟨s', (directoryAt_put_self _ _ _ _).trans hs', hroles⟩

/-- **Where a role comes from**: a directory required it before, perhaps one above, or it is a
role of the line, and the directory is the one of the line. -/
theorem Added.origin {line : Line} {names : List JString} {d d' : VirtualDirectory}
    (h : Added line names d d') {ls : List JString} {s' : VirtualDirectory}
    (hs' : directoryAt d' ls = some s') {role : JString} (hrole : role ∈ s'.requiredRoles) :
    (∃ js s, js <+: ls ∧ directoryAt d js = some s ∧ role ∈ s.requiredRoles) ∨
      (line.isDirectory = true ∧ names = ls ∧ role ∈ line.requiredRoles) := by
  cases ls with
  | nil =>
    cases hs'
    exact .inl ⟨[], d, List.nil_prefix, rfl, h.requiredRoles_eq ▸ hrole⟩
  | cons k ls =>
    induction h generalizing k ls with
    | @directory d sub sub' name hdir hfile hsub hpath =>
      by_cases hk : name = k
      · subst hk
        obtain ⟨hchildren, _, hroles⟩ := requireRoles_ok hpath line.requiredRoles
        rw [directoryAt_put_self] at hs'
        have hbelow : ∀ {r}, directoryAt sub ls = some r → role ∈ r.requiredRoles →
            ∃ js s, js <+: name :: ls ∧ directoryAt d js = some s ∧ role ∈ s.requiredRoles := by
          intro r hr hrole
          rcases hsub.directoryAt hr with hold | ⟨_, hroles, _⟩
          · exact ⟨name :: ls, r, List.prefix_rfl, hold, hrole⟩
          · exact ⟨[], d, List.nil_prefix, rfl, hroles ▸ hrole⟩
        cases ls with
        | nil =>
          cases hs'
          rcases (hroles role).mp hrole with hline | hsubrole
          · exact .inr ⟨hdir, rfl, hline⟩
          · exact .inl (hbelow rfl hsubrole)
        | cons j ls => exact .inl (hbelow ((directoryAt_congr hchildren j ls).symm.trans hs') hrole)
      · rw [directoryAt_put_ne hk] at hs'
        exact .inl ⟨k :: ls, s', List.prefix_rfl, hs', hrole⟩
    | file hdir hfile hsub =>
      rw [directoryAt_congr (children_putFile _ _ _)] at hs'
      exact .inl ⟨k :: ls, s', List.prefix_rfl, hs', hrole⟩
    | @descend d sub sub' name names hsub h ih =>
      by_cases hk : name = k
      · subst hk
        rw [directoryAt_put_self] at hs'
        have hbelow : ∀ {js r}, js <+: ls → directoryAt sub js = some r → role ∈ r.requiredRoles →
            ∃ js s, js <+: name :: ls ∧ directoryAt d js = some s ∧ role ∈ s.requiredRoles := by
          intro js r hjs hr hrole
          rcases hsub.directoryAt hr with hold | ⟨_, hroles, _⟩
          · exact ⟨name :: js, r, List.cons_prefix_cons.mpr ⟨rfl, hjs⟩, hold, hrole⟩
          · exact ⟨[], d, List.nil_prefix, rfl, hroles ▸ hrole⟩
        cases ls with
        | nil =>
          cases hs'
          exact .inl (hbelow List.prefix_rfl rfl (h.requiredRoles_eq ▸ hrole))
        | cons j ls =>
          rcases ih j ls hs' with ⟨js, r, hjs, hr, hrole⟩ | ⟨hdir, hnames, hline⟩
          · exact .inl (hbelow hjs hr hrole)
          · exact .inr ⟨hdir, by rw [hnames], hline⟩
      · rw [directoryAt_put_ne hk] at hs'
        exact .inl ⟨k :: ls, s', List.prefix_rfl, hs', hrole⟩

/-! ## 4. The names after a line -/

/-- The path `names` leads to a directory below `d`, to a file, or to `d` itself. -/
def Named : VirtualDirectory → List JString → Prop
  | _, [] => True
  | d, name :: names =>
    (names = [] ∧ (get d.files name).isSome) ∨ ∃ sub, get d.directories name = some sub ∧
      Named sub names

instance decidableNamed : ∀ (d : VirtualDirectory) (names : List JString), Decidable (Named d names)
  | _, [] => .isTrue trivial
  | d, name :: names =>
    match hsub : get d.directories name with
    | some sub =>
      have := decidableNamed sub names
      decidable_of_iff ((names = [] ∧ (get d.files name).isSome) ∨ Named sub names) (by
        rw [Named, hsub]
        simp only [Option.some.injEq, exists_eq_left'])
    | none =>
      decidable_of_iff (names = [] ∧ (get d.files name).isSome) (by
        rw [Named, hsub]
        simp only [reduceCtorEq, false_and, exists_false, or_false])

theorem named_congr {d d' : VirtualDirectory} (hfiles : d'.files = d.files)
    (hchildren : d'.children = d.children) (names : List JString) : Named d' names ↔
      Named d names := by
  cases names with
  | nil => exact Iff.rfl
  | cons name names =>
    rw [Named, Named, hfiles, VirtualDirectory.directories, hchildren]
    exact Iff.rfl

theorem Subdirectory.named {d sub : VirtualDirectory} {name : JString}
    (hsub : Subdirectory d name sub) (hfile : get d.files name = none) (names : List JString) :
    Named sub names ↔ Named d (name :: names) ∨ names = [] := by
  rw [Named, hfile]
  cases hsub with
  | old hsub =>
    rw [hsub]
    simp only [Option.isSome_none, Bool.false_eq_true, and_false, Option.some.injEq,
      exists_eq_left', false_or]
    exact ⟨.inl, fun h => h.elim id fun hnil => by rw [hnil]; trivial⟩
  | new virtualPath hsub _ =>
    rw [hsub]
    simp only [Option.isSome_none, Bool.false_eq_true, and_false, reduceCtorEq, false_and,
      exists_false, false_or]
    cases names with
    | nil => exact ⟨fun _ => rfl, fun _ => trivial⟩
    | cons k names =>
      refine ⟨fun h => ?_, fun h => by cases h⟩
      rcases h with ⟨_, hnone⟩ | ⟨sub, hnone, _⟩ <;> cases hnone

theorem named_putDirectory {name k : JString} {sub d : VirtualDirectory} {names : List JString} :
    Named (putDirectory name sub d) (k :: names) ↔
      (names = [] ∧ (get d.files k).isSome) ∨
        (if name = k then Named sub names else ∃ s, get d.directories k = some s ∧
          Named s names) := by
  have hfiles : (putDirectory name sub d).files = d.files :=
    congrArg DirectoryFields.files (val_putDirectory _ _ _)
  rw [Named, hfiles, VirtualDirectory.directories, children_putDirectory]
  by_cases hk : name = k
  · subst hk
    rw [get_put_self, if_pos rfl]
    simp only [Option.some.injEq, exists_eq_left']
  · rw [get_put_ne _ hk, if_neg hk]
    exact Iff.rfl

/-- **A line names its path** and the paths on the way to it. -/
theorem Added.named {line : Line} {names : List JString} {d d' : VirtualDirectory}
    (h : Added line names d d') (hd : d.All DirectoryOk)
    (ls : List JString) : Named d' ls ↔ Named d ls ∨ ls <+: names := by
  induction h generalizing ls with
  | @directory d sub sub' name hdir hfile hsub hpath =>
    cases ls with
    | nil => exact ⟨fun _ => .inl trivial, fun _ => trivial⟩
    | cons k ls =>
      obtain ⟨hchildren, hfiles, _⟩ := requireRoles_ok hpath line.requiredRoles
      rw [named_putDirectory, List.cons_prefix_cons, List.prefix_nil]
      by_cases hk : name = k
      · subst hk
        rw [if_pos rfl, named_congr hfiles hchildren, hsub.named hfile, hfile]
        simp only [Option.isSome_none, Bool.false_eq_true, and_false, false_or, true_and]
      · rw [if_neg hk]
        simp only [Ne.symm hk, false_and, or_false]
        exact Iff.rfl
  | @file d name hdir hfile hsub =>
    cases ls with
    | nil => exact ⟨fun _ => .inl trivial, fun _ => trivial⟩
    | cons k ls =>
      rw [Named, Named, files_putFile, VirtualDirectory.directories, children_putFile,
        List.cons_prefix_cons, List.prefix_nil]
      by_cases hk : name = k
      · subst hk
        rw [get_put_self, hfile, show get d.children name = none from hsub, hsub]
        simp only [Option.isSome_some, and_true, reduceCtorEq, false_and, exists_false, or_false,
          Option.isSome_none, Bool.false_eq_true, and_false, true_and, false_or]
      · rw [get_put_ne _ hk]
        simp only [Ne.symm hk, false_and, or_false]
        exact Iff.rfl
  | @descend d sub sub' name names hsub h ih =>
    cases ls with
    | nil => exact ⟨fun _ => .inl trivial, fun _ => trivial⟩
    | cons k ls =>
      have hfile := hsub.file_none hd.root
      rw [named_putDirectory, List.cons_prefix_cons]
      by_cases hk : name = k
      · subst hk
        rw [if_pos rfl, ih (hsub.all hd fun virtualPath => newDirectory_ok d virtualPath []) ls,
          hsub.named hfile, hfile]
        simp only [Option.isSome_none, Bool.false_eq_true, and_false, false_or, true_and]
        rw [or_assoc]
        refine or_congr_right ⟨fun h => h.elim (fun hnil => ?_) id, .inr⟩
        rw [hnil]
        exact List.nil_prefix
      · rw [if_neg hk]
        simp only [Ne.symm hk, false_and, or_false]
        exact Iff.rfl

/-! ## 5. A configuration -/

/-- The tree after the lines `es`, each with the components of its path. -/
inductive Built : List (List JString × Line) → VirtualDirectory → Prop where
  | root : Built [] newRoot
  | line {es : List (List JString × Line)} {d d' : VirtualDirectory} {names : List JString}
      {line : Line} (hd : Built es d) (hne : names ≠ []) (hn : ∀ n ∈ names, IsName n)
      (h : Added line names d d') : Built (es ++ [(names, line)]) d'

theorem foldlM_built {lines : List JString} {es : List (List JString × Line)}
    {d t : VirtualDirectory} (hd : Built es d) (h : addFromReader lines d = .ok t) :
    ∃ es', lines.map parseLine = es'.map (fun e => .ok (joinPath e.1, e.2)) ∧
      Built (es ++ es') t := by
  induction lines generalizing es d with
  | nil =>
    cases h
    exact ⟨[], rfl, by rwa [List.append_nil]⟩
  | cons l lines ih =>
    rw [addFromReader, List.foldlM_cons] at h
    cases hparse : parseLine l with
    | error e =>
      rw [hparse] at h
      cases h
    | ok parsed =>
      obtain ⟨path, line⟩ := parsed
      cases hadd : addFile path line d with
      | error e =>
        simp only [hparse, hadd, bind, Except.bind, reduceCtorEq] at h
      | ok d' =>
        simp only [hparse, hadd, bind, Except.bind] at h
        obtain ⟨names, hne, hn, rfl, hadded⟩ := addFile_added hadd
        obtain ⟨es', hlines, hbuilt⟩ := ih (.line hd hne hn hadded) h
        refine ⟨(names, line) :: es', by rw [List.map_cons, List.map_cons, hparse, hlines], ?_⟩
        rwa [List.append_assoc, List.singleton_append] at hbuilt

/-- **`addFromReader` adds the lines one after the other.** -/
theorem addFromReader_built {lines : List JString} {t : VirtualDirectory}
    (h : addFromReader lines newRoot = .ok t) :
    ∃ es, lines.map parseLine = es.map (fun e => .ok (joinPath e.1, e.2)) ∧ Built es t := by
  obtain ⟨es, hlines, hbuilt⟩ := foldlM_built .root h
  exact ⟨es, hlines, by rwa [List.nil_append] at hbuilt⟩

theorem Built.names {es : List (List JString × Line)} {t : VirtualDirectory} (h : Built es t) :
    ∀ e ∈ es, e.1 ≠ [] ∧ ∀ n ∈ e.1, IsName n := by
  induction h with
  | root => exact fun e he => by cases he
  | line _ hne hn _ ih =>
    intro e he
    rcases List.mem_append.mp he with hold | hnew
    · exact ih e hold
    · rw [List.mem_singleton.mp hnew]
      exact ⟨hne, hn⟩

theorem Built.ok {es : List (List JString × Line)} {t : VirtualDirectory} (h : Built es t) :
    t.All DirectoryOk := by
  induction h with
  | root => exact .node (newDirectory_ok newRoot [] []) fun c hc => by cases hc
  | line _ _ hn h ih => exact h.ok hn ih

theorem Built.requiredRoles_eq {es : List (List JString × Line)} {t : VirtualDirectory}
    (h : Built es t) : t.requiredRoles = [] := by
  induction h with
  | root => rfl
  | line _ _ _ h ih => exact h.requiredRoles_eq.trans ih

/-- **The directory of every directory line is there**, and requires the roles of the line. -/
theorem Built.made {es : List (List JString × Line)} {t : VirtualDirectory} (h : Built es t)
    {e : List JString × Line} (he : e ∈ es) (hdir : e.2.isDirectory = true) :
    ∃ s, directoryAt t e.1 = some s ∧ ∀ role ∈ e.2.requiredRoles, role ∈ s.requiredRoles := by
  induction h with
  | root => cases he
  | line _ _ _ h ih =>
    rcases List.mem_append.mp he with hold | hnew
    · obtain ⟨s, hs, hroles⟩ := ih hold
      obtain ⟨s', hs', hmono⟩ := h.mono hs
      exact ⟨s', hs', fun role hrole => hmono role (hroles role hrole)⟩
    · rw [List.mem_singleton.mp hnew] at hdir ⊢
      exact h.made hdir

/-- **A required role is listed** on a line for the directory or one above. -/
theorem Built.origin {es : List (List JString × Line)} {t : VirtualDirectory} (h : Built es t)
    {ls : List JString} {s : VirtualDirectory} (hs : directoryAt t ls = some s) {role : JString}
    (hrole : role ∈ s.requiredRoles) :
    ∃ e ∈ es, e.2.isDirectory = true ∧ e.1 <+: ls ∧ role ∈ e.2.requiredRoles := by
  induction h generalizing ls s with
  | root =>
    cases ls with
    | nil =>
      cases hs
      cases hrole
    | cons l ls => cases hs
  | @line es d d' names line _ _ _ h ih =>
    rcases h.origin hs hrole with ⟨js, r, hjs, hr, hrole⟩ | ⟨hdir, hnames, hline⟩
    · obtain ⟨e, he, hdir, hprefix, hline⟩ := ih hr hrole
      exact ⟨e, List.mem_append_left _ he, hdir, hprefix.trans hjs, hline⟩
    · exact ⟨(names, line), List.mem_append_right _ (List.mem_singleton.mpr rfl), hdir,
        hnames ▸ List.prefix_rfl, hline⟩

/-- **The paths of the tree** are those on the way to the path of a line. -/
theorem Built.named {es : List (List JString × Line)} {t : VirtualDirectory} (h : Built es t)
    {ls : List JString} (hne : ls ≠ []) : Named t ls ↔ ∃ e ∈ es, ls <+: e.1 := by
  induction h with
  | root =>
    cases ls with
    | nil => exact absurd rfl hne
    | cons l ls =>
      constructor
      · rintro (⟨_, hnone⟩ | ⟨sub, hnone, _⟩) <;> cases hnone
      · rintro ⟨e, he, _⟩
        cases he
  | line hd _ _ h ih =>
    rw [h.named hd.ok, ih]
    constructor
    · rintro (⟨e, he, hprefix⟩ | hprefix)
      · exact ⟨e, List.mem_append_left _ he, hprefix⟩
      · exact ⟨_, List.mem_append_right _ (List.mem_singleton.mpr rfl), hprefix⟩
    · rintro ⟨e, he, hprefix⟩
      rcases List.mem_append.mp he with hold | hnew
      · exact .inl ⟨e, hold, hprefix⟩
      · rw [List.mem_singleton.mp hnew] at hprefix
        exact .inr hprefix

end HdfStream.Virtual
