/-
# How the tree grows

What a line changes, path by path.  The directories after a line are the old ones and those on
the way to its path (`Added.directoryAt_isSome`); the files are the old ones and, if it is the line
of a file, the file of the line (`Added.fileAt_old`, `Added.fileAt_new`); and the roles that a
directory requires, or would require if it were made now, change below the path of the line only
(`Added.nearest`).

`addFile_accepts` is the other direction: a line whose way is free is accepted.
-/
import HdfStream.Lib.Outcome
import HdfStream.Virtual.Access

namespace HdfStream.Virtual

open Java LinkedMap Outcome

/-! ## 1. Files and directories by path -/

/-- The file below `d` with the path `names`. -/
def fileAt : VirtualDirectory → List JString → Option VirtualFile
  | _, [] => none
  | d, [name] => get d.files name
  | d, name :: names => (get d.directories name).bind fun sub => fileAt sub names

theorem fileAt_cons {d sub : VirtualDirectory} {name : JString} {names : List JString}
    (h : get d.directories name = some sub) (hne : names ≠ []) :
    fileAt d (name :: names) = fileAt sub names := by
  rcases names with _ | ⟨k, names⟩
  · exact absurd rfl hne
  · rw [fileAt, h, Option.bind_some]
    exact List.cons_ne_nil _ _

theorem fileAt_none {d : VirtualDirectory} {name : JString} {names : List JString}
    (h : get d.directories name = none) (hne : names ≠ []) : fileAt d (name :: names) = none := by
  rcases names with _ | ⟨k, names⟩
  · exact absurd rfl hne
  · rw [fileAt, h, Option.bind_none]
    exact List.cons_ne_nil _ _

/-- The files below a directory, but for its own, are those of its subdirectories. -/
theorem fileAt_congr {d d' : VirtualDirectory} (hfiles : d'.files = d.files)
    (hchildren : d'.children = d.children) (names : List JString) : fileAt d' names = fileAt d
      names := by
  rcases names with _ | ⟨name, _ | ⟨k, names⟩⟩
  · rfl
  · rw [fileAt, fileAt, hfiles]
  · rw [fileAt, fileAt, VirtualDirectory.directories, hchildren]
    · rfl
    · exact List.cons_ne_nil _ _
    · exact List.cons_ne_nil _ _

theorem fileAt_newDirectory (d : VirtualDirectory) (virtualPath : JString)
    (roles names : List JString) :
    fileAt (newDirectory d virtualPath roles) names = none := by
  rcases names with _ | ⟨name, _ | ⟨k, names⟩⟩
  · rfl
  · rfl
  · exact fileAt_none rfl (List.cons_ne_nil _ _)

/-- A file with more components in its path is the file of a subdirectory. -/
theorem fileAt_put_self {d sub : VirtualDirectory} {name : JString} {names : List JString}
    (hne : names ≠ []) : fileAt (putDirectory name sub d) (name :: names) = fileAt sub names := by
  refine fileAt_cons ?_ hne
  rw [VirtualDirectory.directories, children_putDirectory, get_put_self]

theorem files_putDirectory (name : JString) (sub d : VirtualDirectory) :
    (putDirectory name sub d).files = d.files :=
  congrArg DirectoryFields.files (val_putDirectory _ _ _)

theorem fileAt_put_ne {name k : JString} (h : name ≠ k) (sub d : VirtualDirectory)
    (names : List JString) : fileAt (putDirectory name sub d) (k :: names) = fileAt d
      (k :: names) := by
  by_cases hnil : names = []
  · subst hnil
    rw [fileAt, fileAt, files_putDirectory]
  have hget : get (putDirectory name sub d).directories k = get d.directories k := by
    rw [VirtualDirectory.directories, children_putDirectory, get_put_ne _ h]
    rfl
  cases hsub : get d.directories k with
  | none => rw [fileAt_none hsub hnil, fileAt_none (hget.trans hsub) hnil]
  | some s => rw [fileAt_cons hsub hnil, fileAt_cons (hget.trans hsub) hnil]

/-- The files of the subdirectory a line goes on in, before the line. -/
theorem Subdirectory.fileAt {d sub : VirtualDirectory} {name : JString}
    (hsub : Subdirectory d name sub)
    {names : List JString} (hne : names ≠ []) :
    Virtual.fileAt sub names = Virtual.fileAt d (name :: names) := by
  cases hsub with
  | old hsub => exact (fileAt_cons hsub hne).symm
  | new virtualPath hsub _ => rw [fileAt_newDirectory, fileAt_none hsub hne]

/-- No file is on the way to a directory. -/
theorem fileAt_of_directoryAt {d s : VirtualDirectory} (hd : d.All DirectoryOk)
    {names ls : List JString}
    (hs : directoryAt d names = some s) (hls : ls <+: names) : fileAt d ls = none := by
  induction ls generalizing d names with
  | nil => rfl
  | cons k ls ih =>
    obtain ⟨rest, rfl⟩ := hls
    rw [List.cons_append] at hs
    cases hsub : get d.directories k with
    | none =>
      rw [directoryAt_none hsub] at hs
      cases hs
    | some sub =>
      rw [directoryAt_cons hsub] at hs
      by_cases hnil : ls = []
      · subst hnil
        refine get_eq_none_iff.mpr fun hmem => hd.root.disjoint k hmem ?_
        exact get_isSome_iff.mp (by rw [hsub]; rfl)
      · rw [fileAt_cons hsub hnil]
        exact ih (hd.child (mem_of_get hsub)) hs (List.prefix_append _ _)

/-! ## 2. What is accepted -/

/-- **A line is accepted** if no file is on the way to its path and, for a file, no directory has
the path, or for a directory, the directory has no metadata path yet. -/
theorem addFile_accepts {line : Line} {d : VirtualDirectory} {names : List JString}
    (hne : names ≠ [])
    (hn : ∀ n ∈ names, IsName n) (hway : ∀ ls, ls <+: names → fileAt d ls = none)
    (hdir : line.isDirectory = true → ∀ s, directoryAt d names = some s → s.val.realPath = none)
    (hfile : line.isDirectory = false → directoryAt d names = none) :
    ∃ d', addFile (joinPath names) line d = .ok d' := by
  induction names generalizing d with
  | nil => exact absurd rfl hne
  | cons name names ih =>
    have hname := hn name List.mem_cons_self
    have hrest : ∀ n ∈ names, IsName n := fun n hmem => hn n (List.mem_cons_of_mem _ hmem)
    have hfree : get d.files name = none :=
      hway [name] (List.cons_prefix_cons.mpr ⟨rfl, List.nil_prefix⟩)
    by_cases hnil : names = []
    · subst hnil
      rw [show joinPath [name] = name from rfl, addFile, splitPath_name hname]
      dsimp only
      rw [addHere, hfree]
      cases hkind : line.isDirectory with
      | true =>
        cases hsub : get d.directories name with
        | none => exact ⟨_, rfl⟩
        | some sub =>
          have hreal := hdir hkind sub (directoryAt_cons hsub [])
          cases sub with
          | node fields subdirs =>
            have hreal : fields.realPath = none := hreal
            simp only [setRealPath, hreal, Option.isSome_none, Bool.false_eq_true, if_false,
              if_true]
            exact ⟨_, rfl⟩
      | false =>
        have hsub : get d.directories name = none := by
          cases hsub : get d.directories name with
          | none => rfl
          | some sub =>
            have h := hfile hkind
            rw [directoryAt_cons hsub] at h
            cases h
        rw [hsub]
        exact ⟨_, rfl⟩
    · rw [addFile, splitPath_joinPath hname hnil hrest]
      dsimp only
      cases hsub : get d.directories name with
      | some sub =>
        obtain ⟨sub', hsub'⟩ := ih hnil hrest (d := sub)
          (fun ls hls => by
            by_cases hl : ls = []
            · rw [hl]
              rfl
            · rw [← fileAt_cons hsub hl]
              exact hway _ (List.cons_prefix_cons.mpr ⟨rfl, hls⟩))
          (fun hkind s hs => hdir hkind s ((directoryAt_cons hsub names).trans hs))
          (fun hkind => (directoryAt_cons hsub names).symm.trans (hfile hkind))
        dsimp only
        rw [hsub']
        exact ⟨_, rfl⟩
      | none =>
        have hbelow : ∀ s, directoryAt (newDirectory d (implicitPath d name) []) names = some s →
            False := fun s hs => hnil (directoryAt_new hs).1
        obtain ⟨sub', hsub'⟩ := ih hnil hrest (d := newDirectory d (implicitPath d name) [])
          (fun ls _ => fileAt_newDirectory _ _ _ ls)
          (fun _ s hs => (hbelow s hs).elim)
          (fun _ => Option.eq_none_iff_forall_not_mem.mpr hbelow)
        dsimp only
        rw [hfree, hsub']
        exact ⟨_, rfl⟩

/-! ## 3. What a line changes -/

/-- The line with the path `names` makes the directory `ls`, if it is not there. -/
def Makes (names : List JString) (line : Line) (ls : List JString) : Prop :=
  ls <+: names ∧ (line.isDirectory = true ∨ ls ≠ names)

theorem makes_cons {name k : JString} {names ls : List JString} {line : Line} :
    Makes (name :: names) line (k :: ls) ↔ k = name ∧ Makes names line ls := by
  rw [Makes, Makes, List.cons_prefix_cons, and_assoc]
  refine and_congr_right fun hk => ?_
  rw [hk, ne_eq, List.cons.injEq, eq_self_iff_true, true_and]

theorem makes_nil {names : List JString} {line : Line} (hne : names ≠ []) : Makes names line [] :=
  ⟨List.nil_prefix, .inr fun h => hne h.symm⟩

theorem Added.names_ne_nil {line : Line} {names : List JString} {d d' : VirtualDirectory}
    (h : Added line names d d') : names ≠ [] := by
  cases h <;> exact List.cons_ne_nil _ _

/-- The directories below a subdirectory. -/
theorem Subdirectory.directoryAt_isSome {d sub : VirtualDirectory} {name : JString}
    (hsub : Subdirectory d name sub) (ls : List JString) :
    (Virtual.directoryAt sub ls).isSome ↔
      (Virtual.directoryAt d (name :: ls)).isSome ∨ ls = [] := by
  cases hsub with
  | old hsub =>
    rw [directoryAt_cons hsub]
    refine ⟨.inl, fun h => h.elim id fun hnil => ?_⟩
    rw [hnil]
    rfl
  | new virtualPath hsub _ =>
    rw [directoryAt_none hsub]
    cases ls with
    | nil => exact ⟨fun _ => .inr rfl, fun _ => rfl⟩
    | cons k ls =>
      exact ⟨fun h => absurd h Bool.false_ne_true, fun h => by rcases h with h | h <;> cases h⟩

/-- **The directories after a line** are the old ones and those the line makes. -/
theorem Added.directoryAt_isSome {line : Line} {names : List JString} {d d' : VirtualDirectory}
    (h : Added line names d d') (ls : List JString) :
    (directoryAt d' ls).isSome ↔ (directoryAt d ls).isSome ∨ Makes names line ls := by
  induction h generalizing ls with
  | @directory d sub sub' name hdir hfile hsub hpath =>
    cases ls with
    | nil => exact ⟨fun _ => .inl rfl, fun _ => rfl⟩
    | cons k ls =>
      obtain ⟨hchildren, _, _⟩ := requireRoles_ok hpath line.requiredRoles
      rw [makes_cons]
      by_cases hk : name = k
      · subst hk
        have hmakes : Makes [] line ls ↔ ls = [] :=
          ⟨fun h => List.prefix_nil.mp h.1, fun h => ⟨h ▸ List.nil_prefix, .inl hdir⟩⟩
        rw [directoryAt_put_self, hmakes, eq_self_iff_true, true_and, ← hsub.directoryAt_isSome]
        cases ls with
        | nil => exact Iff.rfl
        | cons j ls => rw [directoryAt_congr hchildren]
      · rw [directoryAt_put_ne hk]
        simp only [Ne.symm hk, false_and, or_false]
  | @file d name hdir hfile hsub =>
    cases ls with
    | nil => exact ⟨fun _ => .inl rfl, fun _ => rfl⟩
    | cons k ls =>
      have hmakes : ¬ Makes [name] line (k :: ls) := by
        rw [makes_cons]
        rintro ⟨_, hprefix, hkind | hne⟩
        · exact Bool.false_ne_true (hdir.symm.trans hkind)
        · exact hne (List.prefix_nil.mp hprefix)
      rw [directoryAt_congr (children_putFile _ _ _), or_iff_left hmakes]
  | @descend d sub sub' name names hsub h ih =>
    cases ls with
    | nil => exact ⟨fun _ => .inl rfl, fun _ => rfl⟩
    | cons k ls =>
      rw [makes_cons]
      by_cases hk : name = k
      · subst hk
        rw [directoryAt_put_self, ih, hsub.directoryAt_isSome, or_assoc, eq_self_iff_true, true_and]
        refine or_congr_right ⟨fun hor => hor.elim (fun hnil => ?_) id, .inr⟩
        rw [hnil]
        exact makes_nil h.names_ne_nil
      · rw [directoryAt_put_ne hk]
        simp only [Ne.symm hk, false_and, or_false]

/-- A line changes no file at another path, and a directory line changes no file. -/
theorem Added.fileAt_old {line : Line} {names : List JString} {d d' : VirtualDirectory}
    (h : Added line names d d') {ls : List JString} (hls : line.isDirectory = true ∨ ls ≠ names) :
    fileAt d' ls = fileAt d ls := by
  induction h generalizing ls with
  | @directory d sub sub' name hdir hfile hsub hpath =>
    cases ls with
    | nil => rfl
    | cons k ls =>
      obtain ⟨hchildren, hfiles, _⟩ := requireRoles_ok hpath line.requiredRoles
      by_cases hk : name = k
      · subst hk
        by_cases hnil : ls = []
        · subst hnil
          rw [fileAt, fileAt, files_putDirectory]
        · rw [fileAt_put_self hnil, fileAt_congr hfiles hchildren, hsub.fileAt hnil]
      · exact fileAt_put_ne hk _ _ _
  | @file d name hdir hfile hsub =>
    have hne : ls ≠ [name] := hls.resolve_left fun hkind =>
      Bool.false_ne_true (hdir.symm.trans hkind)
    rcases ls with _ | ⟨k, _ | ⟨j, ls⟩⟩
    · rfl
    · have hk : name ≠ k := fun heq => hne (by rw [heq])
      rw [fileAt, fileAt, files_putFile, get_put_ne _ hk]
    · rw [fileAt, fileAt, VirtualDirectory.directories, children_putFile]
      · rfl
      · exact List.cons_ne_nil _ _
      · exact List.cons_ne_nil _ _
  | @descend d sub sub' name names hsub h ih =>
    cases ls with
    | nil => rfl
    | cons k ls =>
      by_cases hk : name = k
      · subst hk
        by_cases hnil : ls = []
        · subst hnil
          rw [fileAt, fileAt, files_putDirectory]
        · rw [fileAt_put_self hnil, ih, hsub.fileAt hnil]
          exact hls.imp_right fun hne heq => hne (by rw [heq])
      · exact fileAt_put_ne hk _ _ _

/-- What a line says about its file. -/
structure VirtualFile.IsOf (file : VirtualFile) (line : Line) : Prop where
  filesystemPath : file.filesystemPath = line.realFilename
  length : file.length = line.length
  lastModified : file.lastModified = line.lastModified
  mediaType : file.mediaType = line.mediaType

/-- **The line of a file adds the file.** -/
theorem Added.fileAt_new {line : Line} {names : List JString} {d d' : VirtualDirectory}
    (h : Added line names d d') (hkind : line.isDirectory = false) :
    ∃ file : VirtualFile, fileAt d' names = some file ∧ file.IsOf line := by
  induction h with
  | directory hdir => exact absurd (hkind.symm.trans hdir) Bool.false_ne_true
  | @file d name hdir hfile hsub =>
    refine ⟨newFile d name line, ?_, rfl, rfl, rfl, rfl⟩
    rw [fileAt, files_putFile, get_put_self]
  | descend hsub h ih =>
    obtain ⟨file, hfile, hof⟩ := ih
    exact ⟨file, (fileAt_put_self h.names_ne_nil).trans hfile, hof⟩

/-! ## 4. Roles and metadata paths -/

/-- The last directory there is on the way to `names`. -/
def nearest : VirtualDirectory → List JString → VirtualDirectory
  | d, [] => d
  | d, name :: names =>
    match get d.directories name with
    | some sub => nearest sub names
    | none => d

theorem nearest_cons {d sub : VirtualDirectory} {name : JString}
    (h : get d.directories name = some sub) (names : List JString) :
    nearest d (name :: names) = nearest sub names := by
  rw [nearest, h]

theorem nearest_none {d : VirtualDirectory} {name : JString} (h : get d.directories name = none)
    (names : List JString) : nearest d (name :: names) = d := by
  rw [nearest, h]

theorem nearest_of_directoryAt {d s : VirtualDirectory} {names : List JString}
    (h : directoryAt d names = some s) : nearest d names = s := by
  induction names generalizing d with
  | nil => exact Option.some.inj h
  | cons name names ih =>
    cases hsub : get d.directories name with
    | none =>
      rw [directoryAt_none hsub] at h
      cases h
    | some sub =>
      rw [directoryAt_cons hsub] at h
      exact (nearest_cons hsub names).trans (ih h)

/-- A directory with the same subdirectories. -/
theorem nearest_congr {d d' : VirtualDirectory} (h : d'.children = d.children) (ls : List JString) :
    (nearest d' ls = nearest d ls ∧ ∃ c, [c] <+: ls ∧ directoryAt d [c] ≠ none) ∨
      (nearest d' ls = d' ∧ nearest d ls = d ∧ ∀ c, [c] <+: ls → directoryAt d [c] = none) := by
  cases ls with
  | nil => exact .inr ⟨rfl, rfl, fun c hc => by cases List.prefix_nil.mp hc⟩
  | cons k ls =>
    have hget : get d'.directories k = get d.directories k := by
      rw [VirtualDirectory.directories, h]
      rfl
    cases hsub : get d.directories k with
    | some sub =>
      refine .inl ⟨(nearest_cons (hget.trans hsub) ls).trans (nearest_cons hsub ls).symm, k,
        List.cons_prefix_cons.mpr ⟨rfl, List.nil_prefix⟩, ?_⟩
      rw [directoryAt_cons hsub]
      exact Option.some_ne_none _
    | none =>
      refine .inr ⟨nearest_none (hget.trans hsub) ls, nearest_none hsub ls, fun c hc => ?_⟩
      rw [(List.cons_prefix_cons.mp hc).1]
      exact directoryAt_none hsub []

theorem nearest_put_ne {name k : JString} (h : name ≠ k) (sub d : VirtualDirectory)
    (ls : List JString) :
    (nearest (putDirectory name sub d) (k :: ls)).requiredRoles =
      (nearest d (k :: ls)).requiredRoles := by
  have hget : get (putDirectory name sub d).directories k = get d.directories k := by
    rw [VirtualDirectory.directories, children_putDirectory, get_put_ne _ h]
    rfl
  cases hsub : get d.directories k with
  | some s => rw [nearest_cons (hget.trans hsub), nearest_cons hsub]
  | none =>
    rw [nearest_none (hget.trans hsub), nearest_none hsub]
    exact congrArg DirectoryFields.requiredRoles (val_putDirectory _ _ _)

/-- The subdirectory a line goes on in requires what the directory would hand down. -/
theorem Subdirectory.nearest {d sub : VirtualDirectory} {name : JString}
    (hsub : Subdirectory d name sub) (ls : List JString) :
    (Virtual.nearest sub ls).requiredRoles = (Virtual.nearest d (name :: ls)).requiredRoles := by
  cases hsub with
  | old hsub => rw [nearest_cons hsub]
  | new virtualPath hsub _ =>
    rw [nearest_none hsub]
    cases ls with
    | nil => rfl
    | cons k ls => rfl

/-- A role that a line adds reaches the directory of its path, and what is made below it from then
on; what is below it already does not get it. -/
def Reaches (line : Line) (names : List JString) (d : VirtualDirectory) (role : JString)
    (ls : List JString) : Prop :=
  line.isDirectory = true ∧ role ∈ line.requiredRoles ∧ names <+: ls ∧
    ∀ c, names ++ [c] <+: ls → directoryAt d (names ++ [c]) = none

theorem reaches_cons {line : Line} {name k : JString} {names ls : List JString}
    {d sub : VirtualDirectory} {role : JString} (hsub : Subdirectory d name sub) :
    Reaches line (name :: names) d role (k :: ls) ↔
      k = name ∧ Reaches line names sub role ls := by
  have hbelow : ∀ c, directoryAt sub (names ++ [c]) = none ↔
      directoryAt d (name :: (names ++ [c])) = none := fun c => by
    have hne : names ++ [c] ≠ [] := List.append_ne_nil_of_right_ne_nil _ (List.cons_ne_nil _ _)
    have h := hsub.directoryAt_isSome (names ++ [c])
    simp only [hne, or_false] at h
    rw [← Option.not_isSome_iff_eq_none, ← Option.not_isSome_iff_eq_none, h]
  constructor
  · rintro ⟨hdir, hrole, hprefix, hfree⟩
    obtain ⟨hk, hprefix⟩ := List.cons_prefix_cons.mp hprefix
    refine ⟨hk.symm, hdir, hrole, hprefix, fun c hc => (hbelow c).mpr (hfree c ?_)⟩
    exact List.cons_prefix_cons.mpr ⟨hk, hc⟩
  · rintro ⟨hk, hdir, hrole, hprefix, hfree⟩
    refine ⟨hdir, hrole, List.cons_prefix_cons.mpr ⟨hk.symm, hprefix⟩, fun c hc => ?_⟩
    exact (hbelow c).mp (hfree c (List.cons_prefix_cons.mp hc).2)

/-- **The roles after a line**: the old ones, and those of the line where they reach. -/
theorem Added.nearest {line : Line} {names : List JString} {d d' : VirtualDirectory}
    (h : Added line names d d') (ls : List JString) (role : JString) :
    role ∈ (nearest d' ls).requiredRoles ↔
      role ∈ (nearest d ls).requiredRoles ∨ Reaches line names d role ls := by
  induction h generalizing ls with
  | @directory d sub sub' name hdir hfile hsub hpath =>
    cases ls with
    | nil =>
      rw [or_iff_left fun hreach => by cases List.prefix_nil.mp hreach.2.2.1]
      exact Iff.of_eq (congrArg (role ∈ ·) (Added.directory hdir hfile hsub hpath).requiredRoles_eq)
    | cons k ls =>
      obtain ⟨hchildren, _, hroles⟩ := requireRoles_ok hpath line.requiredRoles
      rw [reaches_cons hsub]
      by_cases hk : name = k
      · subst hk
        have hput : get (putDirectory name (requireRoles line.requiredRoles sub') d).directories
          name =
            some (requireRoles line.requiredRoles sub') := by
          rw [VirtualDirectory.directories, children_putDirectory, get_put_self]
        rw [nearest_cons hput, ← hsub.nearest, eq_self_iff_true, true_and]
        rcases nearest_congr hchildren ls with ⟨heq, c, hc, hthere⟩ | ⟨hnew, hold, hfree⟩
        · rw [heq, or_iff_left fun hreach => hthere (hreach.2.2.2 c hc)]
        · rw [hnew, hold, hroles, or_comm]
          exact or_congr_right ⟨fun hrole => ⟨hdir, hrole, List.nil_prefix, hfree⟩, fun hreach =>
            hreach.2.1⟩
      · simp only [Ne.symm hk, false_and, or_false]
        rw [nearest_put_ne hk]
  | @file d name hdir hfile hsub =>
    rw [or_iff_left fun hreach => Bool.false_ne_true (hdir.symm.trans hreach.1)]
    rcases nearest_congr (children_putFile name (newFile d name line) d) ls with
      ⟨heq, _⟩ | ⟨hnew, hold, _⟩
    · rw [heq]
    · rw [hnew, hold, requiredRoles_putFile]
  | @descend d sub sub' name names hsub h ih =>
    cases ls with
    | nil =>
      rw [or_iff_left fun hreach => by cases List.prefix_nil.mp hreach.2.2.1]
      exact Iff.of_eq (congrArg (role ∈ ·) (Added.descend hsub h).requiredRoles_eq)
    | cons k ls =>
      rw [reaches_cons hsub]
      by_cases hk : name = k
      · subst hk
        have hput : get (putDirectory name sub' d).directories name = some sub' := by
          rw [VirtualDirectory.directories, children_putDirectory, get_put_self]
        rw [nearest_cons hput, ih, ← hsub.nearest, eq_self_iff_true, true_and]
      · simp only [Ne.symm hk, false_and, or_false]
        rw [nearest_put_ne hk]

/-- The metadata path of the directory `ls`. -/
def realPathAt (d : VirtualDirectory) (ls : List JString) : Option JString :=
  (directoryAt d ls).bind fun s => s.val.realPath

theorem realPathAt_congr {d d' : VirtualDirectory} (h : d'.children = d.children) (k : JString)
    (ls : List JString) : realPathAt d' (k :: ls) = realPathAt d (k :: ls) := by
  rw [realPathAt, realPathAt, directoryAt_congr h]

theorem Subdirectory.realPathAt {d sub : VirtualDirectory} {name : JString}
    (hsub : Subdirectory d name sub) (ls : List JString) :
    Virtual.realPathAt sub ls = Virtual.realPathAt d (name :: ls) := by
  rw [Virtual.realPathAt, Virtual.realPathAt]
  cases hsub with
  | old hsub => rw [directoryAt_cons hsub]
  | new virtualPath hsub _ =>
    rw [directoryAt_none hsub]
    cases ls with
    | nil => rfl
    | cons k ls => rfl

/-- A line changes no metadata path but that of its directory. -/
theorem Added.realPathAt_old {line : Line} {names : List JString} {d d' : VirtualDirectory}
    (h : Added line names d d') {ls : List JString} (hls : line.isDirectory = false ∨ ls ≠ names) :
    realPathAt d' ls = realPathAt d ls := by
  induction h generalizing ls with
  | @directory d sub sub' name hdir hfile hsub hpath =>
    have hne : ls ≠ [name] := hls.resolve_left fun hkind =>
      Bool.false_ne_true (hkind.symm.trans hdir)
    obtain ⟨hchildren, _, _⟩ := requireRoles_ok hpath line.requiredRoles
    rcases ls with _ | ⟨k, ls⟩
    · exact congrArg DirectoryFields.realPath (val_putDirectory _ _ _)
    by_cases hk : name = k
    · subst hk
      rcases ls with _ | ⟨j, ls⟩
      · exact absurd rfl hne
      · rw [← hsub.realPathAt, ← realPathAt_congr hchildren, realPathAt, directoryAt_put_self]
        rfl
    · rw [realPathAt, directoryAt_put_ne hk]
      rfl
  | @file d name hdir hfile hsub =>
    rcases ls with _ | ⟨k, ls⟩
    · cases d with
      | node fields subdirs => rfl
    · exact realPathAt_congr (children_putFile _ _ _) k ls
  | @descend d sub sub' name names hsub h ih =>
    rcases ls with _ | ⟨k, ls⟩
    · exact congrArg DirectoryFields.realPath (val_putDirectory _ _ _)
    by_cases hk : name = k
    · subst hk
      rw [← hsub.realPathAt, ← ih (hls.imp_right fun hne heq => hne (by rw [heq])), realPathAt,
        directoryAt_put_self]
      rfl
    · rw [realPathAt, directoryAt_put_ne hk]
      rfl

/-- **The metadata path of a directory is set once**, by a line that names one. -/
theorem Added.realPathAt_new {line : Line} {names : List JString} {d d' : VirtualDirectory}
    (h : Added line names d d') (hkind : line.isDirectory = true) :
    realPathAt d names = none ∧
      realPathAt d' names =
        if trim line.realFilename ≠ [] then some (trim line.realFilename) else none := by
  induction h with
  | @directory d sub sub' name hdir hfile hsub hpath =>
    rw [← hsub.realPathAt, realPathAt, realPathAt, directoryAt_put_self]
    cases sub with
    | node fields subdirs =>
      rw [setRealPath] at hpath
      split at hpath
      · cases hpath
      · rename_i hnone
        cases hpath
        exact ⟨Option.not_isSome_iff_eq_none.mp hnone, rfl⟩
  | file hdir => exact absurd (hdir.symm.trans hkind) Bool.false_ne_true
  | @descend d sub sub' name names hsub h ih =>
    rw [← hsub.realPathAt]
    refine ⟨ih.1, ?_⟩
    rw [← ih.2, realPathAt, directoryAt_put_self]
    rfl

/-- The path of a line is free of files. -/
theorem Added.fileAt_free {line : Line} {names : List JString} {d d' : VirtualDirectory}
    (h : Added line names d d') : fileAt d names = none := by
  induction h with
  | directory hdir hfile => exact hfile
  | file hdir hfile => exact hfile
  | descend hsub h ih => exact (hsub.fileAt h.names_ne_nil).symm.trans ih

/-! ## 5. A configuration -/

/-- Reading one more line. -/
theorem addFromReader_snoc {before : List JString} {text : JString} {t' : VirtualDirectory} :
    addFromReader (before ++ [text]) newRoot = .ok t' ↔
      ∃ t path line, addFromReader before newRoot = .ok t ∧ parseLine text = .ok (path, line) ∧
        addFile path line t = .ok t' := by
  rw [addFromReader, List.foldlM_append, ← addFromReader, bind_eq_ok_iff]
  simp only [List.foldlM_cons, List.foldlM_nil, bind_pure, bind_eq_ok_iff, Prod.exists,
    exists_and_left]

/-- A file of the tree is the file of a line. -/
theorem Built.fileAt {es : List (List JString × Line)} {t : VirtualDirectory} (h : Built es t)
    {ls : List JString} {file : VirtualFile} (hfile : fileAt t ls = some file) :
    ∃ e ∈ es, e.1 = ls ∧ e.2.isDirectory = false ∧ file.IsOf e.2 := by
  induction h with
  | root =>
    have hnone := fileAt_newDirectory newRoot [] [] ls
    cases hnone.symm.trans hfile
  | @line es d d' names line _ _ _ h ih =>
    have hold : line.isDirectory = true ∨ ls ≠ names → ∃ e ∈ es ++ [(names, line)],
        e.1 = ls ∧ e.2.isDirectory = false ∧ file.IsOf e.2 := fun hls => by
      rw [h.fileAt_old hls] at hfile
      obtain ⟨e, he, hprops⟩ := ih hfile
      exact ⟨e, List.mem_append_left _ he, hprops⟩
    cases hkind : line.isDirectory with
    | true => exact hold (.inl hkind)
    | false =>
      by_cases hls : ls = names
      · subst hls
        obtain ⟨new, hnew, hof⟩ := h.fileAt_new hkind
        cases hnew.symm.trans hfile
        exact ⟨_, List.mem_append_right _ (List.mem_singleton.mpr rfl), rfl, hkind, hof⟩
      · exact hold (.inr hls)

/-- **The file of every line of a file is there.** -/
theorem Built.file {es : List (List JString × Line)} {t : VirtualDirectory} (h : Built es t)
    {e : List JString × Line} (he : e ∈ es) (hkind : e.2.isDirectory = false) :
    ∃ file : VirtualFile, Virtual.fileAt t e.1 = some file ∧ file.IsOf e.2 := by
  induction h with
  | root => cases he
  | @line es d d' names line _ _ _ h ih =>
    rcases List.mem_append.mp he with hold | hnew
    · obtain ⟨file, hfile, hof⟩ := ih hold
      have hne : e.1 ≠ names := fun heq => by
        rw [heq, h.fileAt_free] at hfile
        cases hfile
      exact ⟨file, (h.fileAt_old (.inr hne)).trans hfile, hof⟩
    · rw [List.mem_singleton.mp hnew] at hkind ⊢
      exact h.fileAt_new hkind

/-- **The directories of the tree** are the root and those the lines make. -/
theorem Built.directoryAt_isSome {es : List (List JString × Line)} {t : VirtualDirectory}
    (h : Built es t) (ls : List JString) :
    (directoryAt t ls).isSome ↔ ls = [] ∨ ∃ e ∈ es, Makes e.1 e.2 ls := by
  induction h with
  | root =>
    cases ls with
    | nil => exact ⟨fun _ => .inl rfl, fun _ => rfl⟩
    | cons k ls =>
      refine ⟨fun h => absurd h Bool.false_ne_true, ?_⟩
      rintro (hnil | ⟨e, he, _⟩)
      · cases hnil
      · cases he
  | line _ _ _ h ih =>
    rw [h.directoryAt_isSome, ih, or_assoc]
    refine or_congr_right ?_
    simp only [List.mem_append, List.mem_singleton, or_and_right, exists_or, exists_eq_left]

/-- The metadata path of a directory comes from a line for it. -/
theorem Built.realPathAt {es : List (List JString × Line)} {t : VirtualDirectory} (h : Built es t)
    (ls : List JString) :
    realPathAt t ls ≠ none ↔
      ∃ e ∈ es, e.2.isDirectory = true ∧ e.1 = ls ∧ trim e.2.realFilename ≠ [] := by
  induction h with
  | root =>
    refine ⟨fun h => absurd ?_ h, ?_⟩
    · cases ls <;> rfl
    · rintro ⟨e, he, _⟩
      cases he
  | @line es d d' names line _ _ _ h ih =>
    simp only [List.mem_append, List.mem_singleton, or_and_right, exists_or, exists_eq_left]
    by_cases hline : line.isDirectory = true ∧ ls = names
    · obtain ⟨hkind, rfl⟩ := hline
      obtain ⟨hfree, hnew⟩ := h.realPathAt_new hkind
      rw [← ih, hnew, hfree]
      simp only [ne_eq, not_true_eq_false, false_or, hkind, true_and]
      split
      · rename_i hne
        exact ⟨fun _ => hne, fun _ => Option.some_ne_none _⟩
      · rename_i hnil
        exact ⟨fun h => absurd rfl h, fun h => absurd h hnil⟩
    · have hold : line.isDirectory = false ∨ ls ≠ names := by
        rwa [not_and_or, Bool.not_eq_true] at hline
      rw [h.realPathAt_old hold, ih]
      exact (or_iff_left fun hnew => hline ⟨hnew.1, hnew.2.1.symm⟩).symm

/-- No directory line comes after the one with the metadata path of its directory. -/
theorem Built.realPath_last {es : List (List JString × Line)} {t : VirtualDirectory}
    (h : Built es t) :
    es.Pairwise fun e e' => e.2.isDirectory = true → e'.2.isDirectory = true → e.1 = e'.1 →
      trim e.2.realFilename = [] := by
  induction h with
  | root => exact List.Pairwise.nil
  | @line es d d' names line hd _ _ h ih =>
    refine List.pairwise_append.mpr ⟨ih, List.pairwise_singleton _ _, fun e he e' he' => ?_⟩
    rw [List.mem_singleton.mp he']
    intro hdir hdir' hpath
    by_contra hne
    exact (hd.realPathAt names).mpr ⟨e, he, hdir, hpath, hne⟩ (h.realPathAt_new hdir').1

/-- The lines before one of the list. -/
theorem exists_split_snoc {α : Type*} {P : List α → α → Prop} {l : List α} {a : α} :
    (∃ before e after, l ++ [a] = before ++ e :: after ∧ P before e) ↔
      (∃ before e after, l = before ++ e :: after ∧ P before e) ∨ P l a := by
  constructor
  · rintro ⟨before, e, after, heq, hP⟩
    rcases List.eq_nil_or_concat after with rfl | ⟨after, b, rfl⟩
    · obtain ⟨hl, ha⟩ := List.append_inj' heq rfl
      rw [hl, List.head_eq_of_cons_eq ha]
      exact .inr hP
    · rw [List.concat_eq_append, ← List.cons_append, ← List.append_assoc] at heq
      exact .inl ⟨before, e, after, (List.append_inj' heq rfl).1, hP⟩
  · rintro (⟨before, e, after, rfl, hP⟩ | hP)
    · exact ⟨before, e, after ++ [a], by rw [List.append_assoc, List.cons_append], hP⟩
    · exact ⟨l, a, [], rfl, hP⟩

/-- The line `e`, after the lines `before`, gives `role` to the directory `ls`: it is a line for the
directory, or for one above it that had no directory on the way yet. -/
def HandsDown (before : List (List JString × Line)) (e : List JString × Line) (ls : List JString)
    (role : JString) : Prop :=
  e.2.isDirectory = true ∧ role ∈ e.2.requiredRoles ∧ e.1 <+: ls ∧
    ∀ c, e.1 ++ [c] <+: ls → ∀ e' ∈ before, ¬ Makes e'.1 e'.2 (e.1 ++ [c])

/-- **Where the roles come from.**  A directory requires the roles of its lines, and those of the
lines for a directory above that come before the first line below that directory on the way. -/
theorem Built.nearest {es : List (List JString × Line)} {t : VirtualDirectory} (h : Built es t)
    (ls : List JString) (role : JString) :
    role ∈ (nearest t ls).requiredRoles ↔
      ∃ before e after, es = before ++ e :: after ∧ HandsDown before e ls role := by
  induction h with
  | root =>
    constructor
    · intro hrole
      cases ls <;> cases hrole
    · rintro ⟨before, e, after, heq, _⟩
      cases before <;> cases heq
  | @line es d d' names line hd _ _ h ih =>
    rw [h.nearest, ih, exists_split_snoc (P := fun before e => HandsDown before e ls role)]
    refine or_congr_right ?_
    rw [Reaches, HandsDown]
    refine and_congr_right fun _ => and_congr_right fun _ => and_congr_right fun _ =>
      forall_congr' fun c => forall_congr' fun _ => ?_
    have hne : names ++ [c] ≠ [] := List.append_ne_nil_of_right_ne_nil _ (List.cons_ne_nil _ _)
    rw [← Option.not_isSome_iff_eq_none, hd.directoryAt_isSome]
    simp only [hne, false_or, not_exists, not_and]

end HdfStream.Virtual
