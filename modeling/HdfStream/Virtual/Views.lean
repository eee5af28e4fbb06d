/-
# What a user sees

The tree of a user is the tree without the directories the user cannot access (`visible`).
Everything a user can ask for is the same in both: a path resolves to the same thing or fails
with the same message, and the files, the subdirectories, all files below a directory and their
total size agree (`views_agree`).  The total size is the sum of the lengths of all files, and
the files are those that resolve.

`resolvePath` ignores a slash at the end of a path, so a file has a second name, with the slash,
under which it resolves but is not listed (`slash_notListed`).
-/
import HdfStream.Virtual.Access

namespace HdfStream.Virtual

open Java LinkedMap

/-- The user with every role. -/
def everyone : JString → Bool := fun _ => true

/-- The user has the roles a directory requires. -/
def accessible (inRole : JString → Bool) (fields : DirectoryFields) : Bool :=
  fields.requiredRoles.all inRole

/-- The tree without the directories the user cannot access. -/
def visible (inRole : JString → Bool) (d : VirtualDirectory) : VirtualDirectory :=
  d.prune (accessible inRole)

def VirtualPathInfo.visible (inRole : JString → Bool) (info : VirtualPathInfo) : VirtualPathInfo :=
  { info with directory := info.directory.map (Virtual.visible inRole) }

theorem canAccess_everyone (d : VirtualDirectory) : canAccess everyone d = true :=
  List.all_eq_true.mpr fun _ _ => rfl

/-! ## 1. One directory -/

@[simp] theorem files_visible (inRole : JString → Bool) (d : VirtualDirectory) :
    (visible inRole d).files = d.files :=
  congrArg DirectoryFields.files (Trie.val_prune _ d)

theorem get_visible {inRole : JString → Bool} {d : VirtualDirectory} (hd : DirectoryOk d)
    (name : JString) :
    get (visible inRole d).directories name =
      ((get d.directories name).filter fun sub => canAccess inRole sub).map (visible inRole) := by
  rw [VirtualDirectory.directories, visible, Trie.children_prune, Trie.get_pruneChildren hd.unique]
  rfl

theorem getFiles_visible {inRole : JString → Bool} {d : VirtualDirectory}
    (h : canAccess inRole d = true) : getFiles everyone (visible inRole d) = getFiles inRole d := by
  rw [getFiles, getFiles, if_pos (canAccess_everyone _), if_pos h, files_visible]

/-- `getDirectories` filters the subdirectories. -/
theorem getDirectories_eq {inRole : JString → Bool} {d : VirtualDirectory} (hd : d.UniqueNames)
    (h : canAccess inRole d = true) :
    getDirectories inRole d = d.directories.filter fun entry => canAccess inRole entry.2 := by
  have hsub : (d.directories.filter fun entry => canAccess inRole entry.2).Sublist d.directories :=
    List.filter_sublist
  have hnodup : (keys ([] ++ d.directories.filter fun entry => canAccess inRole entry.2)).Nodup :=
    hd.sublist (hsub.map _)
  rw [getDirectories, if_pos h, ← List.foldl_filter, foldl_put hnodup, List.nil_append]

theorem visible_unique {inRole : JString → Bool} {d : VirtualDirectory} (hd : d.UniqueNames) :
    (visible inRole d).UniqueNames := by
  have hsub : (d.children.filter fun c => accessible inRole c.2.val).Sublist d.children :=
    List.filter_sublist
  rw [Trie.UniqueNames, visible, Trie.children_prune, Trie.pruneChildren_eq, keys, List.map_map]
  exact hd.sublist (hsub.map Prod.fst)

theorem getDirectories_visible {inRole : JString → Bool} {d : VirtualDirectory}
    (hd : d.UniqueNames) (h : canAccess inRole d = true) :
    getDirectories everyone (visible inRole d) =
      (getDirectories inRole d).map fun entry => (entry.1, visible inRole entry.2) := by
  have hall : ((visible inRole d).directories.filter fun entry => canAccess everyone entry.2) =
      (visible inRole d).directories :=
    List.filter_eq_self.mpr fun entry _ => canAccess_everyone entry.2
  rw [getDirectories_eq (visible_unique hd) (canAccess_everyone _), hall, getDirectories_eq hd h,
    VirtualDirectory.directories, visible, Trie.children_prune, Trie.pruneChildren_eq]
  rfl

/-! ## 2. All files, and their size -/

theorem getAllFilesRecursive_eq (path : JString) (inRole : JString → Bool) (d : VirtualDirectory)
    (result : List (JString × VirtualFile)) :
    getAllFilesRecursive path inRole d result =
      if canAccess inRole d then
        getAllFilesOf path inRole d.children
          (d.files.foldl (fun result entry => put result (path ++ entry.1) entry.2) result)
      else result := by
  cases d with
  | node fields subdirs =>
    rw [getAllFilesRecursive]
    by_cases h : canAccess inRole (.node fields subdirs) = true
    · simp only [getFiles, h, if_true]
      rfl
    · simp only [getFiles, h, if_false, Bool.false_eq_true]
      rfl

theorem getAllFilesRecursive_visible {inRole : JString → Bool} {d : VirtualDirectory}
    (h : canAccess inRole d = true) (path : JString) (result : List (JString × VirtualFile)) :
    getAllFilesRecursive path everyone (visible inRole d) result =
      getAllFilesRecursive path inRole d result := by
  induction d using Trie.induction generalizing path result with
  | h fields subdirs ih =>
    have hloop : ∀ (cs : List (JString × VirtualDirectory)) (result : List (JString × VirtualFile)),
        cs.Sublist subdirs →
        getAllFilesOf path everyone (Trie.pruneChildren (accessible inRole) cs) result =
          getAllFilesOf path inRole cs result := by
      intro cs
      induction cs with
      | nil => exact fun _ _ => rfl
      | cons c cs ihcs =>
        obtain ⟨name, sub⟩ := c
        intro result hsub
        have hrest := fun result => ihcs result ((List.sublist_cons_self _ _).trans hsub)
        rw [Trie.pruneChildren, getAllFilesOf]
        by_cases hacc : accessible inRole sub.val = true
        · rw [if_pos hacc, getAllFilesOf, if_pos (canAccess_everyone _), hrest,
            if_pos (show canAccess inRole sub = true from hacc)]
          exact congrArg _ (ih (name, sub) (hsub.subset List.mem_cons_self) hacc _ _)
        · rw [if_neg hacc, hrest, if_neg (show ¬ canAccess inRole sub = true from hacc)]
    rw [getAllFilesRecursive_eq, getAllFilesRecursive_eq, if_pos (canAccess_everyone _), if_pos h,
      files_visible, visible, Trie.children_prune]
    exact hloop subdirs _ (List.Sublist.refl _)

theorem getAllFiles_visible {inRole : JString → Bool} {d : VirtualDirectory}
    (h : canAccess inRole d = true) : getAllFiles everyone (visible inRole d) = getAllFiles
      inRole d :=
  getAllFilesRecursive_visible h [] []

theorem getTotalSize_visible {inRole : JString → Bool} {d : VirtualDirectory}
    (h : canAccess inRole d = true) :
    getTotalSize everyone (visible inRole d) = getTotalSize inRole d := by
  induction d using Trie.induction with
  | h fields subdirs ih =>
    have hloop : ∀ cs : List (JString × VirtualDirectory), cs.Sublist subdirs →
        getTotalSizeOf everyone (Trie.pruneChildren (accessible inRole) cs) =
          getTotalSizeOf inRole cs := by
      intro cs
      induction cs with
      | nil => exact fun _ => rfl
      | cons c cs ihcs =>
        obtain ⟨name, sub⟩ := c
        intro hsub
        have hrest := ihcs ((List.sublist_cons_self _ _).trans hsub)
        rw [Trie.pruneChildren, getTotalSizeOf]
        by_cases hacc : accessible inRole sub.val = true
        · rw [if_pos hacc, getTotalSizeOf, hrest]
          exact congrArg (· + _) (ih (name, sub) (hsub.subset List.mem_cons_self) hacc)
        · rw [if_neg hacc, hrest]
          cases sub with
          | node f s =>
            rw [getTotalSize, if_neg (show ¬ canAccess inRole (.node f s) = true from hacc),
              zero_add]
    rw [visible, Trie.prune, getTotalSize, getTotalSize, if_pos (canAccess_everyone _), if_pos h,
      hloop subdirs (List.Sublist.refl _)]

/-! ## 3. The files of a tree -/

/-- The files below a directory, each with the components of its path. -/
def filesBelow (d : VirtualDirectory) : List (List JString × JString × VirtualFile) :=
  Trie.gather DirectoryFields.files d

/-- The path of a file below the directory at `path`. -/
def filePath (path : JString) (x : List JString × JString × VirtualFile) : JString × VirtualFile :=
  (path ++ joinPath (x.1 ++ [x.2.1]), x.2.2)

/-- `getAllFilesRecursive` puts the files below the directory into the result, in order. -/
theorem getAllFilesRecursive_everyone (path : JString) (d : VirtualDirectory)
    (result : List (JString × VirtualFile)) :
    getAllFilesRecursive path everyone d result =
      ((filesBelow d).map (filePath path)).foldl (fun acc e => put acc e.1 e.2) result := by
  induction d using Trie.induction generalizing path result with
  | h fields subdirs ih =>
    have hloop : ∀ (cs : List (JString × VirtualDirectory)) (result : List (JString × VirtualFile)),
        cs.Sublist subdirs →
        getAllFilesOf path everyone cs result =
          ((Trie.gatherChildren DirectoryFields.files cs).map (filePath path)).foldl
            (fun acc e => put acc e.1 e.2) result := by
      intro cs
      induction cs with
      | nil => exact fun _ _ => rfl
      | cons c cs ihcs =>
        obtain ⟨name, sub⟩ := c
        intro result hsub
        have hpath : ∀ x, filePath path (name :: x.1, x.2) = filePath (path ++ name ++ ['/'])
          x := by
          intro x
          have hne : x.1 ++ [x.2.1] ≠ [] := List.append_ne_nil_of_right_ne_nil _
            (List.cons_ne_nil _ _)
          rw [filePath, filePath, List.cons_append, joinPath_cons hne, List.append_assoc,
            List.append_assoc]
          rfl
        rw [getAllFilesOf, if_pos (canAccess_everyone sub),
          ihcs _ ((List.sublist_cons_self _ _).trans hsub),
          ih (name, sub) (hsub.subset List.mem_cons_self), Trie.gatherChildren, List.map_append,
          List.foldl_append, List.map_map]
        rw [show (filePath path ∘ fun x : List JString × JString × VirtualFile =>
          (name :: x.1, x.2)) = filePath (path ++ name ++ ['/']) from funext hpath]
        rfl
    have hfiles : fields.files.foldl (fun acc entry => put acc (path ++ entry.1) entry.2) result =
        ((fields.files.map fun b => ([], b)).map (filePath path)).foldl
          (fun acc e => put acc e.1 e.2) result := by
      rw [List.foldl_map, List.foldl_map]
      rfl
    rw [getAllFilesRecursive_eq, if_pos (canAccess_everyone _), filesBelow, Trie.gather,
      List.map_append, List.foldl_append, ← hfiles]
    exact hloop subdirs _ (List.Sublist.refl _)

theorem walk_names {d s : VirtualDirectory} (hd : d.All DirectoryOk) {p : DirectoryFields → Bool}
    {ks : List JString} (h : d.walk p ks = some s) : ∀ n ∈ ks, IsName n := by
  induction ks generalizing d with
  | nil => exact fun n hn => by cases hn
  | cons k ks ih =>
    obtain ⟨c, hc, _, hw⟩ := Trie.walk_cons_eq_some.mp h
    have hmem := mem_of_get hc
    intro n hn
    rcases List.mem_cons.mp hn with rfl | hn
    · exact hd.root.directories_name n (List.mem_map.mpr ⟨_, hmem, rfl⟩)
    · exact ih (hd.child hmem) hw n hn

/-- The components of the path of a file are names. -/
theorem filesBelow_names {d : VirtualDirectory} (hd : d.All DirectoryOk)
    {x : List JString × JString × VirtualFile} (hx : x ∈ filesBelow d) :
    ∀ n ∈ x.1 ++ [x.2.1], IsName n := by
  obtain ⟨ks, name, file⟩ := x
  obtain ⟨s, hs, hmem⟩ := (Trie.mem_gather (hd.imp fun _ h => h.unique)).mp hx
  intro n hn
  rcases List.mem_append.mp hn with hks | hname
  · exact walk_names hd hs n hks
  · rw [List.mem_singleton.mp hname]
    exact (hd.walk hs).root.files_name name (List.mem_map.mpr ⟨_, hmem, rfl⟩)

/-- Different files have different paths. -/
theorem filesBelow_nodup {d : VirtualDirectory} (hd : d.All DirectoryOk) :
    (keys ((filesBelow d).map (filePath []))).Nodup := by
  have hnodup : ((filesBelow d).map fun x => (x.1, x.2.1)).Nodup :=
    Trie.nodup_gather (g := Prod.fst) (hd.imp fun _ h => h.unique) (hd.imp fun _ h => h.files_nodup)
  have hmap := List.Nodup.map_on (f := fun z : List JString × JString => joinPath (z.1 ++ [z.2]))
    (fun z hz w hw heq => ?_) hnodup
  · rw [List.map_map] at hmap
    rwa [keys, List.map_map]
  · obtain ⟨x, hx, rfl⟩ := List.mem_map.mp hz
    obtain ⟨y, hy, rfl⟩ := List.mem_map.mp hw
    have hne : ∀ (ks : List JString) (n : JString), ks ++ [n] ≠ [] := fun ks n =>
      List.append_ne_nil_of_right_ne_nil _ (List.cons_ne_nil _ _)
    have hcat := joinPath_inj (hne _ _) (hne _ _) (filesBelow_names hd hx)
      (filesBelow_names hd hy) heq
    obtain ⟨h1, h2⟩ := List.append_inj' hcat rfl
    exact Prod.ext h1 (List.cons.inj h2).1

/-- **`getAllFiles` lists the files below the directory**, by their paths. -/
theorem getAllFiles_everyone {d : VirtualDirectory} (hd : d.All DirectoryOk) :
    getAllFiles everyone d = (filesBelow d).map (filePath []) := by
  have hkeys : (keys ([] ++ (filesBelow d).map (filePath []))).Nodup := filesBelow_nodup hd
  rw [getAllFiles, getAllFilesRecursive_everyone, foldl_put hkeys, List.nil_append]

/-- **The total size is the sum of the lengths of all files.** -/
theorem getTotalSize_everyone {d : VirtualDirectory} (hd : d.All DirectoryOk) :
    getTotalSize everyone d = ((filesBelow d).map fun x => x.2.2.length).sum := by
  induction d using Trie.induction with
  | h fields subdirs ih =>
    have hloop : ∀ cs : List (JString × VirtualDirectory), cs.Sublist subdirs →
        getTotalSizeOf everyone cs =
          ((Trie.gatherChildren DirectoryFields.files cs).map fun x => x.2.2.length).sum := by
      intro cs
      induction cs with
      | nil => exact fun _ => rfl
      | cons c cs ihcs =>
        obtain ⟨name, sub⟩ := c
        intro hsub
        have hc := hsub.subset List.mem_cons_self
        rw [getTotalSizeOf, ih (name, sub) hc (hd.child hc),
          ihcs ((List.sublist_cons_self _ _).trans hsub), Trie.gatherChildren, List.map_append,
          List.sum_append, List.map_map]
        rfl
    have hsize := hd.root.size
    rw [getTotalSize, if_pos (canAccess_everyone _), hloop subdirs (List.Sublist.refl _),
      filesBelow,
      Trie.gather, List.map_append, List.sum_append, List.map_map]
    exact congrArg (· + _) hsize

/-! ## 4. Resolving -/

/-- **A path resolves to the same** in the tree the user sees, or fails with the same message. -/
theorem resolvePath_visible {inRole : JString → Bool} {d : VirtualDirectory}
    (hd : d.All DirectoryOk) (path : JString) :
    resolvePath path everyone (visible inRole d) =
      (resolvePath path inRole d).map (VirtualPathInfo.visible inRole) := by
  induction hlen : path.length using Nat.strong_induction_on generalizing path d with
  | _ len ih =>
    subst hlen
    rw [resolvePath_eq, resolvePath_eq]
    split
    · rfl
    cases hsplit : splitPath (stripSlash path) with
    | error e => rfl
    | ok parts =>
      obtain ⟨first, remainder⟩ := parts
      cases first with
      | none =>
        dsimp only
        rw [get_visible hd.root, files_visible]
        cases hsub : get d.directories remainder with
        | none =>
          rw [Option.filter_none, Option.map_none]
          split
          · rfl
          · rfl
        | some sub =>
          cases hacc : canAccess inRole sub with
          | true =>
            simp only [Option.filter_some, hacc, if_true, Option.map_some, Option.isNone_some,
              Bool.false_eq_true, false_and, if_false, Option.any_some, canAccess_everyone,
              Bool.not_true]
            rfl
          | false =>
            -- deleted for the user, and no file has its name
            have hfile : get d.files remainder = none := by
              refine Option.not_isSome_iff_eq_none.mp fun hsome => ?_
              rw [hd.root.no_directory hsome] at hsub
              cases hsub
            simp only [Option.filter_some, hacc, Bool.false_eq_true, if_false, Option.map_none,
              Option.isNone_none, hfile, and_self, if_true, Option.isNone_some, false_and,
              Option.any_some, Bool.not_false]
            rfl
      | some name =>
        dsimp only
        rw [get_visible hd.root]
        cases hsub : get d.directories name with
        | none => rfl
        | some sub =>
          cases hacc : canAccess inRole sub with
          | false =>
            simp only [Option.filter_some, hacc, Bool.false_eq_true, if_false, Option.map_none,
              Bool.not_false, if_true]
            rfl
          | true =>
            simp only [Option.filter_some, hacc, if_true, Option.map_some, canAccess_everyone,
              Bool.not_true, Bool.false_eq_true, if_false, files_visible]
            cases get sub.files remainder with
            | some file => rfl
            | none =>
              have hlt := Nat.lt_of_lt_of_le (splitPath_length_lt hsplit)
                (stripSlash_length_le path)
              exact ih _ hlt (hd.child (mem_of_get hsub)) remainder rfl

/-- **Which files resolve**: those in a directory to which the way is open. -/
theorem resolvePath_file_iff {inRole : JString → Bool} {d : VirtualDirectory}
    (hd : d.All DirectoryOk) {path : JString} (hslash : endsWith path '/' = false)
    (file : VirtualFile) :
    (∃ info, resolvePath path inRole d = .ok info ∧ info.file = some file) ↔
      ∃ ks name, ∃ s : VirtualDirectory, path = joinPath (ks ++ [name]) ∧
        d.walk (accessible inRole) ks = some s ∧ get s.files name = some file := by
  constructor
  · rintro ⟨info, hinfo, hfile⟩
    induction hlen : path.length using Nat.strong_induction_on generalizing path d with
    | _ len ih =>
      subst hlen
      have hstrip : stripSlash path = path := by
        rw [stripSlash, hslash]
        rfl
      rw [resolvePath_eq, hstrip] at hinfo
      split at hinfo
      · cases hinfo
      split at hinfo
      · cases hinfo
      · rename_i hsplit
        obtain ⟨rfl, _⟩ := splitPath_ok hsplit
        split at hinfo
        · cases hinfo
        split at hinfo
        · cases hinfo
        cases hinfo
        exact ⟨[], path, d, rfl, rfl, hfile⟩
      · rename_i name remainder hsplit
        obtain ⟨rfl, _, hne⟩ := splitPath_ok hsplit
        split at hinfo
        · cases hinfo
        rename_i sub hsub
        split at hinfo
        · cases hinfo
        rename_i hacc
        have hacc : canAccess inRole sub = true := by
          simpa only [Bool.not_eq_true', Bool.not_eq_false] using hacc
        split at hinfo
        · rename_i file' hget
          cases hinfo
          refine ⟨[name], remainder, sub, rfl, ?_, hget.trans hfile⟩
          exact Trie.walk_cons_eq_some.mpr ⟨sub, hsub, hacc, rfl⟩
        · rw [endsWith_append_cons _ hne] at hslash
          obtain ⟨ks, last, s, rfl, hwalk, hget⟩ := ih _ (splitPath_length_lt hsplit)
            (hd.child (mem_of_get hsub)) hslash hinfo rfl
          refine ⟨name :: ks, last, s, ?_, ?_, hget⟩
          · rw [List.cons_append, joinPath_cons]
            exact List.append_ne_nil_of_right_ne_nil _ (List.cons_ne_nil _ _)
          · exact Trie.walk_cons_eq_some.mpr ⟨sub, hsub, hacc, hwalk⟩
  · rintro ⟨ks, name, s, rfl, hwalk, hget⟩
    have hnames := walk_names hd hwalk
    have hsome : (get s.files name).isSome := by rw [hget]; rfl
    have hname := (hd.walk hwalk).root.files_name name (get_isSome_iff.mp hsome)
    clear hslash
    induction ks generalizing d with
    | nil =>
      cases hwalk
      have hfound : ¬ ((get s.directories name).isNone ∧ (get s.files name).isNone) := fun h => by
        rw [hget] at h
        cases h.2
      rw [List.nil_append, show joinPath [name] = name from rfl, resolvePath_name hname,
        if_neg hfound, hd.root.no_directory hsome, Option.any_none, if_neg Bool.false_ne_true]
      exact ⟨_, rfl, hget⟩
    | cons k ks ih =>
      obtain ⟨c, hc, hacc, hwalk⟩ := Trie.walk_cons_eq_some.mp hwalk
      have hcok := hd.child (mem_of_get hc)
      have hrest : ∀ n ∈ ks ++ [name], IsName n := fun n hn => by
        rcases List.mem_append.mp hn with hn | hn
        · exact hnames n (List.mem_cons_of_mem _ hn)
        · rw [List.mem_singleton.mp hn]
          exact hname
      have hne : ks ++ [name] ≠ [] := List.append_ne_nil_of_right_ne_nil _ (List.cons_ne_nil _ _)
      rw [List.cons_append, resolvePath_cons (hnames k List.mem_cons_self) hne hrest,
        show get d.directories k = some c from hc]
      dsimp only
      rw [show canAccess inRole c = true from hacc, Bool.not_true, if_neg Bool.false_ne_true]
      cases hdirect : get (VirtualDirectory.files c) (joinPath (ks ++ [name])) with
      | none =>
        exact ih hcok hwalk fun n hn => hnames n (List.mem_cons_of_mem _ hn)
      | some file' =>
        -- a file of `c` itself, so that `ks` is empty
        have hsome' : (get (VirtualDirectory.files c) (joinPath (ks ++ [name]))).isSome :=
          by rw [hdirect]; rfl
        have hjoin := hcok.root.files_name _ (get_isSome_iff.mp hsome')
        have hone : ks ++ [name] = [joinPath (ks ++ [name])] :=
          joinPath_inj hne (List.cons_ne_nil _ _) hrest
            (fun n hmem => by rwa [List.mem_singleton.mp hmem]) rfl
        have hks : ks = [] := by
          have hlen := congrArg List.length hone
          rw [List.length_append, List.length_singleton, List.length_singleton] at hlen
          exact List.length_eq_zero_iff.mp (by omega)
        subst hks
        cases hwalk
        refine ⟨_, rfl, ?_⟩
        rw [List.nil_append, show joinPath [name] = name from rfl] at hdirect
        exact hdirect.symm.trans hget

/-! ## 5. The views agree -/

theorem visible_ok (inRole : JString → Bool) {d : VirtualDirectory} (hd : d.All DirectoryOk) :
    (visible inRole d).All DirectoryOk := by
  refine Trie.All.prune (fun (d : VirtualDirectory) hd => ?_) hd
  show DirectoryOk (visible inRole d)
  have hkeys : ∀ n ∈ keys (visible inRole d).directories, n ∈ keys d.directories := by
    intro n hn
    rw [VirtualDirectory.directories, visible, Trie.children_prune, Trie.pruneChildren_eq, keys,
      List.map_map] at hn
    obtain ⟨c, hc, rfl⟩ := List.mem_map.mp hn
    exact List.mem_map.mpr ⟨c, List.mem_of_mem_filter hc, rfl⟩
  have hval : (visible inRole d).val = d.val := Trie.val_prune _ d
  have hfiles := files_visible inRole d
  constructor
  · exact hfiles ▸ hd.files_nodup
  · exact visible_unique hd.unique
  · exact fun n hn hmem => hd.disjoint n (hfiles ▸ hn) (hkeys n hmem)
  · exact hfiles ▸ hd.files_name
  · exact fun n hn => hd.directories_name n (hkeys n hn)
  · show (visible inRole d).val.sizeOfFiles = ((visible inRole d).files.map _).sum
    rw [hval, hfiles]
    exact hd.size

/-- A path is listed if it leads to a file through directories the user can access. -/
theorem getAllFiles_iff {inRole : JString → Bool} {d : VirtualDirectory} (hd : d.All DirectoryOk)
    (h : canAccess inRole d = true) {path : JString} {file : VirtualFile} :
    get (getAllFiles inRole d) path = some file ↔
      ∃ ks name, ∃ s : VirtualDirectory, path = joinPath (ks ++ [name]) ∧
        d.walk (accessible inRole) ks = some s ∧ get s.files name = some file := by
  have hvisible : (visible inRole d).All DirectoryOk := visible_ok inRole hd
  rw [← getAllFiles_visible h, getAllFiles_everyone hvisible,
    ← mem_iff_get (filesBelow_nodup hvisible), List.mem_map]
  have hunique := hvisible.imp fun _ h => h.unique
  constructor
  · rintro ⟨⟨ks, name, file'⟩, hx, heq⟩
    cases heq
    obtain ⟨s', hs', hmem⟩ := (Trie.mem_gather hunique).mp hx
    rw [visible, Trie.walk_prune (hd.imp fun _ h => h.unique)] at hs'
    obtain ⟨s, hs, rfl⟩ := Option.map_eq_some_iff.mp hs'
    rw [Trie.val_prune] at hmem
    exact ⟨ks, name, s, rfl, hs, get_of_mem (hd.walk hs).root.files_nodup hmem⟩
  · rintro ⟨ks, name, s, rfl, hs, hget⟩
    refine ⟨(ks, name, file), (Trie.mem_gather hunique).mpr ⟨visible inRole s, ?_, ?_⟩, rfl⟩
    · rw [visible, Trie.walk_prune (hd.imp fun _ h => h.unique), hs]
      rfl
    · rw [visible, Trie.val_prune]
      exact mem_of_get hget

theorem getTotalSize_eq {inRole : JString → Bool} {d : VirtualDirectory} (hd : d.All DirectoryOk)
    (h : canAccess inRole d = true) :
    getTotalSize inRole d = ((getAllFiles inRole d).map fun entry => entry.2.length).sum := by
  have hvisible : (visible inRole d).All DirectoryOk := visible_ok inRole hd
  rw [← getTotalSize_visible h, getTotalSize_everyone hvisible, ← getAllFiles_visible h,
    getAllFiles_everyone hvisible, List.map_map]
  rfl

/-- **A user sees the tree without what the user cannot access.**  A path resolves in the one as
in the other.  At every directory the user can get to, the four views are those of the directory
in the visible tree, and the total size is the sum of the lengths of all files.  A path without a
slash at the end is listed for the root if and only if it resolves to the file. -/
theorem views_agree {lines : List JString} {t : VirtualDirectory}
    (h : addFromReader lines newRoot = .ok t) (inRole : JString → Bool) :
    (∀ path, resolvePath path everyone (visible inRole t) =
      (resolvePath path inRole t).map (VirtualPathInfo.visible inRole)) ∧
    (∀ names (d : VirtualDirectory), t.walk (accessible inRole) names = some d →
      directoryAt (visible inRole t) names = some (visible inRole d) ∧
      getFiles everyone (visible inRole d) = getFiles inRole d ∧
      getDirectories everyone (visible inRole d) =
        (getDirectories inRole d).map (fun entry => (entry.1, visible inRole entry.2)) ∧
      getAllFiles everyone (visible inRole d) = getAllFiles inRole d ∧
      getTotalSize everyone (visible inRole d) = getTotalSize inRole d ∧
      getTotalSize inRole d = ((getAllFiles inRole d).map fun entry => entry.2.length).sum) ∧
    ∀ path file, endsWith path '/' = false →
      (get (getAllFiles inRole t) path = some file ↔
        ∃ info, resolvePath path inRole t = .ok info ∧ info.file = some file) := by
  obtain ⟨es, _, hbuilt⟩ := addFromReader_built h
  have hok := hbuilt.ok
  have hroot : canAccess inRole t = true := by
    rw [canAccess, hbuilt.requiredRoles_eq]
    rfl
  refine ⟨resolvePath_visible hok, fun names d hd => ?_, fun path file hslash => ?_⟩
  · have hdok := hok.walk hd
    have hacc : canAccess inRole d = true := by
      rcases List.eq_nil_or_concat names with rfl | ⟨ks, k, rfl⟩
      · cases hd
        exact hroot
      · exact (Trie.walk_eq_some_iff.mp hd).2 _ d List.prefix_rfl (by simp)
          (Trie.walk_eq_some_iff.mp hd).1
    refine ⟨?_, getFiles_visible hacc, getDirectories_visible hdok.root.unique hacc,
      getAllFiles_visible hacc, getTotalSize_visible hacc, getTotalSize_eq hdok hacc⟩
    rw [directoryAt, visible, Trie.walk_prune (hok.imp fun _ h => h.unique), hd]
    rfl
  · rw [getAllFiles_iff hok hroot, resolvePath_file_iff hok hslash]

/-- A tree with a directory for role `r` only, and what the user without roles sees of it. -/
theorem views_agree_noRoles :
    ∃ t, addFromReader [lit "a/f,x,5,1,text/plain", lit "a,,0,0,directory,r",
        lit "g,y,7,1,text/plain"] newRoot = .ok t ∧
      getTotalSize (fun _ => false) t =
        ((getAllFiles (fun _ => false) t).map fun entry => entry.2.length).sum ∧
      ∃ info, resolvePath (lit "g") (fun _ => false) t = .ok info := by
  have hrun : ((addFromReader [lit "a/f,x,5,1,text/plain", lit "a,,0,0,directory,r",
      lit "g,y,7,1,text/plain"] newRoot).toOption.map fun t =>
        (get (getAllFiles (fun _ => false) t) (lit "g")).isSome) = some true := by decide +kernel
  obtain ⟨t, ht, hlisted⟩ := Option.map_eq_some_iff.mp hrun
  have ht := ok_of_toOption ht
  obtain ⟨file, hfile⟩ := Option.isSome_iff_exists.mp hlisted
  obtain ⟨_, hat, hresolve⟩ := views_agree ht (fun _ => false)
  obtain ⟨info, hinfo, _⟩ := (hresolve (lit "g") file (by decide)).mp hfile
  exact ⟨t, ht, (hat [] t rfl).2.2.2.2.2, info, hinfo⟩

/-- **A file resolves with a slash at the end, but is not listed with it.** -/
theorem slash_notListed :
    ∃ t, addFromReader [lit "f,x,1,1,text/plain"] newRoot = .ok t ∧
      get (getAllFiles everyone t) (lit "f/") = none ∧
      ∃ info file, resolvePath (lit "f/") everyone t = .ok info ∧ info.file = some file := by
  have hrun : ((addFromReader [lit "f,x,1,1,text/plain"] newRoot).toOption.map fun t =>
      (get (getAllFiles everyone t) (lit "f/"),
        (resolvePath (lit "f/") everyone t).toOption.map fun info => info.file.isSome)) =
      some (none, some true) := by decide +kernel
  obtain ⟨t, ht, hviews⟩ := Option.map_eq_some_iff.mp hrun
  simp only [Prod.mk.injEq] at hviews
  obtain ⟨info, hinfo, hfile⟩ := Option.map_eq_some_iff.mp hviews.2
  obtain ⟨file, hfile⟩ := Option.isSome_iff_exists.mp hfile
  exact ⟨t, ok_of_toOption ht, hviews.1, info, file, ok_of_toOption hinfo, hfile⟩

end HdfStream.Virtual
