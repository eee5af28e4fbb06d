/-
# Who can resolve a path

`resolvePath` asks for the required roles of every directory on the way.  A directory requires
the roles of its own lines and, of the directories above, those they required when it was made:
roles that are added to a directory later do not reach the ones below.  Taken along the way this
makes no difference, since every role a directory has inherited is listed for a directory above
(`Built.origin`), where it is asked for as well.  So whether a path resolves depends on the
listed roles alone (`access_by_listed_roles`), and not on the order of the lines.
-/
import HdfStream.Virtual.Tree

namespace HdfStream.Virtual

open Java LinkedMap

/-! ## 1. `resolvePath` on components -/

theorem stripSlash_joinPath {names : List JString} (hne : names ≠ []) (hn : ∀ n ∈ names, IsName n) :
    stripSlash (joinPath names) = joinPath names := by
  rw [stripSlash, joinPath_endsWith hne hn]
  rfl

/-- The definition of `resolvePath` without its termination proof. -/
theorem resolvePath_eq (path : JString) (inRole : JString → Bool) (d : VirtualDirectory) :
    resolvePath path inRole d =
      if (stripSlash path).length = 0 then .error (lit "Zero length virtual path")
      else
        match splitPath (stripSlash path) with
        | .error e => .error e
        | .ok (none, remainder) =>
          if (get d.directories remainder).isNone ∧ (get d.files remainder).isNone then
            .error (lit "Virtual path not found: " ++ stripSlash path)
          else if (get d.directories remainder).any (fun sub => !canAccess inRole sub) then
            .error (lit "Virtual path not found: " ++ stripSlash path)
          else
            .ok
              { directory := get d.directories remainder
                file := get d.files remainder
                basename := if (get d.files remainder).isSome then some remainder else none }
        | .ok (some name, remainder) =>
          match get d.directories name with
          | none => .error (lit "Virtual directory not found: " ++ stripSlash path)
          | some sub =>
            if !canAccess inRole sub then
              .error (lit "Virtual directory not found: " ++ stripSlash path)
            else
              match get sub.files remainder with
              | some file =>
                .ok { directory := some sub, file := some file, basename := some remainder }
              | none => resolvePath remainder inRole sub := by
  rw [resolvePath]
  split
  · rfl
  · split
    · rename_i hsplit
      exact hsplit ▸ rfl
    · rename_i hsplit
      exact hsplit ▸ rfl
    · rename_i hsplit
      exact hsplit ▸ rfl

/-- A path of one component is a file or a directory of this directory. -/
theorem resolvePath_name {name : JString} (h : IsName name) (inRole : JString → Bool)
    (d : VirtualDirectory) :
    resolvePath name inRole d =
      if (get d.directories name).isNone ∧ (get d.files name).isNone then
        .error (lit "Virtual path not found: " ++ name)
      else if (get d.directories name).any (fun sub => !canAccess inRole sub) then
        .error (lit "Virtual path not found: " ++ name)
      else
        .ok
          { directory := get d.directories name
            file := get d.files name
            basename := if (get d.files name).isSome then some name else none } := by
  have hstrip : stripSlash name = name :=
    stripSlash_joinPath (List.cons_ne_nil name []) fun n hn => by rwa [List.mem_singleton.mp hn]
  have hlen : ¬ name.length = 0 := fun h0 => h.1 (List.length_eq_zero_iff.mp h0)
  rw [resolvePath_eq, hstrip, if_neg hlen, splitPath_name h]

/-- A longer path goes on in the subdirectory of its first component. -/
theorem resolvePath_cons {name : JString} {names : List JString} (h : IsName name)
    (hne : names ≠ []) (hn : ∀ n ∈ names, IsName n) (inRole : JString → Bool)
    (d : VirtualDirectory) :
    resolvePath (joinPath (name :: names)) inRole d =
      match get d.directories name with
      | none => .error (lit "Virtual directory not found: " ++ joinPath (name :: names))
      | some sub =>
        if !canAccess inRole sub then
          .error (lit "Virtual directory not found: " ++ joinPath (name :: names))
        else
          match get sub.files (joinPath names) with
          | some file =>
            .ok { directory := some sub, file := some file, basename := some (joinPath names) }
          | none => resolvePath (joinPath names) inRole sub := by
  have hall : ∀ n ∈ name :: names, IsName n := fun n hmem => by
    rcases List.mem_cons.mp hmem with rfl | hmem
    · exact h
    · exact hn n hmem
  have hcons := List.cons_ne_nil name names
  have hlen : ¬ (joinPath (name :: names)).length = 0 := fun h0 =>
    joinPath_ne_nil hcons hall (List.length_eq_zero_iff.mp h0)
  rw [resolvePath_eq, stripSlash_joinPath hcons hall, if_neg hlen, splitPath_joinPath h hne hn]

/-! ## 2. When a path resolves -/

/-- The user can access every directory on the way to `names`, and the one at `names`. -/
def WayOpen (inRole : JString → Bool) (d : VirtualDirectory) (names : List JString) : Prop :=
  ∀ ls s, ls ≠ [] → ls <+: names → directoryAt d ls = some s → canAccess inRole s = true

theorem wayOpen_cons {inRole : JString → Bool} {d sub : VirtualDirectory} {name : JString}
    (hsub : get d.directories name = some sub) (names : List JString) :
    WayOpen inRole d (name :: names) ↔ canAccess inRole sub = true ∧ WayOpen inRole sub names := by
  constructor
  · intro h
    refine ⟨h [name] sub (List.cons_ne_nil _ _) (List.cons_prefix_cons.mpr ⟨rfl, List.nil_prefix⟩)
      (directoryAt_cons hsub []), fun ls s hne hprefix hs => ?_⟩
    exact h (name :: ls) s (List.cons_ne_nil _ _) (List.cons_prefix_cons.mpr ⟨rfl, hprefix⟩)
      ((directoryAt_cons hsub ls).trans hs)
  · rintro ⟨hroot, hrest⟩ ls s hne hprefix hs
    cases ls with
    | nil => exact absurd rfl hne
    | cons l ls =>
      obtain ⟨rfl, hls⟩ := List.cons_prefix_cons.mp hprefix
      rw [directoryAt_cons hsub] at hs
      cases ls with
      | nil =>
        cases hs
        exact hroot
      | cons j ls => exact hrest (j :: ls) s (List.cons_ne_nil _ _) hls hs

theorem wayOpen_none {inRole : JString → Bool} {d : VirtualDirectory} {name : JString}
    (hsub : get d.directories name = none) (names : List JString) :
    WayOpen inRole d (name :: names) := by
  intro ls s hne hprefix hs
  cases ls with
  | nil => exact absurd rfl hne
  | cons l ls =>
    obtain ⟨rfl, _⟩ := List.cons_prefix_cons.mp hprefix
    rw [directoryAt_none hsub] at hs
    cases hs

/-- A file and a directory of one directory have different names. -/
theorem DirectoryOk.no_directory {d : VirtualDirectory} (h : DirectoryOk d) {name : JString}
    (hfile : (get d.files name).isSome) : get d.directories name = none :=
  get_eq_none_iff.mpr (h.disjoint name (get_isSome_iff.mp hfile))

/-- **A path of the tree resolves** if and only if the way is open. -/
theorem resolvePath_ok_iff {inRole : JString → Bool} {d : VirtualDirectory}
    (hd : d.All DirectoryOk) {names : List JString} (hne : names ≠ []) (hn : ∀ n ∈ names, IsName n)
    (hnamed : Named d names) :
    (∃ info, resolvePath (joinPath names) inRole d = .ok info) ↔ WayOpen inRole d names := by
  induction names generalizing d with
  | nil => exact absurd rfl hne
  | cons name names ih =>
    have hname := hn name List.mem_cons_self
    have hrest : ∀ n ∈ names, IsName n := fun n hmem => hn n (List.mem_cons_of_mem _ hmem)
    by_cases hnil : names = []
    · subst hnil
      rw [show joinPath [name] = name from rfl, resolvePath_name hname]
      rcases hnamed with ⟨_, hfile⟩ | ⟨sub, hsub, _⟩
      · -- a file here: nothing is asked for
        have hsub := hd.root.no_directory hfile
        have hfound : ¬ ((none : Option VirtualDirectory).isNone ∧ (get d.files name).isNone) :=
          fun h => by
            rw [Option.isNone_iff_eq_none.mp h.2] at hfile
            cases hfile
        rw [hsub, if_neg hfound, Option.any_none, if_neg Bool.false_ne_true]
        exact ⟨fun _ => wayOpen_none hsub [], fun _ => ⟨_, rfl⟩⟩
      · rw [hsub, if_neg (fun h => absurd h.1 (by simp only [Option.isNone_some, not_false_eq_true,
          Bool.false_eq_true])), wayOpen_cons hsub]
        cases haccess : canAccess inRole sub with
        | true =>
          rw [if_neg (by simp only [Option.any_some, haccess, Bool.not_true, not_false_eq_true,
            Bool.false_eq_true])]
          refine ⟨fun _ => ⟨rfl, fun ls s hne hprefix _ => ?_⟩, fun _ => ⟨_, rfl⟩⟩
          exact absurd (List.prefix_nil.mp hprefix) hne
        | false =>
          rw [if_pos (by simp only [Option.any_some, haccess, Bool.not_false])]
          constructor
          · rintro ⟨info, herror⟩
            cases herror
          · rintro ⟨hfalse, _⟩
            cases hfalse
    · rcases hnamed with ⟨hnil', _⟩ | ⟨sub, hsub, hnamed⟩
      · exact absurd hnil' hnil
      rw [resolvePath_cons hname hnil hrest, hsub, wayOpen_cons hsub]
      dsimp only
      have hsubok := hd.child (mem_of_get hsub)
      cases haccess : canAccess inRole sub with
      | false =>
        constructor
        · rintro ⟨info, herror⟩
          cases herror
        · rintro ⟨hfalse, _⟩
          cases hfalse
      | true =>
        rw [if_neg (by decide)]
        cases hfile : get sub.files (joinPath names) with
        | none =>
          dsimp only
          rw [ih hsubok hnil hrest hnamed]
          exact ⟨fun h => ⟨rfl, h⟩, fun h => h.2⟩
        | some file =>
          -- a file of the subdirectory: its path has one component
          refine ⟨fun _ => ⟨rfl, ?_⟩, fun _ => ⟨_, rfl⟩⟩
          have hsome : (get sub.files (joinPath names)).isSome := by rw [hfile]; rfl
          have hjoin := hsubok.root.files_name _ (get_isSome_iff.mp hsome)
          have hone : names = [joinPath names] :=
            joinPath_inj hnil (List.cons_ne_nil _ _) hrest
              (fun n hmem => by rwa [List.mem_singleton.mp hmem]) rfl
          rw [hone]
          exact wayOpen_none (hsubok.root.no_directory hsome) []

/-! ## 3. The listed roles -/

/-- `path` is the path of a file or a directory of the tree. -/
def Names (t : VirtualDirectory) (path : JString) : Prop :=
  ∃ names, names ≠ [] ∧ (∀ n ∈ names, IsName n) ∧ path = joinPath names ∧ Named t names

/-- `line` is a directory line for `dir` that lists `role`. -/
def ListsRole (line dir role : JString) : Prop :=
  ∃ columns, parseLine line = .ok (dir, columns) ∧ columns.isDirectory = true ∧
    role ∈ columns.requiredRoles

/-- The user has every role listed for a directory on `path`. -/
def HasListedRoles (inRole : JString → Bool) (lines : List JString) (path : JString) : Prop :=
  ∀ line ∈ lines, ∀ dir role, ListsRole line dir role → OnPath dir path → inRole role = true

theorem hasListedRoles_perm {inRole : JString → Bool} {lines lines' : List JString}
    (h : lines.Perm lines') (path : JString) :
    HasListedRoles inRole lines path ↔ HasListedRoles inRole lines' path :=
  forall_congr' fun line => by rw [h.mem_iff]

theorem line_of_entry {lines : List JString} {es : List (List JString × Line)}
    (hes : lines.map parseLine = es.map fun e => .ok (joinPath e.1, e.2))
    {e : List JString × Line} (he : e ∈ es) :
    ∃ line ∈ lines, parseLine line = .ok (joinPath e.1, e.2) := by
  have hmem : (Except.ok (joinPath e.1, e.2) : Except JString (JString × Line)) ∈
      lines.map parseLine := by
    rw [hes]
    exact List.mem_map.mpr ⟨e, he, rfl⟩
  exact List.mem_map.mp hmem

theorem entry_of_line {lines : List JString} {es : List (List JString × Line)}
    (hes : lines.map parseLine = es.map fun e => .ok (joinPath e.1, e.2))
    {line dir : JString} {columns : Line} (hline : line ∈ lines)
    (hparse : parseLine line = .ok (dir, columns)) :
    ∃ e ∈ es, dir = joinPath e.1 ∧ columns = e.2 := by
  have hmem : parseLine line ∈ lines.map parseLine := List.mem_map.mpr ⟨line, hline, rfl⟩
  rw [hes, hparse] at hmem
  obtain ⟨e, he, heq⟩ := List.mem_map.mp hmem
  cases heq
  exact ⟨e, he, rfl, rfl⟩

/-- A path of the tree is on the way to the path of a line. -/
theorem named_iff {lines : List JString} {t : VirtualDirectory}
    {es : List (List JString × Line)} (hes : lines.map parseLine = es.map fun e =>
      .ok (joinPath e.1, e.2))
    (hbuilt : Built es t) {names : List JString} (hne : names ≠ []) (hn : ∀ n ∈ names, IsName n) :
    Named t names ↔
      ∃ line ∈ lines, ∃ dir columns, parseLine line = .ok (dir, columns) ∧
        OnPath (joinPath names) dir := by
  rw [hbuilt.named hne]
  constructor
  · rintro ⟨e, he, hprefix⟩
    obtain ⟨hene, hen⟩ := hbuilt.names e he
    obtain ⟨line, hline, hparse⟩ := line_of_entry hes he
    exact ⟨line, hline, _, e.2, hparse, (onPath_joinPath hene hne hen hn).mpr hprefix⟩
  · rintro ⟨line, hline, dir, columns, hparse, hpath⟩
    obtain ⟨e, he, rfl, _⟩ := entry_of_line hes hline hparse
    obtain ⟨hene, hen⟩ := hbuilt.names e he
    exact ⟨e, he, (onPath_joinPath hene hne hen hn).mp hpath⟩

/-- The way to a path of the tree is open if the user has the listed roles. -/
theorem wayOpen_iff {lines : List JString} {t : VirtualDirectory}
    {es : List (List JString × Line)} (hes : lines.map parseLine = es.map fun e =>
      .ok (joinPath e.1, e.2))
    (hbuilt : Built es t) (inRole : JString → Bool) {names : List JString} (hne : names ≠ [])
    (hn : ∀ n ∈ names, IsName n) :
    WayOpen inRole t names ↔ HasListedRoles inRole lines (joinPath names) := by
  constructor
  · intro hopen line hline dir role ⟨columns, hparse, hdir, hrole⟩ hpath
    obtain ⟨e, he, rfl, rfl⟩ := entry_of_line hes hline hparse
    obtain ⟨hene, hen⟩ := hbuilt.names e he
    obtain ⟨s, hs, hroles⟩ := hbuilt.made he hdir
    have haccess := hopen e.1 s hene ((onPath_joinPath hne hene hn hen).mp hpath) hs
    exact List.all_eq_true.mp haccess role (hroles role hrole)
  · intro hlisted ls s hls hprefix hs
    refine List.all_eq_true.mpr fun role hrole => ?_
    obtain ⟨e, he, hdir, hels, hline⟩ := hbuilt.origin hs hrole
    obtain ⟨hene, hen⟩ := hbuilt.names e he
    obtain ⟨line, hmem, hparse⟩ := line_of_entry hes he
    exact hlisted line hmem (joinPath e.1) role ⟨e.2, hparse, hdir, hline⟩
      ((onPath_joinPath hne hene hn hen).mpr (hels.trans hprefix))

/-- **Access is by the listed roles.**  A path of the tree resolves if and only if the user has
every role listed for a directory on it, and with the lines in another order it resolves for the
same users. -/
theorem access_by_listed_roles {lines : List JString} {t : VirtualDirectory}
    (h : addFromReader lines newRoot = .ok t) (inRole : JString → Bool) {path : JString}
    (hpath : Names t path) :
    ((∃ info, resolvePath path inRole t = .ok info) ↔ HasListedRoles inRole lines path) ∧
      ∀ lines' t', lines.Perm lines' → addFromReader lines' newRoot = .ok t' →
        ((∃ info, resolvePath path inRole t' = .ok info) ↔
          ∃ info, resolvePath path inRole t = .ok info) := by
  obtain ⟨names, hne, hn, rfl, hnamed⟩ := hpath
  obtain ⟨es, hes, hbuilt⟩ := addFromReader_built h
  have hiff : (∃ info, resolvePath (joinPath names) inRole t = .ok info) ↔
      HasListedRoles inRole lines (joinPath names) :=
    (resolvePath_ok_iff hbuilt.ok hne hn hnamed).trans (wayOpen_iff hes hbuilt inRole hne hn)
  refine ⟨hiff, fun lines' t' hperm h' => ?_⟩
  obtain ⟨es', hes', hbuilt'⟩ := addFromReader_built h'
  have hnamed' : Named t' names := by
    obtain ⟨line, hline, rest⟩ := (named_iff hes hbuilt hne hn).mp hnamed
    exact (named_iff hes' hbuilt' hne hn).mpr ⟨line, hperm.mem_iff.mp hline, rest⟩
  exact (resolvePath_ok_iff hbuilt'.ok hne hn hnamed').trans
    ((wayOpen_iff hes' hbuilt' inRole hne hn).trans
      ((hasListedRoles_perm hperm _).symm.trans hiff.symm))

/-- A role that is listed for a directory after a file below it: without the role the file is
not found. -/
theorem access_by_listed_roles_lateRole :
    ∃ t, addFromReader [lit "a/b/f,x,1,1,text/plain", lit "a,,0,0,directory,r"] newRoot = .ok t ∧
      ¬ ∃ info, resolvePath (lit "a/b/f") (fun _ => false) t = .ok info := by
  have hrun : ((addFromReader [lit "a/b/f,x,1,1,text/plain", lit "a,,0,0,directory,r"]
      newRoot).toOption.map fun t => decide (Named t [lit "a", lit "b", lit "f"])) = some true := by
    decide +kernel
  have hparse : ((parseLine (lit "a,,0,0,directory,r")).toOption.map fun p =>
      (p.1, p.2.isDirectory, p.2.requiredRoles)) = some (lit "a", true, [lit "r"]) := by
    decide +kernel
  obtain ⟨t, ht, hnamed⟩ := Option.map_eq_some_iff.mp hrun
  obtain ⟨⟨dir, columns⟩, hp, hcolumns⟩ := Option.map_eq_some_iff.mp hparse
  simp only [Prod.mk.injEq] at hcolumns
  obtain ⟨rfl, hdir, hroles⟩ := hcolumns
  have ht := ok_of_toOption ht
  refine ⟨t, ht, fun hresolved => ?_⟩
  have hlisted := (access_by_listed_roles ht (fun _ => false)
    ⟨[lit "a", lit "b", lit "f"], by decide, by unfold IsName; decide, by decide,
      of_decide_eq_true hnamed⟩).1.mp hresolved
  refine Bool.false_ne_true (hlisted (lit "a,,0,0,directory,r") (by decide) (lit "a") (lit "r")
    ⟨columns, ok_of_toOption hp, hdir, ?_⟩ (.inr ⟨lit "b/f", by decide⟩))
  rw [hroles]
  decide

end HdfStream.Virtual
