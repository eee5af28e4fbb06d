/-
# The tree a configuration describes

A configuration is a table of files and directories, written as one line of text for each entry
(`Entry`, `Row`).  If the table is consistent, the lines may come in any order: the reader accepts
them and builds the tree the table describes (`Describes`), with three exceptions, which
`addFromReader_describes_iff` shows to be the only ones.

* A line whose columns from the media type on are empty: `split` drops them, and too few are left.
* A directory line with a role column that is there but blank: it adds the role with the empty name.
* A directory line after the one that has the metadata path of its directory: it is refused, even if
  its own metadata path is blank.
-/
import HdfStream.Virtual.Growth
import HdfStream.Virtual.Views

namespace HdfStream.Virtual

open Java LinkedMap Outcome

/-! ## 1. The table -/

/-- A file or a directory of the configuration; the time is in seconds. -/
structure Entry where
  path : List JString
  realPath : JString
  size : Int
  time : Int
  mediaType : JString
  roles : List JString

/-- A directory, not a file. -/
def Entry.isDirectory (e : Entry) : Bool := e.mediaType == lit "directory"

/-- An entry by itself: names without slashes and commas, and numbers in range. -/
structure Entry.Ok (e : Entry) : Prop where
  path_ne : e.path ≠ []
  names : ∀ n ∈ e.path, IsName n ∧ ',' ∉ n
  size : -2 ^ 63 ≤ e.size ∧ e.size < 2 ^ 63
  time : -2 ^ 63 ≤ e.time * 1000 ∧ e.time * 1000 < 2 ^ 63
  roles : ∀ role ∈ e.roles, role ≠ [] ∧ ';' ∉ role

/-- Two entries that fit together: nothing is at or below the path of a file, and of two lines for a
directory at most one has a metadata path. -/
structure Compatible (e e' : Entry) : Prop where
  left : e.isDirectory = false → ¬ e.path <+: e'.path
  right : e'.isDirectory = false → ¬ e'.path <+: e.path
  metadata : e.isDirectory = true → e'.isDirectory = true → e.path = e'.path →
    e.realPath = [] ∨ e'.realPath = []

/-- A consistent table.  The order of the entries does not matter. -/
structure Consistent (es : List Entry) : Prop where
  ok : ∀ e ∈ es, e.Ok
  compatible : es.Pairwise Compatible

/-! ## 2. The lines -/

/-- A line of the configuration, with the entry it writes.  After the media type there may be the
roles, and one more column. -/
structure Row where
  entry : Entry
  virtualFilename : JString
  realFilename : JString
  size : JString
  time : JString
  mediaType : JString
  rest : List JString

def Row.columns (r : Row) : List JString :=
  [r.virtualFilename, r.realFilename, r.size, r.time] ++ r.mediaType :: r.rest

/-- The text of the line. -/
def Row.text (r : Row) : JString := [','].intercalate r.columns

/-- The columns write the entry, with any blanks around them. -/
structure Row.Ok (r : Row) : Prop where
  free : ∀ c ∈ r.columns, ',' ∉ c
  path : trim r.virtualFilename = joinPath r.entry.path
  realPath : trim r.realFilename = r.entry.realPath
  size : number (trim r.size) = some r.entry.size
  time : number (trim r.time) = some r.entry.time
  mediaType : trim r.mediaType = r.entry.mediaType
  few : r.rest.length ≤ 2
  roles : trim (r.rest.headD []) = [';'].intercalate r.entry.roles

/-- Some column from the media type on is not empty. -/
def Row.Ends (r : Row) : Prop := ∃ c ∈ r.mediaType :: r.rest, c ≠ []

/-- The role column is there, and blank. -/
def Row.BlankRoles (r : Row) : Prop := (∃ c ∈ r.rest, c ≠ []) ∧ trim (r.rest.headD []) = []

/-- What `parseLine` makes of the columns but the first. -/
def Row.line (r : Row) : Line where
  realFilename := trim r.realFilename
  length := BitVec.ofInt 64 r.entry.size
  lastModified := BitVec.ofInt 64 r.entry.time * 1000
  mediaType := trim r.mediaType
  requiredRoles := if r.rest.all List.isEmpty then [] else addRoles
    (split ';' (trim (r.rest.headD []))) []

theorem valueOfLong_of_number {s : JString} {n : Int} (h : number s = some n)
    (hn : -2 ^ 63 ≤ n ∧ n < 2 ^ 63) : valueOfLong s = .ok (BitVec.ofInt 64 n) := by
  rw [valueOfLong, h]
  exact if_pos hn

theorem ne_nil_of_number {c : JString} {n : Int} (h : number (trim c) = some n) : c ≠ [] := by
  rintro rfl
  cases h

theorem all_isEmpty_iff {cs : List JString} : cs.all List.isEmpty = true ↔ ∀ c ∈ cs, c = [] := by
  simp only [List.all_eq_true, List.isEmpty_iff]

/-- The columns of a line as `split` finds them. -/
theorem split_text {r : Row} (h : r.Ok) :
    split ',' r.text =
      [r.virtualFilename, r.realFilename, r.size, r.time] ++
        (r.mediaType :: r.rest).rdropWhile List.isEmpty := by
  have hsep : Separated ',' r.text r.columns :=
    ⟨List.append_ne_nil_of_left_ne_nil (List.cons_ne_nil _ _) _, h.free, rfl⟩
  have htime : ¬ r.time.isEmpty = true := fun hempty =>
    ne_nil_of_number h.time (List.isEmpty_iff.mp hempty)
  rw [split_of_separated hsep
      (by simp only [Row.columns, List.length_append, List.length_cons]; omega),
    Row.columns, rdropWhile_append]
  split
  · rename_i hnil
    rw [hnil, List.append_nil]
    exact List.rdropWhile_concat_neg List.isEmpty [r.virtualFilename, r.realFilename, r.size]
      r.time htime
  · rfl

/-- **What `parseLine` makes of a line**: nothing, if the columns from the media type on are
empty. -/
theorem parseLine_text {r : Row} (h : r.Ok) (he : r.entry.Ok) :
    (r.Ends → parseLine r.text = .ok (joinPath r.entry.path, r.line)) ∧
      (¬ r.Ends → ∃ e, parseLine r.text = .error e) := by
  have hsplit := split_text h
  constructor
  · intro hends
    have hkept : (r.mediaType :: r.rest).rdropWhile List.isEmpty =
        r.mediaType :: r.rest.rdropWhile List.isEmpty := by
      rw [← List.singleton_append, rdropWhile_append]
      split
      · rename_i hnil
        have hrest := List.rdropWhile_eq_nil_iff.mp hnil
        obtain ⟨c, hc, hne⟩ := hends
        have hmedia : r.mediaType ≠ [] := by
          rcases List.mem_cons.mp hc with rfl | hc
          · exact hne
          · exact absurd (List.isEmpty_iff.mp (hrest c hc)) hne
        rw [hnil, List.rdropWhile_singleton, if_neg (by rwa [List.isEmpty_iff])]
      · rfl
    rw [hkept] at hsplit
    have hlen : (r.rest.rdropWhile List.isEmpty).length ≤ 2 :=
      ((List.rdropWhile_prefix _ _).length_le).trans h.few
    have hroles : (if r.rest.rdropWhile List.isEmpty = [] then []
        else addRoles (split ';' (trim ((r.rest.rdropWhile List.isEmpty).headD []))) []) =
        r.line.requiredRoles := by
      have hiff : r.rest.rdropWhile List.isEmpty = [] ↔ r.rest.all List.isEmpty = true := by
        rw [List.rdropWhile_eq_nil_iff, List.all_eq_true]
      by_cases hnil : r.rest.rdropWhile List.isEmpty = []
      · rw [if_pos hnil, Row.line, if_pos (hiff.mp hnil)]
      · rw [if_neg hnil, Row.line, if_neg (mt hiff.mpr hnil)]
        obtain ⟨tail, htail⟩ := List.rdropWhile_prefix List.isEmpty r.rest
        obtain ⟨c, cs, hcs⟩ := List.exists_cons_of_ne_nil hnil
        rw [hcs] at htail ⊢
        rw [← htail]
        rfl
    have hsize := valueOfLong_of_number h.size he.size
    have htime := valueOfLong_of_number h.time
      ⟨by have := he.time.1; omega, by have := he.time.2; omega⟩
    rw [← h.path, parseLine, hsplit]
    generalize r.rest.rdropWhile List.isEmpty = kept at hlen hroles
    rw [if_neg (by simp only [List.length_append, List.length_cons, List.length_nil]; omega)]
    simp only [List.cons_append, List.nil_append, List.getD_cons_succ, List.getD_cons_zero,
      hsize, htime,
      bind, Except.bind, pure, Except.pure]
    refine congrArg (fun line => Except.ok (trim r.virtualFilename, line)) ?_
    rw [Row.line, Line.mk.injEq]
    refine ⟨rfl, rfl, rfl, rfl, Eq.trans ?_ hroles⟩
    cases kept with
    | nil => rfl
    | cons c cs =>
      rw [if_pos (by simp only [List.length_cons]; omega), if_neg (List.cons_ne_nil _ _)]
      rfl
  · intro hends
    have hnil : (r.mediaType :: r.rest).rdropWhile List.isEmpty = [] := by
      refine List.rdropWhile_eq_nil_iff.mpr fun c hc => ?_
      by_contra hne
      exact hends ⟨c, hc, fun hc => hne (List.isEmpty_iff.mpr hc)⟩
    rw [hnil, List.append_nil] at hsplit
    refine ⟨lit "Unable to interpret line in csv config file", ?_⟩
    rw [parseLine, hsplit]
    exact if_pos (.inl (Nat.lt_succ_self 4))

theorem Row.isDirectory_line {r : Row} (h : r.Ok) : r.line.isDirectory = r.entry.isDirectory :=
  congrArg (· == lit "directory") h.mediaType

/-- A list of names that writes a blank column is empty. -/
theorem roles_eq_nil {roles : List JString} (hne : ∀ role ∈ roles, role ≠ [])
    (h : [';'].intercalate roles = []) : roles = [] := by
  rcases roles with _ | ⟨role, _ | ⟨role', roles⟩⟩
  · rfl
  · rw [List.intercalate_singleton] at h
    exact absurd h (hne role List.mem_cons_self)
  · rw [List.intercalate_cons_cons] at h
    have h := (List.append_eq_nil_iff.mp (List.append_eq_nil_iff.mp h).1).1
    exact absurd h (hne role List.mem_cons_self)

/-- **The roles of a line** are those of the entry, unless the role column is there and blank. -/
theorem Row.mem_roles {r : Row} (h : r.Ok) (he : r.entry.Ok) (hblank : ¬ r.BlankRoles)
    (role : JString) : role ∈ r.line.requiredRoles ↔ role ∈ r.entry.roles := by
  have hnil := roles_eq_nil fun role hrole => (he.roles role hrole).1
  rw [← h.roles] at hnil
  by_cases hall : r.rest.all List.isEmpty = true
  · have hhead : r.rest.headD [] = [] := by
      cases hrest : r.rest with
      | nil => rfl
      | cons c cs => exact all_isEmpty_iff.mp hall c (by rw [hrest]; exact List.mem_cons_self)
    rw [Row.line, if_pos hall, hnil (by rw [hhead]; rfl)]
  · have hsome : ∃ c ∈ r.rest, c ≠ [] := by
      by_contra hnone
      refine hall (all_isEmpty_iff.mpr fun c hc => ?_)
      by_contra hne
      exact hnone ⟨c, hc, hne⟩
    have hne : r.entry.roles ≠ [] := fun hroles => by
      refine hblank ⟨hsome, ?_⟩
      rw [h.roles, hroles]
      rfl
    have hsep : Separated ';' (trim (r.rest.headD [])) r.entry.roles :=
      ⟨hne, fun role hrole => (he.roles role hrole).2, h.roles⟩
    rw [Row.line, if_neg hall, split_of_nonempty hsep fun role hrole => (he.roles role hrole).1]
    rw [mem_addRoles, or_iff_left List.not_mem_nil]

/-- A blank role column: the empty string is a role. -/
theorem Row.BlankRoles.mem_roles {r : Row} (h : r.BlankRoles) : [] ∈ r.line.requiredRoles := by
  obtain ⟨⟨c, hc, hne⟩, hblank⟩ := h
  have hall : ¬ r.rest.all List.isEmpty = true := fun hall => hne (all_isEmpty_iff.mp hall c hc)
  rw [Row.line, if_neg hall, hblank]
  exact List.mem_singleton.mpr rfl

/-! ## 3. What is accepted -/

/-- The path and the columns of a line. -/
def Row.parsed (r : Row) : List JString × Line := (r.entry.path, r.line)

/-- **The lines of a tree.**  If the reader accepts them, it adds the entries one after the other,
and no line ends too early. -/
theorem built_of_accepted {rows : List Row} (hrows : ∀ r ∈ rows, r.Ok)
    (hes : ∀ r ∈ rows, r.entry.Ok)
    {t : VirtualDirectory} (h : addFromReader (rows.map Row.text) newRoot = .ok t) :
    (∀ r ∈ rows, r.Ends) ∧ Built (rows.map Row.parsed) t := by
  obtain ⟨es, hparse, hbuilt⟩ := addFromReader_built h
  have hnames := hbuilt.names
  suffices hlines : (∀ r ∈ rows, r.Ends) ∧ rows.map Row.parsed = es by
    exact ⟨hlines.1, hlines.2 ▸ hbuilt⟩
  clear hbuilt h
  induction rows generalizing es with
  | nil =>
    cases es with
    | nil => exact ⟨fun r hr => absurd hr List.not_mem_nil, rfl⟩
    | cons e es => cases hparse
  | cons r rows ih =>
    cases es with
    | nil => cases hparse
    | cons e es =>
      rw [List.map_cons, List.map_cons, List.map_cons, List.cons.injEq] at hparse
      obtain ⟨hline, hparse⟩ := hparse
      obtain ⟨hends, heq⟩ := ih (fun r hr => hrows r (List.mem_cons_of_mem _ hr))
        (fun r hr => hes r (List.mem_cons_of_mem _ hr)) es hparse
        (fun e he => hnames e (List.mem_cons_of_mem _ he))
      have hok := hes r List.mem_cons_self
      obtain ⟨hread, hrefused⟩ := parseLine_text (hrows r List.mem_cons_self) hok
      have hr : r.Ends := by
        by_contra hnot
        obtain ⟨error, herror⟩ := hrefused hnot
        cases herror.symm.trans hline
      obtain ⟨hpath, hcolumns⟩ := Prod.mk.inj (Except.ok.inj ((hread hr).symm.trans hline))
      obtain ⟨hene, hen⟩ := hnames e List.mem_cons_self
      have hsame := joinPath_inj hok.path_ne hene (fun n hn => (hok.names n hn).1) hen hpath
      refine ⟨fun r' hr' => ?_, ?_⟩
      · rcases List.mem_cons.mp hr' with rfl | hr'
        · exact hr
        · exact hends r' hr'
      · rw [List.map_cons, heq]
        exact congrArg (· :: es) (Prod.ext hsame hcolumns)

/-- The exceptions: the lines that the reader takes as the table means them. -/
structure Readable (rows : List Row) : Prop where
  ends : ∀ r ∈ rows, r.Ends
  roles : ∀ r ∈ rows, r.entry.isDirectory = true → ¬ r.BlankRoles
  metadata : rows.Pairwise fun r r' => r.entry.isDirectory = true → r'.entry.isDirectory = true →
    r.entry.path = r'.entry.path → r.entry.realPath = []

/-- An entry makes the directory `ls`: it is one at the path, or the entry is below it. -/
def Entry.Makes (e : Entry) (ls : List JString) : Prop :=
  ls <+: e.path ∧ (e.isDirectory = true ∨ ls ≠ e.path)

theorem Row.makes_iff {r : Row} (h : r.Ok) (ls : List JString) :
    Virtual.Makes r.parsed.1 r.parsed.2 ls ↔ r.entry.Makes ls := by
  rw [Virtual.Makes, Entry.Makes, Row.parsed, Row.isDirectory_line h]

theorem exists_parsed {rows : List Row} {P : List JString × Line → Prop} :
    (∃ e ∈ rows.map Row.parsed, P e) ↔ ∃ r ∈ rows, P r.parsed := by
  simp only [List.mem_map, exists_exists_and_eq_and]

/-- **A consistent table is accepted**, in any order, if no line ends too early and no directory
line comes after the one with the metadata path. -/
theorem addFromReader_accepts {rows : List Row} (hrows : ∀ r ∈ rows, r.Ok)
    (hes : Consistent (rows.map Row.entry)) (hends : ∀ r ∈ rows, r.Ends)
    (hmetadata : rows.Pairwise fun r r' => r.entry.isDirectory = true → r'.entry.isDirectory
      = true →
      r.entry.path = r'.entry.path → r.entry.realPath = []) :
    ∃ t, addFromReader (rows.map Row.text) newRoot = .ok t := by
  induction rows using List.reverseRecOn with
  | nil => exact ⟨newRoot, rfl⟩
  | append_singleton rows r ih =>
    have hleft : ∀ r' ∈ rows, r' ∈ rows ++ [r] := fun r' hr' => List.mem_append_left _ hr'
    have hlast : r ∈ rows ++ [r] := List.mem_append_right _ (List.mem_singleton.mpr rfl)
    have hok : ∀ r' ∈ rows ++ [r], r'.entry.Ok :=
      fun r' hr' => hes.ok _ (List.mem_map.mpr ⟨r', hr', rfl⟩)
    obtain ⟨hpairs, _, hbefore⟩ := List.pairwise_append.mp hmetadata
    have hcompat := hes.compatible
    rw [List.map_append, List.map_singleton] at hcompat
    obtain ⟨hcompat, _, hfit⟩ := List.pairwise_append.mp hcompat
    have hfit : ∀ r' ∈ rows, Compatible r'.entry r.entry := fun r' hr' =>
      hfit _ (List.mem_map.mpr ⟨r', hr', rfl⟩) _ (List.mem_singleton.mpr rfl)
    obtain ⟨t, ht⟩ := ih (fun r' hr' => hrows r' (hleft r' hr'))
      ⟨fun e he => by
        obtain ⟨r', hr', rfl⟩ := List.mem_map.mp he
        exact hok r' (hleft r' hr'), hcompat⟩
      (fun r' hr' => hends r' (hleft r' hr')) hpairs
    obtain ⟨_, hbuilt⟩ := built_of_accepted (fun r' hr' => hrows r' (hleft r' hr'))
      (fun r' hr' => hok r' (hleft r' hr')) ht
    have hr := hrows r hlast
    have hkind := Row.isDirectory_line hr
    have hnames : ∀ n ∈ r.entry.path, IsName n := fun n hn => ((hok r hlast).names n hn).1
    obtain ⟨t', ht'⟩ := @addFile_accepts r.line t r.entry.path (hok r hlast).path_ne hnames
      (fun ls hls => by
        -- the path of a file would be on the way to the path of the line
        refine Option.eq_none_iff_forall_not_mem.mpr fun file hfile => ?_
        obtain ⟨e, he, hpath, hfile, _⟩ := hbuilt.fileAt hfile
        obtain ⟨r', hr', rfl⟩ := List.mem_map.mp he
        have hnot := (Row.isDirectory_line (hrows r' (hleft r' hr'))).symm.trans hfile
        subst hpath
        exact (hfit r' hr').left hnot hls)
      (fun hdir s hs => by
        by_contra hne
        have hreal : realPathAt t r.entry.path ≠ none := by
          rw [realPathAt, hs]
          exact hne
        obtain ⟨e, he, hdir', hpath, hset⟩ := (hbuilt.realPathAt _).mp hreal
        obtain ⟨r', hr', rfl⟩ := List.mem_map.mp he
        have hdir' := (Row.isDirectory_line (hrows r' (hleft r' hr'))).symm.trans hdir'
        have hnil := hbefore r' hr' r (List.mem_singleton.mpr rfl) hdir' (hkind.symm.trans hdir)
          hpath
        refine hset ?_
        rw [← (hrows r' (hleft r' hr')).realPath] at hnil
        exact (trim_trim _).trans hnil)
      (fun hfile => by
        refine Option.not_isSome_iff_eq_none.mp fun hsome => ?_
        rcases (hbuilt.directoryAt_isSome _).mp hsome with hnil | ⟨e, he, hmakes, _⟩
        · exact (hok r hlast).path_ne hnil
        · obtain ⟨r', hr', rfl⟩ := List.mem_map.mp he
          exact (hfit r' hr').right (hkind.symm.trans hfile) hmakes)
    refine ⟨t', ?_⟩
    rw [List.map_append, List.map_singleton]
    exact addFromReader_snoc.mpr ⟨t, _, r.line, ht, (parseLine_text hr (hok r hlast)).1
      (hends r hlast), ht'⟩

/-! ## 4. What a path finds -/

/-- The path resolves to the file. -/
def FindsFile (t : VirtualDirectory) (path : JString) (file : VirtualFile) : Prop :=
  ∃ info, resolvePath path everyone t = .ok info ∧ info.file = some file

/-- The path resolves to the directory. -/
def FindsDirectory (t : VirtualDirectory) (path : JString) (sub : VirtualDirectory) : Prop :=
  ∃ info, resolvePath path everyone t = .ok info ∧ info.file = none ∧ info.directory = some sub

theorem canAccess_everyone_not (d : VirtualDirectory) : (!canAccess everyone d) = false := by
  rw [canAccess_everyone]
  rfl

/-- **What a path resolves to**: the file with the path or, if there is none, the directory. -/
theorem resolvePath_found {d : VirtualDirectory} (hd : d.All DirectoryOk) {path : JString}
    {info : VirtualPathInfo} (h : resolvePath path everyone d = .ok info) :
    ∃ names, names ≠ [] ∧ (∀ n ∈ names, IsName n) ∧ stripSlash path = joinPath names ∧
      info.file = fileAt d names ∧
      (info.file = none → info.directory = directoryAt d names ∧ info.directory.isSome) := by
  induction hlen : path.length using Nat.strong_induction_on generalizing path d with
  | _ len ih =>
    subst hlen
    rw [resolvePath_eq] at h
    split at h
    · cases h
    split at h
    · cases h
    · rename_i name hsplit
      obtain ⟨hpath, hname⟩ := splitPath_ok hsplit
      split at h
      · cases h
      rename_i hfound
      split at h
      · cases h
      cases h
      refine ⟨[name], List.cons_ne_nil _ _, fun n hn => List.mem_singleton.mp hn ▸ hname,
        hpath, rfl,
        fun hfile => ?_⟩
      cases hsub : get d.directories name with
      | none =>
        refine absurd ⟨?_, ?_⟩ hfound
        · rw [hsub]
          rfl
        · rw [show get d.files name = none from hfile]
          rfl
      | some sub => exact ⟨(directoryAt_cons hsub []).symm, rfl⟩
    · rename_i name remainder hsplit
      obtain ⟨hpath, hname, hne⟩ := splitPath_ok hsplit
      split at h
      · cases h
      rename_i sub hsub
      rw [canAccess_everyone_not, if_neg Bool.false_ne_true] at h
      have hsubok := hd.child (mem_of_get hsub)
      split at h
      · -- a file of the subdirectory
        rename_i file hfile
        cases h
        have hrem : IsName remainder :=
          hsubok.root.files_name _ (get_isSome_iff.mp (by rw [hfile]; rfl))
        refine ⟨[name, remainder], List.cons_ne_nil _ _, fun n hn => ?_, hpath, ?_, fun hnone => ?_⟩
        · rcases List.mem_cons.mp hn with rfl | hn
          · exact hname
          · exact List.mem_singleton.mp hn ▸ hrem
        · rw [fileAt_cons hsub (List.cons_ne_nil _ _)]
          exact hfile.symm
        · cases hnone
      · have hslash : endsWith remainder '/' = false := by
          -- `splitPath` refuses a path that ends with a slash
          cases hend : endsWith remainder '/' with
          | false => rfl
          | true =>
            have hend' : endsWith (stripSlash path) '/' = true := by
              rw [hpath, endsWith_append_cons _ hne, hend]
            rw [splitPath, if_pos hend'] at hsplit
            split at hsplit
            · cases hsplit
            split at hsplit <;> cases hsplit
        have hlt := Nat.lt_of_lt_of_le (splitPath_length_lt hsplit) (stripSlash_length_le path)
        obtain ⟨names, hnames, hn, hjoin, hfile, hdir⟩ := ih _ hlt hsubok h rfl
        have hstrip : stripSlash remainder = remainder := by
          rw [stripSlash, hslash]
          rfl
        refine ⟨name :: names, List.cons_ne_nil _ _, fun n hmem => ?_, ?_, ?_, fun hnone => ?_⟩
        · rcases List.mem_cons.mp hmem with rfl | hmem
          · exact hname
          · exact hn n hmem
        · rw [hpath, joinPath_cons hnames, ← hjoin, hstrip]
        · rw [hfile, fileAt_cons hsub hnames]
        · rw [directoryAt_cons hsub]
          exact hdir hnone

/-- A slash at the end makes no difference. -/
theorem resolvePath_strip {d : VirtualDirectory} {path : JString} {names : List JString}
    (hne : names ≠ []) (hn : ∀ n ∈ names, IsName n) (h : stripSlash path = joinPath names)
    (inRole : JString → Bool) : resolvePath path inRole d = resolvePath (joinPath names)
      inRole d := by
  rw [resolvePath_eq path, resolvePath_eq (joinPath names), h, stripSlash_joinPath hne hn]

theorem named_of_fileAt {d : VirtualDirectory} {names : List JString}
    (h : (fileAt d names).isSome) :
    Named d names := by
  induction names generalizing d with
  | nil => exact trivial
  | cons name names ih =>
    rw [Named]
    by_cases hnil : names = []
    · subst hnil
      exact .inl ⟨rfl, h⟩
    · cases hsub : get d.directories name with
      | none =>
        rw [fileAt_none hsub hnil] at h
        cases h
      | some sub =>
        rw [fileAt_cons hsub hnil] at h
        exact .inr ⟨sub, rfl, ih h⟩

theorem named_of_directoryAt {d : VirtualDirectory} {names : List JString}
    (h : (directoryAt d names).isSome) : Named d names := by
  induction names generalizing d with
  | nil => exact trivial
  | cons name names ih =>
    rw [Named]
    cases hsub : get d.directories name with
    | none =>
      rw [directoryAt_none hsub] at h
      cases h
    | some sub =>
      rw [directoryAt_cons hsub] at h
      exact .inr ⟨sub, rfl, ih h⟩

/-- A path that is named resolves, for the user with every role. -/
theorem resolvePath_named {d : VirtualDirectory} (hd : d.All DirectoryOk) {names : List JString}
    (hne : names ≠ []) (hn : ∀ n ∈ names, IsName n) (hnamed : Named d names) :
    ∃ info, resolvePath (joinPath names) everyone d = .ok info ∧ info.file = fileAt d names ∧
      (info.file = none → info.directory = directoryAt d names ∧ info.directory.isSome) := by
  obtain ⟨info, hinfo⟩ := (resolvePath_ok_iff hd hne hn hnamed).mpr
    fun ls s _ _ _ => canAccess_everyone s
  obtain ⟨names', hne', hn', hpath, hfound⟩ := resolvePath_found hd hinfo
  rw [stripSlash_joinPath hne hn] at hpath
  have hsame := joinPath_inj hne hne' hn hn' hpath
  subst hsame
  exact ⟨info, hinfo, hfound⟩

theorem findsFile_iff {d : VirtualDirectory} (hd : d.All DirectoryOk) {path : JString}
    {file : VirtualFile} :
    FindsFile d path file ↔ ∃ names, names ≠ [] ∧ (∀ n ∈ names, IsName n) ∧
      stripSlash path = joinPath names ∧ fileAt d names = some file := by
  constructor
  · rintro ⟨info, hinfo, hfile⟩
    obtain ⟨names, hne, hn, hpath, hfound, _⟩ := resolvePath_found hd hinfo
    exact ⟨names, hne, hn, hpath, hfound.symm.trans hfile⟩
  · rintro ⟨names, hne, hn, hpath, hfile⟩
    obtain ⟨info, hinfo, hfound, _⟩ := resolvePath_named hd hne hn
      (named_of_fileAt (by rw [hfile]; rfl))
    exact ⟨info, (resolvePath_strip hne hn hpath everyone).trans hinfo, hfound.trans hfile⟩

theorem findsDirectory_iff {d : VirtualDirectory} (hd : d.All DirectoryOk) {path : JString}
    {sub : VirtualDirectory} :
    FindsDirectory d path sub ↔ ∃ names, names ≠ [] ∧ (∀ n ∈ names, IsName n) ∧
      stripSlash path = joinPath names ∧ directoryAt d names = some sub := by
  constructor
  · rintro ⟨info, hinfo, hnone, hsub⟩
    obtain ⟨names, hne, hn, hpath, _, hfound⟩ := resolvePath_found hd hinfo
    exact ⟨names, hne, hn, hpath, (hfound hnone).1.symm.trans hsub⟩
  · rintro ⟨names, hne, hn, hpath, hsub⟩
    obtain ⟨info, hinfo, hfile, hfound⟩ := resolvePath_named hd hne hn
      (named_of_directoryAt (by rw [hsub]; rfl))
    have hnone := hfile.trans (fileAt_of_directoryAt hd hsub List.prefix_rfl)
    exact ⟨info, (resolvePath_strip hne hn hpath everyone).trans hinfo, hnone,
      (hfound hnone).1.trans hsub⟩

/-! ## 5. The tree of a table -/

/-- The file is the one the entry describes; its time is in milliseconds. -/
structure VirtualFile.HasColumns (file : VirtualFile) (e : Entry) : Prop where
  filesystemPath : file.filesystemPath = e.realPath
  length : file.length.toInt = e.size
  lastModified : file.lastModified.toInt = e.time * 1000
  mediaType : file.mediaType = e.mediaType

/-- The directory `ls` inherits the role: it is listed for a directory above, on a line before the
first one that makes the next directory on the way. -/
def Inherited (es : List Entry) (ls : List JString) (role : JString) : Prop :=
  ∃ before e after, es = before ++ e :: after ∧ e.isDirectory = true ∧ role ∈ e.roles ∧
    ∃ c, e.path ++ [c] <+: ls ∧ ∀ e' ∈ before, ¬ e'.Makes (e.path ++ [c])

/-- The tree is the one the table describes, for a user with every role: the files, the directories,
and the roles of each directory, which are those of its lines and the inherited ones. -/
structure Describes (es : List Entry) (t : VirtualDirectory) : Prop where
  file : ∀ e ∈ es, e.isDirectory = false → ∀ path, stripSlash path = joinPath e.path →
    ∃ file, FindsFile t path file ∧ file.HasColumns e
  listed : ∀ path file, FindsFile t path file →
    ∃ e ∈ es, e.isDirectory = false ∧ stripSlash path = joinPath e.path ∧ file.HasColumns e
  directory : ∀ path, (∃ sub, FindsDirectory t path sub) ↔
    ∃ ls, ls ≠ [] ∧ stripSlash path = joinPath ls ∧ ∃ e ∈ es, e.Makes ls
  roles : ∀ ls, (∀ n ∈ ls, IsName n) → ∀ sub, FindsDirectory t (joinPath ls) sub →
    ∀ role, role ∈ sub.requiredRoles ↔
      (∃ e ∈ es, e.isDirectory = true ∧ e.path = ls ∧ role ∈ e.roles) ∨ Inherited es ls role

theorem toInt_ofInt {n : Int} (h : -2 ^ 63 ≤ n ∧ n < 2 ^ 63) : (BitVec.ofInt 64 n).toInt = n := by
  rw [BitVec.toInt_ofInt]
  exact Int.bmod_eq_of_le (by omega) (by omega)

/-- The file of a line has the columns of the entry. -/
theorem Row.hasColumns {r : Row} (h : r.Ok) (he : r.entry.Ok) {file : VirtualFile}
    (hfile : file.IsOf r.line) : file.HasColumns r.entry where
  filesystemPath := hfile.filesystemPath.trans h.realPath
  length := (congrArg BitVec.toInt hfile.length).trans (toInt_ofInt he.size)
  lastModified := by
    have hms : (1000 : BitVec 64) = BitVec.ofInt 64 1000 := by decide
    rw [hfile.lastModified, Row.line, hms, ← BitVec.ofInt_mul]
    exact toInt_ofInt he.time
  mediaType := hfile.mediaType.trans h.mediaType

/-- A line hands a role down to a directory if it is a line for it or the directory inherits. -/
theorem handsDown_iff {before : List (List JString × Line)} {e : List JString × Line}
    {ls : List JString} {role : JString} :
    HandsDown before e ls role ↔ e.2.isDirectory = true ∧ role ∈ e.2.requiredRoles ∧
      (e.1 = ls ∨ ∃ c, e.1 ++ [c] <+: ls ∧ ∀ e' ∈ before, ¬ Virtual.Makes e'.1 e'.2
        (e.1 ++ [c])) := by
  rw [HandsDown]
  refine and_congr_right fun _ => and_congr_right fun _ => ⟨?_, ?_⟩
  · rintro ⟨⟨rest, rfl⟩, hfree⟩
    rcases rest with _ | ⟨c, rest⟩
    · exact .inl (List.append_nil _).symm
    · have hc : e.1 ++ [c] <+: e.1 ++ c :: rest :=
        (List.prefix_append_right_inj _).mpr (List.cons_prefix_cons.mpr ⟨rfl, List.nil_prefix⟩)
      exact .inr ⟨c, hc, hfree c hc⟩
  · rintro (rfl | ⟨c, hc, hfree⟩)
    · refine ⟨List.prefix_rfl, fun c hc => ?_⟩
      have hlen := hc.length_le
      rw [List.length_append, List.length_singleton] at hlen
      omega
    · refine ⟨(List.prefix_append _ _).trans hc, fun c' hc' => ?_⟩
      have hsame : e.1 ++ [c'] = e.1 ++ [c] :=
        (List.prefix_of_prefix_length_le hc' hc
          (by simp only [List.length_append, List.length_singleton,
          le_refl])).eq_of_length (by simp only [List.length_append, List.length_singleton])
      rw [hsame]
      exact hfree

/-- The same for the lines of a table. -/
theorem handsDown_rows {rows : List Row} (hrows : ∀ r ∈ rows, r.Ok)
    (hes : ∀ r ∈ rows, r.entry.Ok)
    (hroles : ∀ r ∈ rows, r.entry.isDirectory = true → ¬ r.BlankRoles) (ls : List JString)
    (role : JString) :
    (∃ before e after, rows.map Row.parsed = before ++ e :: after ∧ HandsDown before e ls role) ↔
      (∃ e ∈ rows.map Row.entry, e.isDirectory = true ∧ e.path = ls ∧ role ∈ e.roles) ∨
        Inherited (rows.map Row.entry) ls role := by
  have hmem : ∀ {before : List Row} {r : Row} {after : List Row}, rows = before ++ r :: after →
      r ∈ rows ∧ ∀ r' ∈ before, r' ∈ rows := fun heq => by
    rw [heq]
    exact ⟨List.mem_append_right _ List.mem_cons_self, fun r' hr' => List.mem_append_left _ hr'⟩
  constructor
  · rintro ⟨before, e, after, heq, hhands⟩
    obtain ⟨before, rest, hrest, rfl, htail⟩ := List.map_eq_append_iff.mp heq
    obtain ⟨r, after, rfl, rfl, rfl⟩ := List.map_eq_cons_iff.mp htail
    obtain ⟨hr, hbefore⟩ := hmem hrest
    obtain ⟨hdir, hrole, hway⟩ := handsDown_iff.mp hhands
    have hdir := (Row.isDirectory_line (hrows r hr)).symm.trans hdir
    have hrole := (Row.mem_roles (hrows r hr) (hes r hr) (hroles r hr hdir) role).mp hrole
    rcases hway with hpath | ⟨c, hc, hfree⟩
    · exact .inl ⟨r.entry, List.mem_map.mpr ⟨r, hr, rfl⟩, hdir, hpath, hrole⟩
    · refine .inr ⟨before.map Row.entry, r.entry, after.map Row.entry, ?_, hdir, hrole, c, hc, ?_⟩
      · rw [hrest, List.map_append, List.map_cons]
      · intro e' he' hmakes
        obtain ⟨r', hr', rfl⟩ := List.mem_map.mp he'
        exact hfree r'.parsed (List.mem_map.mpr ⟨r', hr', rfl⟩)
          ((Row.makes_iff (hrows r' (hbefore r' hr')) _).mpr hmakes)
  · rintro (⟨e, he, hdir, hpath, hrole⟩ | ⟨before, e, after, heq, hdir, hrole, c, hc, hfree⟩)
    · obtain ⟨r, hr, rfl⟩ := List.mem_map.mp he
      obtain ⟨before, after, hrest⟩ := List.append_of_mem hr
      refine ⟨before.map Row.parsed, r.parsed, after.map Row.parsed, ?_,
        handsDown_iff.mpr ⟨?_, ?_, ?_⟩⟩
      · rw [hrest, List.map_append, List.map_cons]
      · exact (Row.isDirectory_line (hrows r hr)).trans hdir
      · exact (Row.mem_roles (hrows r hr) (hes r hr) (hroles r hr hdir) role).mpr hrole
      · exact .inl hpath
    · obtain ⟨before, rest, hrest, rfl, htail⟩ := List.map_eq_append_iff.mp heq
      obtain ⟨r, after, rfl, rfl, rfl⟩ := List.map_eq_cons_iff.mp htail
      obtain ⟨hr, hbefore⟩ := hmem hrest
      refine ⟨before.map Row.parsed, r.parsed, after.map Row.parsed, ?_,
        handsDown_iff.mpr ⟨?_, ?_, ?_⟩⟩
      · rw [hrest, List.map_append, List.map_cons]
      · exact (Row.isDirectory_line (hrows r hr)).trans hdir
      · exact (Row.mem_roles (hrows r hr) (hes r hr) (hroles r hr hdir) role).mpr hrole
      · refine .inr ⟨c, hc, fun e' he' hmakes => ?_⟩
        obtain ⟨r', hr', rfl⟩ := List.mem_map.mp he'
        exact hfree r'.entry (List.mem_map.mpr ⟨r', hr', rfl⟩)
          ((Row.makes_iff (hrows r' (hbefore r' hr')) _).mp hmakes)

theorem mem_rows {rows : List Row} {P : Entry → Prop} :
    (∃ e ∈ rows.map Row.entry, P e) ↔ ∃ r ∈ rows, P r.entry := by
  simp only [List.mem_map, exists_exists_and_eq_and]

/-- **The tree that is built** is the one the table describes. -/
theorem built_describes {rows : List Row} (hrows : ∀ r ∈ rows, r.Ok) (hes : ∀ r ∈ rows, r.entry.Ok)
    (hroles : ∀ r ∈ rows, r.entry.isDirectory = true → ¬ r.BlankRoles) {t : VirtualDirectory}
    (h : Built (rows.map Row.parsed) t) : Describes (rows.map Row.entry) t where
  file := fun e he hkind path hpath => by
    obtain ⟨r, hr, rfl⟩ := List.mem_map.mp he
    obtain ⟨file, hfile, hof⟩ := h.file (List.mem_map.mpr ⟨r, hr, rfl⟩)
      ((Row.isDirectory_line (hrows r hr)).trans hkind)
    exact ⟨file, (findsFile_iff h.ok).mpr ⟨_, (hes r hr).path_ne, fun n hn =>
      ((hes r hr).names n hn).1,
      hpath, hfile⟩, Row.hasColumns (hrows r hr) (hes r hr) hof⟩
  listed := fun path file hfind => by
    obtain ⟨names, _, _, hpath, hfile⟩ := (findsFile_iff h.ok).mp hfind
    obtain ⟨e, he, hname, hkind, hof⟩ := h.fileAt hfile
    obtain ⟨r, hr, rfl⟩ := List.mem_map.mp he
    refine ⟨r.entry, List.mem_map.mpr ⟨r, hr, rfl⟩, ?_, ?_, Row.hasColumns (hrows r hr)
      (hes r hr) hof⟩
    · exact (Row.isDirectory_line (hrows r hr)).symm.trans hkind
    · rw [hpath, ← hname]
      rfl
  directory := fun path => by
    have hmakes : ∀ ls, (∃ e ∈ rows.map Row.parsed, Virtual.Makes e.1 e.2 ls) ↔
        ∃ e ∈ rows.map Row.entry, e.Makes ls := fun ls => by
      rw [exists_parsed, mem_rows]
      exact exists_congr fun r => and_congr_right fun hr => Row.makes_iff (hrows r hr) ls
    constructor
    · rintro ⟨sub, hfind⟩
      obtain ⟨names, hne, _, hpath, hsub⟩ := (findsDirectory_iff h.ok).mp hfind
      have hsome := (h.directoryAt_isSome names).mp (by rw [hsub]; rfl)
      exact ⟨names, hne, hpath, (hmakes names).mp (hsome.resolve_left hne)⟩
    · rintro ⟨ls, hne, hpath, e, he, hmake⟩
      have hsome := (h.directoryAt_isSome ls).mpr (.inr ((hmakes ls).mpr ⟨e, he, hmake⟩))
      obtain ⟨sub, hsub⟩ := Option.isSome_iff_exists.mp hsome
      obtain ⟨r, hr, rfl⟩ := List.mem_map.mp he
      refine ⟨sub, (findsDirectory_iff h.ok).mpr ⟨ls, hne, fun n hn => ?_, hpath, hsub⟩⟩
      exact ((hes r hr).names n (hmake.1.mem hn)).1
  roles := fun ls hls sub hfind role => by
    obtain ⟨names, hne, hn, hpath, hsub⟩ := (findsDirectory_iff h.ok).mp hfind
    have hls_ne : ls ≠ [] := fun hnil => by
      rw [hnil] at hpath
      exact joinPath_ne_nil hne hn hpath.symm
    rw [stripSlash_joinPath hls_ne hls] at hpath
    have hsame := joinPath_inj hls_ne hne hls hn hpath
    subst hsame
    rw [← nearest_of_directoryAt hsub, h.nearest]
    exact handsDown_rows hrows hes hroles ls role

/-- **What the reader makes of a consistent table.**  It accepts the lines and builds the tree the
table describes, if and only if no line ends too early, no directory line has a blank role column,
and no directory line comes after the one with the metadata path of its directory. -/
theorem addFromReader_describes_iff {rows : List Row} (hrows : ∀ r ∈ rows, r.Ok)
    (hes : Consistent (rows.map Row.entry)) :
    (∃ t, addFromReader (rows.map Row.text) newRoot = .ok t ∧ Describes (rows.map Row.entry) t) ↔
      Readable rows := by
  have hok : ∀ r ∈ rows, r.entry.Ok := fun r hr => hes.ok _ (List.mem_map.mpr ⟨r, hr, rfl⟩)
  constructor
  · rintro ⟨t, ht, hdescribes⟩
    obtain ⟨hends, hbuilt⟩ := built_of_accepted hrows hok ht
    refine ⟨hends, fun r hr hdir hblank => ?_, ?_⟩
    · -- the directory requires the role with the empty name, which no entry lists
      have hmem : r.parsed ∈ rows.map Row.parsed := List.mem_map.mpr ⟨r, hr, rfl⟩
      obtain ⟨s, hs, hrequired⟩ := hbuilt.made hmem ((Row.isDirectory_line (hrows r hr)).trans hdir)
      have hnames : ∀ n ∈ r.entry.path, IsName n := fun n hn => ((hok r hr).names n hn).1
      have hfind : FindsDirectory t (joinPath r.entry.path) s := (findsDirectory_iff hbuilt.ok).mpr
        ⟨_, (hok r hr).path_ne, hnames, stripSlash_joinPath (hok r hr).path_ne hnames, hs⟩
      rcases (hdescribes.roles _ hnames s hfind []).mp (hrequired [] hblank.mem_roles) with
        ⟨e, he, _, _, hrole⟩ | ⟨before, e, after, heq, _, hrole, _⟩
      · exact ((hes.ok e he).roles [] hrole).1 rfl
      · have he : e ∈ rows.map Row.entry := by
          rw [heq]
          exact List.mem_append_right _ List.mem_cons_self
        exact ((hes.ok e he).roles [] hrole).1 rfl
    · have hlast := List.pairwise_map.mp hbuilt.realPath_last
      refine (List.Pairwise.and_mem.mp hlast).imp fun ⟨hr, hr', h⟩ hdir hdir' hpath => ?_
      have hnil := h ((Row.isDirectory_line (hrows _ hr)).trans hdir)
        ((Row.isDirectory_line (hrows _ hr')).trans hdir') hpath
      exact (hrows _ hr).realPath.symm.trans ((trim_trim _).symm.trans hnil)
  · intro hreadable
    obtain ⟨t, ht⟩ := addFromReader_accepts hrows hes hreadable.ends hreadable.metadata
    exact ⟨t, ht, built_describes hrows hok hreadable.roles (built_of_accepted hrows hok ht).2⟩

/-- The line `a/f, /x, 5, 10, text/plain`. -/
def fileRow : Row where
  entry := ⟨[lit "a", lit "f"], lit "/x", 5, 10, lit "text/plain", []⟩
  virtualFilename := lit "a/f"
  realFilename := lit " /x"
  size := lit " 5"
  time := lit " 10"
  mediaType := lit " text/plain"
  rest := []

/-- A line for the directory `a`. -/
def directoryRow (realPath : String) (roles : List String) : Row where
  entry := ⟨[lit "a"], lit realPath, 0, 0, lit "directory", roles.map lit⟩
  virtualFilename := lit "a"
  realFilename := lit realPath
  size := lit "0"
  time := lit "0"
  mediaType := lit "directory"
  rest := roles.map lit

theorem fileRow_ok : fileRow.Ok ∧ fileRow.entry.Ok :=
  ⟨⟨by decide +kernel, by decide +kernel, by decide +kernel, by decide +kernel, by decide +kernel,
    by decide +kernel, by decide, by decide +kernel⟩,
   ⟨by decide, by unfold IsName; decide +kernel, by decide, by decide, by decide⟩⟩

theorem directoryRow_r_ok : (directoryRow "" ["r"]).Ok ∧ (directoryRow "" ["r"]).entry.Ok :=
  ⟨⟨by decide +kernel, by decide +kernel, by decide +kernel, by decide +kernel, by decide +kernel,
    by decide +kernel, by decide, by decide +kernel⟩,
   ⟨by decide, by unfold IsName; decide +kernel, by decide, by decide, by decide +kernel⟩⟩

/-- A directory is made for a file in it, and gets its roles afterwards. -/
theorem addFromReader_describes_iff_twoLines :
    ∃ t, addFromReader [lit "a/f, /x, 5, 10, text/plain", lit "a,,0,0,directory,r"] newRoot
      = .ok t ∧
      Describes [fileRow.entry, (directoryRow "" ["r"]).entry] t := by
  have htext : [fileRow, directoryRow "" ["r"]].map Row.text =
      [lit "a/f, /x, 5, 10, text/plain", lit "a,,0,0,directory,r"] := by decide +kernel
  have hrows : ∀ r ∈ [fileRow, directoryRow "" ["r"]], r.Ok ∧ r.entry.Ok := by
    intro r hr
    rcases List.mem_cons.mp hr with rfl | hr
    · exact fileRow_ok
    · rw [List.mem_singleton.mp hr]
      exact directoryRow_r_ok
  have hcompatible : Compatible fileRow.entry (directoryRow "" ["r"]).entry :=
    ⟨by decide +kernel, by decide +kernel, by decide +kernel⟩
  have hconsistent : Consistent ([fileRow, directoryRow "" ["r"]].map Row.entry) :=
    ⟨fun e he => by
      obtain ⟨r, hr, rfl⟩ := List.mem_map.mp he
      exact (hrows r hr).2, List.pairwise_pair.mpr hcompatible⟩
  rw [← htext]
  exact (addFromReader_describes_iff (fun r hr => (hrows r hr).1) hconsistent).mpr
    ⟨by unfold Row.Ends; decide +kernel, by unfold Row.BlankRoles; decide +kernel,
      List.pairwise_pair.mpr (by decide +kernel)⟩

/-- The metadata path of a directory on the first of two lines: the second line is refused. -/
theorem metadata_first_refused :
    ∃ rows : List Row, rows.map Row.text = [lit "a,/m,0,0,directory", lit "a,,0,0,directory"] ∧
      (∀ r ∈ rows, r.Ok) ∧ Consistent (rows.map Row.entry) ∧
      ¬ ∃ t, addFromReader (rows.map Row.text) newRoot = .ok t ∧ Describes
        (rows.map Row.entry) t := by
  have hok : ∀ realPath ∈ ["/m", ""], (directoryRow realPath []).Ok ∧
    (directoryRow realPath []).entry.Ok := by
    intro realPath hmem
    have hcases : realPath = "/m" ∨ realPath = "" := by simpa using hmem
    rcases hcases with rfl | rfl <;>
    exact ⟨⟨by decide +kernel, by decide +kernel, by decide +kernel, by decide +kernel,
        by decide +kernel, by decide +kernel, by decide, by decide +kernel⟩,
      ⟨by decide, by unfold IsName; decide +kernel, by decide, by decide, by decide⟩⟩
  have hrows : ∀ r ∈ ["/m", ""].map fun realPath => directoryRow realPath [], r.Ok ∧
    r.entry.Ok := by
    intro r hr
    obtain ⟨realPath, hmem, rfl⟩ := List.mem_map.mp hr
    exact hok realPath hmem
  have htext : ((["/m", ""].map fun realPath => directoryRow realPath []).map Row.text) =
      [lit "a,/m,0,0,directory", lit "a,,0,0,directory"] := by decide +kernel
  refine ⟨["/m", ""].map fun realPath => directoryRow realPath [], htext, fun r hr =>
    (hrows r hr).1,
    ⟨fun e he => ?_, List.pairwise_pair.mpr ⟨by decide +kernel, by decide +kernel,
      by decide +kernel⟩⟩, ?_⟩
  · obtain ⟨r, hr, rfl⟩ := List.mem_map.mp he
    exact (hrows r hr).2
  · rw [htext]
    rintro ⟨t, ht, _⟩
    have hrefused : (addFromReader [lit "a,/m,0,0,directory", lit "a,,0,0,directory"]
        newRoot).toOption.isNone = true := by decide +kernel
    rw [ht] at hrefused
    cases hrefused

end HdfStream.Virtual
