/-
# Directory listings

The model of `packDirectory`, which sends a user the listing of a directory down to a depth, and
of the metadata file of a directory (`DirectoryMetadata`) as far as listings use it.  Reading a
metadata file succeeds, and gives the same in every request, since it is read once; the files are
a parameter, by their real paths.

The maps of files and of directories are filtered by the roles of the user, the labels of the
metadata are not.  So a listing reveals the name of a directory the user cannot access exactly
where a label names it.
-/
import HdfStream.Lib.Msgpack
import HdfStream.Virtual.Views

namespace HdfStream.Virtual

open Java LinkedMap Msgpack

/-- `DirectoryMetadata`. -/
structure DirectoryMetadata where
  description : Option JString
  labels : Option (List (JString × JString))

/-- `getMetadata`. -/
def getMetadata (metadata : JString → DirectoryMetadata) (directory : VirtualDirectory) :
    Option DirectoryMetadata :=
  directory.val.realPath.map metadata

/-! ## 1. Packing -/

/-- `packFile`. -/
def packFile (file : VirtualFile) : List (Token JString) :=
  [.mapHeader 3, .str (lit "type"), .str file.mediaType, .str (lit "size"),
   .int file.length.toInt, .str (lit "last_modified"), .int file.lastModified.toInt]

/-- `packString`, or `packNil` for null. -/
def packDescription : Option JString → List (Token JString)
  | some description => [.str description]
  | none => [.nil]

/-- The entries of a map of labels, or nil. -/
def packLabels : Option (List (JString × JString)) → List (Token JString)
  | some labels =>
    .mapHeader labels.length :: labels.flatMap fun entry => [.str entry.1, .str entry.2]
  | none => [.nil]

/-- `packDirectory`. -/
def packDirectory (metadata : JString → DirectoryMetadata) (directory : VirtualDirectory)
    (maxDepth : Int) (inRole : JString → Bool) : List (Token JString) :=
  let md := getMetadata metadata directory
  let files := getFiles inRole directory
  let subdirs := getDirectories inRole directory
  [.mapHeader 6, .str (lit "type"), .str (lit "directory"), .str (lit "size"),
    .int (getTotalSize inRole directory).toInt, .str (lit "description")] ++
  packDescription (md.bind DirectoryMetadata.description) ++ [.str (lit "labels")] ++
  packLabels (md.bind DirectoryMetadata.labels) ++
  [.str (lit "files"), .mapHeader files.length] ++
  (files.flatMap fun entry => .str entry.1 :: packFile entry.2) ++
  [.str (lit "directories"), .mapHeader subdirs.length] ++
  subdirs.flatMap fun entry =>
    .str entry.1 ::
      (if 0 < maxDepth then packDirectory metadata entry.2 (maxDepth - 1) inRole else [.nil])
termination_by maxDepth.toNat
decreasing_by omega

/-! ## 2. The value -/

/-- The description of a directory. -/
def description (metadata : JString → DirectoryMetadata) (d : VirtualDirectory) : Option JString :=
  (getMetadata metadata d).bind DirectoryMetadata.description

/-- The labels of a directory. -/
def labels (metadata : JString → DirectoryMetadata) (d : VirtualDirectory) :
    Option (List (JString × JString)) :=
  (getMetadata metadata d).bind DirectoryMetadata.labels

def fileValue (file : VirtualFile) : Value JString :=
  .map [(.str (lit "type"), .str file.mediaType), (.str (lit "size"), .int file.length.toInt),
    (.str (lit "last_modified"), .int file.lastModified.toInt)]

def descriptionValue : Option JString → Value JString
  | some description => .str description
  | none => .nil

def labelsValue : Option (List (JString × JString)) → Value JString
  | some labels => .map (labels.map fun entry => (.str entry.1, .str entry.2))
  | none => .nil

/-- The listing of a directory down to `depth`, with the labels `labelsOf` of each directory. -/
def listing (metadata : JString → DirectoryMetadata)
    (labelsOf : VirtualDirectory → Option (List (JString × JString))) (inRole : JString → Bool) :
    Nat → VirtualDirectory → Value JString
  | depth, d =>
    .map [(.str (lit "type"), .str (lit "directory")),
      (.str (lit "size"), .int (getTotalSize inRole d).toInt),
      (.str (lit "description"), descriptionValue (description metadata d)),
      (.str (lit "labels"), labelsValue (labelsOf d)),
      (.str (lit "files"), .map ((getFiles inRole d).map fun entry =>
        (.str entry.1, fileValue entry.2))),
      (.str (lit "directories"), .map ((getDirectories inRole d).map fun entry =>
        (.str entry.1, match depth with
          | 0 => .nil
          | depth + 1 => listing metadata labelsOf inRole depth entry.2)))]

@[simp] theorem tokens_fileValue (file : VirtualFile) : (fileValue file).tokens = packFile
    file := by
  simp only [fileValue, Value.tokens_map, List.length_cons, List.length_nil, List.flatMap_cons,
    List.flatMap_nil, Value.tokens_str, Value.tokens_int, List.append_nil, List.cons_append,
    List.nil_append]
  rfl

@[simp] theorem tokens_descriptionValue (text : Option JString) :
    (descriptionValue text).tokens = packDescription text := by
  cases text with
  | none => rfl
  | some text => rfl

@[simp] theorem tokens_labelsValue (entries : Option (List (JString × JString))) :
    (labelsValue entries).tokens = packLabels entries := by
  cases entries with
  | none => rfl
  | some entries =>
    rw [labelsValue, Value.tokens_map, List.length_map, List.flatMap_map]
    rfl

/-- The calls for a listing, when `pack` packs what it has for a subdirectory. -/
theorem tokens_listing {metadata : JString → DirectoryMetadata}
    {labelsOf : VirtualDirectory → Option (List (JString × JString))} {inRole : JString → Bool}
    {depth : Nat} {d : VirtualDirectory} {pack : VirtualDirectory → List (Token JString)}
    (hpack : ∀ sub, pack sub = (match depth with
      | 0 => Value.nil
      | depth + 1 => listing metadata labelsOf inRole depth sub).tokens) :
    (listing metadata labelsOf inRole depth d).tokens =
      [.mapHeader 6, .str (lit "type"), .str (lit "directory"), .str (lit "size"),
        .int (getTotalSize inRole d).toInt, .str (lit "description")] ++
      packDescription (description metadata d) ++ [.str (lit "labels")] ++
      packLabels (labelsOf d) ++
      [.str (lit "files"), .mapHeader (getFiles inRole d).length] ++
      ((getFiles inRole d).flatMap fun entry => .str entry.1 :: packFile entry.2) ++
      [.str (lit "directories"), .mapHeader (getDirectories inRole d).length] ++
      (getDirectories inRole d).flatMap fun entry => .str entry.1 :: pack entry.2 := by
  rw [listing]
  simp only [Value.tokens_map, List.length_cons, List.length_nil, List.length_map,
    List.flatMap_cons, List.flatMap_nil, List.flatMap_map, Value.tokens_str, Value.tokens_int,
    tokens_descriptionValue, tokens_labelsValue, tokens_fileValue, ← hpack, List.append_nil,
    List.cons_append, List.nil_append, List.append_assoc]

/-- **`packDirectory` packs one value**, the listing with all labels. -/
theorem packDirectory_eq (metadata : JString → DirectoryMetadata) (d : VirtualDirectory)
    (maxDepth : Int) (inRole : JString → Bool) :
    packDirectory metadata d maxDepth inRole =
      (listing metadata (labels metadata) inRole maxDepth.toNat d).tokens := by
  induction hdepth : maxDepth.toNat generalizing maxDepth d with
  | zero =>
    have hstop : ¬ 0 < maxDepth := by omega
    have hpack : ∀ sub : VirtualDirectory, [Token.nil] = (match 0 with
        | 0 => Value.nil
        | depth + 1 => listing metadata (labels metadata) inRole depth sub).tokens := fun _ => rfl
    rw [tokens_listing hpack, packDirectory]
    simp only [if_neg hstop]
    rfl
  | succ depth ih =>
    have hgo : 0 < maxDepth := by omega
    have hpack : ∀ sub : VirtualDirectory, packDirectory metadata sub (maxDepth - 1) inRole =
        (match depth + 1 with
        | 0 => Value.nil
        | depth + 1 => listing metadata (labels metadata) inRole depth sub).tokens :=
      fun sub => ih sub (maxDepth - 1) (by omega)
    rw [tokens_listing hpack, packDirectory]
    simp only [if_pos hgo]
    rfl

/-! ## 3. The names in a listing -/

/-- `name` is a key of a map of files, directories or labels, at some level of a listing. -/
inductive Listed : Value JString → JString → Prop where
  | key {entries names : List (Value JString × Value JString)} {field name : JString}
      {v : Value JString} (hfield : field ∈ [lit "files", lit "directories", lit "labels"])
      (hnames : (.str field, .map names) ∈ entries) (hname : (.str name, v) ∈ names) :
      Listed (.map entries) name
  | nested {entries subdirs : List (Value JString × Value JString)} {key v : Value JString}
      {name : JString} (hsubdirs : (.str (lit "directories"), .map subdirs) ∈ entries)
      (hv : (key, v) ∈ subdirs) (h : Listed v name) : Listed (.map entries) name

/-- The keys of a map of labels. -/
def labelKeys (entries : Option (List (JString × JString))) : List JString :=
  (entries.getD []).map Prod.fst

/-- The names at the top level of a listing, and those below it. -/
theorem listed_listing {metadata : JString → DirectoryMetadata}
    {labelsOf : VirtualDirectory → Option (List (JString × JString))} {inRole : JString → Bool}
    {depth : Nat} {d : VirtualDirectory} {name : JString} :
    Listed (listing metadata labelsOf inRole depth d) name ↔
      name ∈ keys (getFiles inRole d) ∨ name ∈ keys (getDirectories inRole d) ∨
        name ∈ labelKeys (labelsOf d) ∨
        ∃ below, depth = below + 1 ∧ ∃ entry ∈ getDirectories inRole d,
          Listed (listing metadata labelsOf inRole below entry.2) name := by
  have htype : lit "type" ∉ [lit "files", lit "directories", lit "labels"] := by decide
  have hsize : lit "size" ∉ [lit "files", lit "directories", lit "labels"] := by decide
  have hdesc : lit "description" ∉ [lit "files", lit "directories", lit "labels"] := by decide
  constructor
  · intro h
    rw [listing] at h
    cases h with
    | @key _ names field _ v hfield hnames hname =>
      simp only [List.mem_cons, List.not_mem_nil, or_false, Prod.mk.injEq, Value.str.injEq]
        at hnames
      rcases hnames with ⟨rfl, _⟩ | ⟨rfl, _⟩ | ⟨rfl, _⟩ | ⟨rfl, hv⟩ | ⟨rfl, hv⟩ | ⟨rfl, hv⟩
      · exact absurd hfield htype
      · exact absurd hfield hsize
      · exact absurd hfield hdesc
      · cases hlabels : labelsOf d with
        | none =>
          rw [hlabels] at hv
          cases hv
        | some entries =>
          rw [hlabels] at hv
          cases hv
          obtain ⟨entry, hentry, heq⟩ := List.mem_map.mp hname
          cases heq
          exact .inr (.inr (.inl (List.mem_map.mpr ⟨entry, hentry, rfl⟩)))
      · cases hv
        obtain ⟨entry, hentry, heq⟩ := List.mem_map.mp hname
        cases heq
        exact .inl (List.mem_map.mpr ⟨entry, hentry, rfl⟩)
      · cases hv
        obtain ⟨entry, hentry, heq⟩ := List.mem_map.mp hname
        cases heq
        exact .inr (.inl (List.mem_map.mpr ⟨entry, hentry, rfl⟩))
    | @nested _ subdirs k v _ hsubdirs hv h =>
      simp only [List.mem_cons, List.not_mem_nil, or_false, Prod.mk.injEq, Value.str.injEq]
        at hsubdirs
      rcases hsubdirs with ⟨hf, _⟩ | ⟨hf, _⟩ | ⟨hf, _⟩ | ⟨hf, _⟩ | ⟨hf, _⟩ | ⟨_, hmap⟩
      · exact absurd hf (by decide)
      · exact absurd hf (by decide)
      · exact absurd hf (by decide)
      · exact absurd hf (by decide)
      · exact absurd hf (by decide)
      · cases hmap
        obtain ⟨entry, hentry, heq⟩ := List.mem_map.mp hv
        cases heq
        cases depth with
        | zero => cases h
        | succ below => exact .inr (.inr (.inr ⟨below, rfl, entry, hentry, h⟩))
  · rintro (hfile | hsub | hlabel | ⟨below, rfl, entry, hentry, h⟩)
    · obtain ⟨entry, hentry, rfl⟩ := List.mem_map.mp hfile
      rw [listing]
      exact .key List.mem_cons_self
        (.tail _ <| .tail _ <| .tail _ <| .tail _ <| .head _)
        (List.mem_map.mpr ⟨entry, hentry, rfl⟩)
    · obtain ⟨entry, hentry, rfl⟩ := List.mem_map.mp hsub
      rw [listing]
      exact .key (.tail _ <| .head _)
        (.tail _ <| .tail _ <| .tail _ <| .tail _ <| .tail _ <| .head _)
        (List.mem_map.mpr ⟨entry, hentry, rfl⟩)
    · rw [listing]
      cases hlabels : labelsOf d with
      | none =>
        rw [hlabels] at hlabel
        cases hlabel
      | some entries =>
        rw [hlabels] at hlabel
        obtain ⟨entry, hentry, rfl⟩ := List.mem_map.mp hlabel
        exact .key (.tail _ <| .tail _ <| .head _)
          (.tail _ <| .tail _ <| .tail _ <| .head _) (List.mem_map.mpr ⟨entry, hentry, rfl⟩)
    · rw [listing]
      exact .nested (.tail _ <| .tail _ <| .tail _ <| .tail _ <| .tail _ <| .head _)
        (List.mem_map.mpr ⟨entry, hentry, rfl⟩) h

/-- What a user may see in a directory: its files and the subdirectories the user can access. -/
def Shows (inRole : JString → Bool) (d : VirtualDirectory) (name : JString) : Prop :=
  name ∈ keys d.files ∨ ∃ sub, get d.directories name = some sub ∧ canAccess inRole sub = true

theorem mem_getDirectories {inRole : JString → Bool} {d : VirtualDirectory} (hd : d.UniqueNames)
    (h : canAccess inRole d = true) {name : JString} {sub : VirtualDirectory} :
    (name, sub) ∈ getDirectories inRole d ↔
      get d.directories name = some sub ∧ canAccess inRole sub = true := by
  exact (getDirectories_eq hd h ▸ List.mem_filter).trans (and_congr_left' (mem_iff_get hd))

/-- **The names in a listing**: what the directories it covers show, and their labels. -/
theorem listed_iff {metadata : JString → DirectoryMetadata}
    {labelsOf : VirtualDirectory → Option (List (JString × JString))} {inRole : JString → Bool}
    {depth : Nat} {d : VirtualDirectory} (hd : d.All Trie.UniqueNames)
    (h : canAccess inRole d = true) {name : JString} :
    Listed (listing metadata labelsOf inRole depth d) name ↔
      ∃ ks, ∃ s : VirtualDirectory, ks.length ≤ depth ∧ d.walk (accessible inRole) ks = some s ∧
        (Shows inRole s name ∨ name ∈ labelKeys (labelsOf s)) := by
  have hhere : ∀ {d : VirtualDirectory} {depth : Nat}, d.UniqueNames → canAccess inRole d = true →
      (Listed (listing metadata labelsOf inRole depth d) name ↔
        Shows inRole d name ∨ name ∈ labelKeys (labelsOf d) ∨
          ∃ below, depth = below + 1 ∧ ∃ entry ∈ getDirectories inRole d,
            Listed (listing metadata labelsOf inRole below entry.2) name) := by
    intro d depth hd h
    have hsubs : name ∈ keys (getDirectories inRole d) ↔
        ∃ sub, get d.directories name = some sub ∧ canAccess inRole sub = true := by
      simp only [keys, List.mem_map, ← mem_getDirectories hd h, Prod.exists, exists_and_right,
        exists_eq_right]
    rw [listed_listing, hsubs, getFiles, if_pos h, Shows, or_assoc]
  constructor
  · intro hlisted
    induction depth generalizing d with
    | zero =>
      rcases (hhere hd.root h).mp hlisted with hshow | hlabel | ⟨below, hbelow, _⟩
      · exact ⟨[], d, Nat.le_refl _, rfl, .inl hshow⟩
      · exact ⟨[], d, Nat.le_refl _, rfl, .inr hlabel⟩
      · cases hbelow
    | succ depth ih =>
      rcases (hhere hd.root h).mp hlisted with hshow | hlabel | ⟨below, hbelow, entry, hentry, hl⟩
      · exact ⟨[], d, Nat.zero_le _, rfl, .inl hshow⟩
      · exact ⟨[], d, Nat.zero_le _, rfl, .inr hlabel⟩
      · cases hbelow
        obtain ⟨hget, hacc⟩ := (mem_getDirectories hd.root h).mp hentry
        obtain ⟨ks, s, hlen, hwalk, hs⟩ := ih (hd.child (mem_of_get hget)) hacc hl
        exact ⟨entry.1 :: ks, s, Nat.succ_le_succ hlen,
          Trie.walk_cons_eq_some.mpr ⟨entry.2, hget, hacc, hwalk⟩, hs⟩
  · rintro ⟨ks, s, hlen, hwalk, hs⟩
    induction ks generalizing d depth with
    | nil =>
      cases hwalk
      rcases hs with hshow | hlabel
      · exact (hhere hd.root h).mpr (.inl hshow)
      · exact (hhere hd.root h).mpr (.inr (.inl hlabel))
    | cons k ks ih =>
      obtain ⟨sub, hget, hacc, hwalk⟩ := Trie.walk_cons_eq_some.mp hwalk
      cases depth with
      | zero => cases hlen
      | succ below =>
        refine (hhere hd.root h).mpr (.inr (.inr ⟨below, rfl, (k, sub), ?_, ?_⟩))
        · exact (mem_getDirectories hd.root h).mpr ⟨hget, hacc⟩
        · exact ih (hd.child (mem_of_get hget)) hacc (Nat.le_of_succ_le_succ hlen) hwalk

/-! ## 4. What a user may learn -/

theorem labelsValue_inj {a b : Option (List (JString × JString))}
    (h : labelsValue a = labelsValue b) : a = b := by
  have hentry : Function.Injective
      fun entry : JString × JString => (Value.str entry.1, Value.str entry.2) := by
    intro x y hxy
    obtain ⟨h1, h2⟩ := Prod.mk.inj hxy
    exact Prod.ext (Value.str.inj h1) (Value.str.inj h2)
  cases a with
  | none =>
    cases b with
    | none => rfl
    | some b => cases h
  | some a =>
    cases b with
    | none => cases h
    | some b => exact congrArg some (List.map_injective_iff.mpr hentry (Value.map.inj h))

/-- Two choices of labels give the same listing if and only if they agree where it shows them. -/
theorem listing_eq_iff {metadata : JString → DirectoryMetadata}
    {f g : VirtualDirectory → Option (List (JString × JString))} {inRole : JString → Bool}
    {depth : Nat} {d : VirtualDirectory} (hd : d.All Trie.UniqueNames)
    (h : canAccess inRole d = true) :
    listing metadata f inRole depth d = listing metadata g inRole depth d ↔
      ∀ ks (s : VirtualDirectory), ks.length ≤ depth → d.walk (accessible inRole) ks = some s →
        f s = g s := by
  constructor
  · intro heq ks s hlen hwalk
    induction ks generalizing d depth with
    | nil =>
      cases hwalk
      rw [listing, listing] at heq
      simp only [Value.map.injEq, List.cons.injEq, Prod.mk.injEq, true_and] at heq
      exact labelsValue_inj heq.1
    | cons k ks ih =>
      obtain ⟨sub, hget, hacc, hwalk⟩ := Trie.walk_cons_eq_some.mp hwalk
      cases depth with
      | zero => cases hlen
      | succ below =>
        rw [listing, listing] at heq
        simp only [Value.map.injEq, List.cons.injEq, Prod.mk.injEq, true_and, and_true,
          List.map_inj_left] at heq
        have hsub := heq.2 (k, sub) ((mem_getDirectories hd.root h).mpr ⟨hget, hacc⟩)
        exact ih (hd.child (mem_of_get hget)) hacc hsub (Nat.le_of_succ_le_succ hlen) hwalk
  · intro hall
    induction depth generalizing d with
    | zero =>
      rw [listing, listing, hall [] d (Nat.le_refl _) rfl]
    | succ below ih =>
      have hsubs : ∀ entry ∈ getDirectories inRole d,
          listing metadata f inRole below entry.2 = listing metadata g inRole below entry.2 := by
        intro entry hentry
        obtain ⟨hget, hacc⟩ := (mem_getDirectories hd.root h).mp hentry
        exact ih (hd.child (mem_of_get hget)) hacc fun ks s hlen hwalk =>
          hall (entry.1 :: ks) s (Nat.succ_le_succ hlen)
            (Trie.walk_cons_eq_some.mpr ⟨entry.2, hget, hacc, hwalk⟩)
      have hmap := List.map_congr_left fun entry hentry =>
        congrArg (Prod.mk (Value.str entry.1)) (hsubs entry hentry)
      rw [listing, listing, hall [] d (Nat.zero_le _) rfl]
      dsimp only
      rw [hmap]

/-- `name` is a subdirectory the user cannot access. -/
def hides (inRole : JString → Bool) (d : VirtualDirectory) (name : JString) : Bool :=
  (get d.directories name).any fun sub => !canAccess inRole sub

/-- The labels without those of subdirectories the user cannot access. -/
def publicLabels (metadata : JString → DirectoryMetadata) (inRole : JString → Bool)
    (d : VirtualDirectory) : Option (List (JString × JString)) :=
  (labels metadata d).map fun entries => entries.filter fun entry => !hides inRole d entry.1

/-- No label in a listing is that of a subdirectory the user cannot access. -/
def LabelsClean (metadata : JString → DirectoryMetadata) (inRole : JString → Bool) (depth : Nat)
    (d : VirtualDirectory) : Prop :=
  ∀ ks (s : VirtualDirectory), ks.length ≤ depth → d.walk (accessible inRole) ks = some s →
    ∀ name ∈ labelKeys (labels metadata s), hides inRole s name = false

theorem labels_eq_publicLabels {metadata : JString → DirectoryMetadata} {inRole : JString → Bool}
    {d : VirtualDirectory} :
    labels metadata d = publicLabels metadata inRole d ↔
      ∀ name ∈ labelKeys (labels metadata d), hides inRole d name = false := by
  rw [publicLabels]
  cases labels metadata d with
  | none => simp only [Option.map_none, labelKeys, Option.getD_none, List.map_nil,
      List.not_mem_nil, false_imp_iff, implies_true]
  | some entries =>
    rw [Option.map_some, Option.some.injEq, eq_comm, List.filter_eq_self, labelKeys,
      Option.getD_some, List.forall_mem_map]
    simp only [Bool.not_eq_true']

/-- Two trees that differ only in directories the user cannot access, and in their labels. -/
structure Alike (metadata metadata' : JString → DirectoryMetadata) (inRole : JString → Bool)
    (d d' : VirtualDirectory) : Prop where
  seen : visible inRole d = visible inRole d'
  described : ∀ ks (s s' : VirtualDirectory), d.walk (accessible inRole) ks = some s →
    d'.walk (accessible inRole) ks = some s' → description metadata s = description metadata' s'
  labelled : ∀ ks (s s' : VirtualDirectory), d.walk (accessible inRole) ks = some s →
    d'.walk (accessible inRole) ks = some s' →
    publicLabels metadata inRole s = publicLabels metadata' inRole s'

/-- Trees that are alike are alike below a directory the user can access. -/
theorem Alike.walk {metadata metadata' : JString → DirectoryMetadata} {inRole : JString → Bool}
    {d d' s s' : VirtualDirectory} (h : Alike metadata metadata' inRole d d')
    (hd : d.All Trie.UniqueNames) (hd' : d'.All Trie.UniqueNames) {names : List JString}
    (hs : d.walk (accessible inRole) names = some s)
    (hs' : d'.walk (accessible inRole) names = some s') : Alike metadata metadata' inRole s s' := by
  constructor
  · have hwalk := Trie.walk_prune hd names (p := accessible inRole)
    have hwalk' := Trie.walk_prune hd' names (p := accessible inRole)
    rw [hs, Option.map_some] at hwalk
    rw [hs', Option.map_some] at hwalk'
    have hsame := congrArg (fun t => Trie.walk (fun _ => true) t names) h.seen
    exact Option.some.inj (hwalk.symm.trans (hsame.trans hwalk'))
  · exact fun ks r r' hr hr' => h.described (names ++ ks) r r'
      (Trie.walk_append.mpr ⟨s, hs, hr⟩) (Trie.walk_append.mpr ⟨s', hs', hr'⟩)
  · exact fun ks r r' hr hr' => h.labelled (names ++ ks) r r'
      (Trie.walk_append.mpr ⟨s, hs, hr⟩) (Trie.walk_append.mpr ⟨s', hs', hr'⟩)

/-- Lists that one function maps to the same list are mapped to the same list by others, if
these agree where it does. -/
theorem map_eq_map_of {α β γ δ : Type*} {f : α → γ} {f' : β → γ} {g : α → δ} {g' : β → δ}
    {xs : List α} {ys : List β} (h : xs.map g = ys.map g')
    (hf : ∀ x ∈ xs, ∀ y ∈ ys, g x = g' y → f x = f' y) : xs.map f = ys.map f' := by
  induction xs generalizing ys with
  | nil =>
    cases ys with
    | nil => rfl
    | cons y ys => cases h
  | cons x xs ih =>
    cases ys with
    | nil => cases h
    | cons y ys =>
      obtain ⟨hhead, htail⟩ := List.cons.inj h
      have hrest := ih htail fun a ha b hb =>
        hf a (List.mem_cons_of_mem _ ha) b (List.mem_cons_of_mem _ hb)
      rw [List.map_cons, List.map_cons, hrest,
        hf x List.mem_cons_self y List.mem_cons_self hhead]

/-- Trees that are alike have the same listing if what it has for their subdirectories is the
same. -/
theorem Alike.listing_congr {metadata metadata' : JString → DirectoryMetadata}
    {inRole : JString → Bool} {d d' : VirtualDirectory} (h : Alike metadata metadata' inRole d d')
    (hd : d.UniqueNames) (hd' : d'.UniqueNames)
    (hacc : canAccess inRole d = true) (hacc' : canAccess inRole d' = true) {depth : Nat}
    (hsub : ∀ x ∈ getDirectories inRole d, ∀ y ∈ getDirectories inRole d',
      (x.1, visible inRole x.2) = (y.1, visible inRole y.2) →
      (match depth with
        | 0 => Value.nil
        | depth + 1 => listing metadata (publicLabels metadata inRole) inRole depth x.2) =
      (match depth with
        | 0 => Value.nil
        | depth + 1 => listing metadata' (publicLabels metadata' inRole) inRole depth y.2)) :
    listing metadata (publicLabels metadata inRole) inRole depth d =
      listing metadata' (publicLabels metadata' inRole) inRole depth d' := by
  have hfiles : getFiles inRole d = getFiles inRole d' := by
    rw [← getFiles_visible hacc, ← getFiles_visible hacc', h.seen]
  have hsize : getTotalSize inRole d = getTotalSize inRole d' := by
    rw [← getTotalSize_visible hacc, ← getTotalSize_visible hacc', h.seen]
  have hsubs : (getDirectories inRole d).map (fun entry => (entry.1, visible inRole entry.2)) =
      (getDirectories inRole d').map fun entry => (entry.1, visible inRole entry.2) := by
    rw [← getDirectories_visible hd hacc, ← getDirectories_visible hd' hacc', h.seen]
  have hmap := map_eq_map_of hsubs fun x hx y hy hxy =>
    congrArg₂ Prod.mk (congrArg Value.str (Prod.mk.inj hxy).1) (hsub x hx y hy hxy)
  rw [listing, listing, hfiles, hsize, h.described [] d d' rfl rfl, h.labelled [] d d' rfl rfl]
  exact congrArg (fun subdirs => Value.map [_, _, _, _, _, (_, Value.map subdirs)]) hmap

/-- **With the labels a user may see, trees that are alike have the same listing.** -/
theorem Alike.listing_eq {metadata metadata' : JString → DirectoryMetadata}
    {inRole : JString → Bool} {d d' : VirtualDirectory} (h : Alike metadata metadata' inRole d d')
    (hd : d.All Trie.UniqueNames) (hd' : d'.All Trie.UniqueNames)
    (hacc : canAccess inRole d = true) (hacc' : canAccess inRole d' = true) (depth : Nat) :
    listing metadata (publicLabels metadata inRole) inRole depth d =
      listing metadata' (publicLabels metadata' inRole) inRole depth d' := by
  induction depth generalizing d d' with
  | zero => exact h.listing_congr hd.root hd'.root hacc hacc' fun _ _ _ _ _ => rfl
  | succ below ih =>
    refine h.listing_congr hd.root hd'.root hacc hacc' fun x hx y hy hxy => ?_
    obtain ⟨hget, hx⟩ := (mem_getDirectories hd.root hacc).mp hx
    obtain ⟨hget', hy⟩ := (mem_getDirectories hd'.root hacc').mp hy
    have hname : x.1 = y.1 := (Prod.mk.inj hxy).1
    have hwalk : d.walk (accessible inRole) [x.1] = some x.2 :=
      Trie.walk_cons_eq_some.mpr ⟨x.2, hget, hx, rfl⟩
    have hwalk' : d'.walk (accessible inRole) [x.1] = some y.2 :=
      Trie.walk_cons_eq_some.mpr ⟨y.2, hname ▸ hget', hy, rfl⟩
    exact ih (h.walk hd hd' hwalk hwalk') (hd.child (mem_of_get hget))
      (hd'.child (mem_of_get hget')) hx hy

/-! ## 5. What a listing reveals -/

/-- The root is accessible, and so is where a walk through accessible directories ends. -/
theorem canAccess_of_walk {inRole : JString → Bool} {d s : VirtualDirectory} {names : List JString}
    (hd : canAccess inRole d = true) (h : d.walk (accessible inRole) names = some s) :
    canAccess inRole s = true := by
  induction names generalizing d with
  | nil =>
    cases h
    exact hd
  | cons name names ih =>
    obtain ⟨c, _, hacc, hwalk⟩ := Trie.walk_cons_eq_some.mp h
    exact ih hacc hwalk

/-- A directory the user can access anywhere in the tree shows `name`. -/
def Revealable (inRole : JString → Bool) (t : VirtualDirectory) (name : JString) : Prop :=
  ∃ names, ∃ d : VirtualDirectory, t.walk (accessible inRole) names = some d ∧ Shows inRole d name

/-- The names that may be revealed, as a list: of the files and of the directories in the tree the
user sees. -/
def revealableNames (inRole : JString → Bool) (t : VirtualDirectory) : List JString :=
  (filesBelow (visible inRole t)).map (fun x => x.2.1) ++
    (Trie.gather (fun _ => [()]) (visible inRole t)).filterMap fun x => x.1.getLast?

theorem mem_revealableNames {inRole : JString → Bool} {t : VirtualDirectory}
    (ht : t.All DirectoryOk) {name : JString} :
    name ∈ revealableNames inRole t ↔ Revealable inRole t name := by
  have hunique := (visible_ok inRole ht).imp fun _ h => h.unique
  have hwalk := Trie.walk_prune (p := accessible inRole) (ht.imp fun _ h => h.unique)
  rw [revealableNames, List.mem_append, List.mem_map, List.mem_filterMap]
  constructor
  · rintro (⟨⟨ks, key, file⟩, hx, rfl⟩ | ⟨⟨ks, u⟩, hx, hlast⟩)
    · obtain ⟨s', hs', hfile⟩ := (Trie.mem_gather hunique).mp hx
      rw [visible, hwalk] at hs'
      obtain ⟨s, hs, rfl⟩ := Option.map_eq_some_iff.mp hs'
      rw [Trie.val_prune] at hfile
      exact ⟨ks, s, hs, .inl (List.mem_map.mpr ⟨(key, file), hfile, rfl⟩)⟩
    · obtain ⟨s', hs', _⟩ := (Trie.mem_gather hunique).mp hx
      rw [visible, hwalk] at hs'
      obtain ⟨s, hs, rfl⟩ := Option.map_eq_some_iff.mp hs'
      obtain ⟨ks, rfl⟩ := List.getLast?_eq_some_iff.mp hlast
      obtain ⟨d, hd, hsub⟩ := Trie.walk_append.mp hs
      obtain ⟨c, hc, hacc, _⟩ := Trie.walk_cons_eq_some.mp hsub
      exact ⟨ks, d, hd, .inr ⟨c, hc, hacc⟩⟩
  · rintro ⟨names, d, hd, hfile | ⟨sub, hsub, hacc⟩⟩
    · obtain ⟨⟨key, file⟩, hmem, rfl⟩ := List.mem_map.mp hfile
      refine .inl ⟨(names, key, file), (Trie.mem_gather hunique).mpr ⟨visible inRole d, ?_, ?_⟩,
        rfl⟩
      · rw [visible, hwalk, hd]
        rfl
      · rw [visible, Trie.val_prune]
        exact hmem
    · refine .inr ⟨(names ++ [name], ()), (Trie.mem_gather hunique).mpr
        ⟨visible inRole sub, ?_, List.mem_singleton_self _⟩, List.getLast?_concat ..⟩
      rw [visible, hwalk, Trie.walk_append.mpr ⟨d, hd, Trie.walk_cons_eq_some.mpr
        ⟨sub, hsub, hacc, rfl⟩⟩]
      rfl

/-- **What a listing reveals.**  `packDirectory` packs one value.  Every name in it is the name of
a file of an accessible directory or of an accessible subdirectory if and only if the keys of
the labels it shows are.  For a tree that differs only in what the user cannot access, labels
included, and whose labels reveal nothing, the output is the same if and only if the labels of
this tree reveal nothing either. -/
theorem listing_reveals {lines : List JString} {t : VirtualDirectory}
    (ht : addFromReader lines newRoot = .ok t) (inRole : JString → Bool) {names : List JString}
    {d : VirtualDirectory} (hd : t.walk (accessible inRole) names = some d)
    (metadata : JString → DirectoryMetadata) (maxDepth : Int) :
    (∃ v : Value JString, packDirectory metadata d maxDepth inRole = v.tokens ∧
      ((∀ name, Listed v name → Revealable inRole t name) ↔
        ∀ ks (s : VirtualDirectory), ks.length ≤ maxDepth.toNat →
          d.walk (accessible inRole) ks = some s →
          ∀ name ∈ labelKeys (labels metadata s), Revealable inRole t name)) ∧
    ∀ lines' t' metadata', addFromReader lines' newRoot = .ok t' →
      Alike metadata metadata' inRole t t' →
      ∃ d', t'.walk (accessible inRole) names = some d' ∧
        (LabelsClean metadata' inRole maxDepth.toNat d' →
          (packDirectory metadata d maxDepth inRole = packDirectory metadata' d' maxDepth inRole ↔
            LabelsClean metadata inRole maxDepth.toNat d)) := by
  have hroot : ∀ {lines t}, addFromReader lines newRoot = .ok t →
      t.All Trie.UniqueNames ∧ canAccess inRole t = true := by
    intro lines t ht
    obtain ⟨es, _, hbuilt⟩ := addFromReader_built ht
    refine ⟨hbuilt.ok.imp fun _ h => h.unique, ?_⟩
    rw [canAccess, hbuilt.requiredRoles_eq]
    rfl
  obtain ⟨hunique, hacc⟩ := hroot ht
  have hdunique := hunique.walk hd
  have hdacc := canAccess_of_walk hacc hd
  constructor
  · refine ⟨_, packDirectory_eq metadata d maxDepth inRole, ?_⟩
    constructor
    · intro hall ks s hlen hwalk name hname
      exact hall name ((listed_iff hdunique hdacc).mpr ⟨ks, s, hlen, hwalk, .inr hname⟩)
    · intro hlabels name hname
      obtain ⟨ks, s, hlen, hwalk, hshow | hlabel⟩ := (listed_iff hdunique hdacc).mp hname
      · exact ⟨names ++ ks, s, Trie.walk_append.mpr ⟨d, hd, hwalk⟩, hshow⟩
      · exact hlabels ks s hlen hwalk name hlabel
  · intro lines' t' metadata' ht' halike
    obtain ⟨hunique', hacc'⟩ := hroot ht'
    have hd' : ∃ d', t'.walk (accessible inRole) names = some d' := by
      have hwalk := Trie.walk_prune hunique names (p := accessible inRole)
      have hwalk' := Trie.walk_prune hunique' names (p := accessible inRole)
      have hsame := congrArg (fun t => Trie.walk (fun _ => true) t names) halike.seen
      rw [hd, Option.map_some] at hwalk
      obtain ⟨d', hd', _⟩ := Option.map_eq_some_iff.mp (hwalk'.symm.trans (hsame.symm.trans hwalk))
      exact ⟨d', hd'⟩
    obtain ⟨d', hd'⟩ := hd'
    have hdunique' := hunique'.walk hd'
    have hdacc' := canAccess_of_walk hacc' hd'
    refine ⟨d', hd', fun hclean' => ?_⟩
    -- the partner packs its public labels, and these are ours
    have hpartner : listing metadata' (labels metadata') inRole maxDepth.toNat d' =
        listing metadata (publicLabels metadata inRole) inRole maxDepth.toNat d := by
      rw [(halike.walk hunique hunique' hd hd').listing_eq hdunique hdunique' hdacc hdacc']
      exact (listing_eq_iff hdunique' hdacc').mpr fun ks s hlen hwalk =>
        labels_eq_publicLabels.mpr (hclean' ks s hlen hwalk)
    rw [packDirectory_eq, packDirectory_eq, hpartner]
    constructor
    · intro heq ks s hlen hwalk
      exact labels_eq_publicLabels.mp
        ((listing_eq_iff hdunique hdacc).mp (Value.tokens_inj heq) ks s hlen hwalk)
    · intro hclean
      rw [(listing_eq_iff hdunique hdacc).mpr fun ks s hlen hwalk =>
        labels_eq_publicLabels.mpr (hclean ks s hlen hwalk)]

/-- A directory with a file and a subdirectory for role `r`. -/
def secretLines : List JString :=
  [lit "a,meta,0,0,directory", lit "a/f,x,5,1,text/plain", lit "a/secret,,0,0,directory,r"]

/-- A metadata file with one label. -/
def oneLabel (name : JString) : JString → DirectoryMetadata :=
  fun _ => { description := none, labels := some [(name, lit "label")] }

/-- The label of the file reveals nothing. -/
theorem listing_reveals_fileLabel :
    ∃ t d v, addFromReader secretLines newRoot = .ok t ∧
      packDirectory (oneLabel (lit "f")) d 0 (fun _ => false) = Value.tokens v ∧
      ∀ name, Listed v name → Revealable (fun _ => false) t name := by
  have hrun : ((addFromReader secretLines newRoot).toOption.map fun t =>
      ((t.walk (accessible fun _ => false) [lit "a"]).map fun d =>
          labelKeys (labels (oneLabel (lit "f")) d),
        revealableNames (fun _ => false) t)) = some (some [lit "f"], [lit "f", lit "a"]) := by
    decide +kernel
  obtain ⟨t, ht, heq⟩ := Option.map_eq_some_iff.mp hrun
  have ht := ok_of_toOption ht
  obtain ⟨hd, hnames⟩ := Prod.mk.inj heq
  obtain ⟨d, hd, hlabels⟩ := Option.map_eq_some_iff.mp hd
  obtain ⟨v, hv, hiff⟩ := (listing_reveals ht (fun _ => false) hd (oneLabel (lit "f")) 0).1
  refine ⟨t, d, v, ht, hv, hiff.mpr fun ks s hlen hwalk name hname => ?_⟩
  have hks := List.length_eq_zero_iff.mp (Nat.le_zero.mp hlen)
  subst hks
  cases hwalk
  obtain ⟨_, _, hbuilt⟩ := addFromReader_built ht
  rw [hlabels] at hname
  rw [← mem_revealableNames hbuilt.ok, hnames]
  exact List.mem_cons.mpr (.inl (List.mem_singleton.mp hname))

/-- **A label reveals the name of a directory the user cannot access.** -/
theorem secretLabel_listed :
    ∃ t d v, addFromReader secretLines newRoot = .ok t ∧
      t.walk (accessible fun _ => false) [lit "a"] = some d ∧
      packDirectory (oneLabel (lit "secret")) d 0 (fun _ => false) = Value.tokens v ∧
      Listed v (lit "secret") ∧ ¬ Revealable (fun _ => false) t (lit "secret") := by
  have hrun : ((addFromReader secretLines newRoot).toOption.map fun t =>
      ((t.walk (accessible fun _ => false) [lit "a"]).map fun d =>
          labelKeys (labels (oneLabel (lit "secret")) d),
        revealableNames (fun _ => false) t)) = some (some [lit "secret"], [lit "f", lit "a"]) := by
    decide +kernel
  obtain ⟨t, ht, heq⟩ := Option.map_eq_some_iff.mp hrun
  have ht := ok_of_toOption ht
  obtain ⟨hd, hnames⟩ := Prod.mk.inj heq
  obtain ⟨d, hd, hlabels⟩ := Option.map_eq_some_iff.mp hd
  obtain ⟨_, _, hbuilt⟩ := addFromReader_built ht
  refine ⟨t, d, _, ht, hd, packDirectory_eq _ d 0 _, ?_, ?_⟩
  · refine listed_listing.mpr (.inr (.inr (.inl ?_)))
    rw [hlabels]
    exact List.mem_singleton_self _
  · rw [← mem_revealableNames hbuilt.ok, hnames]
    decide

end HdfStream.Virtual
