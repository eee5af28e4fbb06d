/-
# The tree of virtual directories

The model of `VirtualDirectory.java`: the tree `addFromReader` builds from the lines of a
configuration file, and what the methods with a role predicate let a user see of it.

A directory is a node of a `Trie` over its name; a `LinkedHashMap` is its list of entries, a
`HashSet` of roles the list of its elements.  `parent` is read by the constructors only, and
the metadata file by listings only (`getMetadata` is in the module on listings).  A method that
throws returns the message; the tree is not used after an exception, so what such a call has
already changed is dropped.  Reading the configuration succeeds, line by line.
-/
import HdfStream.Lib.JavaString
import HdfStream.Lib.Trie

namespace HdfStream.Virtual

open Java LinkedMap

/-- `VirtualFile`. -/
structure VirtualFile where
  virtualPath : JString
  filesystemPath : JString
  length : BitVec 64
  lastModified : BitVec 64
  mediaType : JString
deriving DecidableEq

/-- The fields of a `VirtualDirectory`, without its subdirectories. -/
structure DirectoryFields where
  virtualPath : JString
  realPath : Option JString
  files : List (JString × VirtualFile)
  sizeOfFiles : BitVec 64
  requiredRoles : List JString
deriving DecidableEq

/-- `VirtualDirectory`. -/
abbrev VirtualDirectory := Trie JString DirectoryFields

namespace VirtualDirectory

def virtualPath (d : VirtualDirectory) : JString := d.val.virtualPath

def files (d : VirtualDirectory) : List (JString × VirtualFile) := d.val.files

def directories (d : VirtualDirectory) : List (JString × VirtualDirectory) := d.children

def requiredRoles (d : VirtualDirectory) : List JString := d.val.requiredRoles

end VirtualDirectory

/-! ## 1. Building -/

/-- The roles of a set and of a list. -/
def addRoles (roles requiredRoles : List JString) : List JString :=
  roles.foldl (fun acc role => acc.insert role) requiredRoles

/-- The root directory: no parent, no restrictions. -/
def newRoot : VirtualDirectory :=
  .node { virtualPath := [], realPath := none, files := [], sizeOfFiles := 0, requiredRoles := [] }
    []

/-- A directory that inherits the roles of its parent and adds `roles`. -/
def newDirectory (parent : VirtualDirectory) (virtualPath : JString) (roles : List JString) :
    VirtualDirectory :=
  .node
    { virtualPath := virtualPath
      realPath := none
      files := []
      sizeOfFiles := 0
      requiredRoles := addRoles roles parent.requiredRoles } []

/-- `setRealPath`. -/
def setRealPath (realPath : JString) : VirtualDirectory → Except JString VirtualDirectory
  | .node fields subdirs =>
    if fields.realPath.isSome then
      .error (lit "Attempted to set directory metadata path more than once")
    else
      .ok (.node
        { fields with realPath := if trim realPath ≠ [] then some (trim realPath) else none }
        subdirs)

/-- `splitPath`: the part before the first slash, if there is one, and the rest. -/
def splitPath (path : JString) : Except JString (Option JString × JString) :=
  if path.length = 0 then .error (lit "Paths must not have zero length")
  else if startsWith path '/' then
    .error (lit "Path " ++ path ++ lit " must not start with a slash")
  else if endsWith path '/' then
    .error (lit "Path " ++ path ++ lit " must not end with a slash")
  else
    match path.takeWhile (· ≠ '/'), path.dropWhile (· ≠ '/') with
    | first, [] =>
      if first.length = 0 then .error (lit "Path component has zero length!")
      else .ok (none, first)
    | first, _ :: rest =>
      if first.length = 0 then .error (lit "Path component has zero length!")
      else if rest.length = 0 then .error (lit "Path component has zero length!")
      else .ok (some first, rest)

/-- The columns of a line but the virtual filename. -/
structure Line where
  realFilename : JString
  length : BitVec 64
  lastModified : BitVec 64
  mediaType : JString
  requiredRoles : List JString
deriving DecidableEq

/-- A directory, not a file. -/
def Line.isDirectory (line : Line) : Bool := line.mediaType == lit "directory"

/-- `directories.put`. -/
def putDirectory (name : JString) (subdir : VirtualDirectory) : VirtualDirectory → VirtualDirectory
  | .node fields subdirs => .node fields (put subdirs name subdir)

/-- `files.put`, and the size of the files. -/
def putFile (name : JString) (file : VirtualFile) : VirtualDirectory → VirtualDirectory
  | .node fields subdirs =>
    .node
      { fields with
        files := put fields.files name file
        sizeOfFiles := fields.sizeOfFiles + file.length } subdirs

/-- More roles for a directory that exists. -/
def requireRoles (roles : List JString) : VirtualDirectory → VirtualDirectory
  | .node fields subdirs =>
    .node { fields with requiredRoles := addRoles roles fields.requiredRoles } subdirs

@[simp] theorem val_putDirectory (name : JString) (subdir d : VirtualDirectory) :
    (putDirectory name subdir d).val = d.val := by
  cases d with
  | node fields subdirs => rfl

@[simp] theorem children_putDirectory (name : JString) (subdir d : VirtualDirectory) :
    (putDirectory name subdir d).children = put d.children name subdir := by
  cases d with
  | node fields subdirs => rfl

@[simp] theorem children_putFile (name : JString) (file : VirtualFile) (d : VirtualDirectory) :
    (putFile name file d).children = d.children := by
  cases d with
  | node fields subdirs => rfl

@[simp] theorem files_putFile (name : JString) (file : VirtualFile) (d : VirtualDirectory) :
    (putFile name file d).files = put d.files name file := by
  cases d with
  | node fields subdirs => rfl

@[simp] theorem sizeOfFiles_putFile (name : JString) (file : VirtualFile) (d : VirtualDirectory) :
    (putFile name file d).val.sizeOfFiles = d.val.sizeOfFiles + file.length := by
  cases d with
  | node fields subdirs => rfl

@[simp] theorem requiredRoles_putFile (name : JString) (file : VirtualFile) (d : VirtualDirectory) :
    (putFile name file d).requiredRoles = d.requiredRoles := by
  cases d with
  | node fields subdirs => rfl

@[simp] theorem children_requireRoles (roles : List JString) (d : VirtualDirectory) :
    (requireRoles roles d).children = d.children := by
  cases d with
  | node fields subdirs => rfl

@[simp] theorem val_requireRoles (roles : List JString) (d : VirtualDirectory) :
    (requireRoles roles d).val =
      { d.val with requiredRoles := addRoles roles d.val.requiredRoles } := by
  cases d with
  | node fields subdirs => rfl

/-- `setRealPath` sets the metadata path and nothing else. -/
theorem setRealPath_ok {realPath : JString} {d d' : VirtualDirectory}
    (h : setRealPath realPath d = .ok d') :
    d'.children = d.children ∧ ∃ path, d'.val = { d.val with realPath := path } := by
  cases d with
  | node fields subdirs =>
    rw [setRealPath] at h
    split at h
    · cases h
    · cases h
      exact ⟨rfl, _, rfl⟩

theorem mem_addRoles {roles requiredRoles : List JString} {role : JString} :
    role ∈ addRoles roles requiredRoles ↔ role ∈ roles ∨ role ∈ requiredRoles := by
  unfold addRoles
  induction roles generalizing requiredRoles with
  | nil => simp only [List.foldl_nil, List.not_mem_nil, false_or]
  | cons r roles ih =>
    rw [List.foldl_cons, ih, List.mem_insert_iff, List.mem_cons, or_assoc]
    exact or_left_comm

theorem splitPath_length_lt {path name remainder : JString}
    (h : splitPath path = .ok (some name, remainder)) : remainder.length < path.length := by
  unfold splitPath at h
  split at h
  · cases h
  split at h
  · cases h
  split at h
  · cases h
  split at h
  · split at h <;> cases h
  · rename_i rest hdrop
    split at h
    · cases h
    split at h
    · cases h
    cases h
    have hle := (List.dropWhile_suffix (l := path) (fun c => decide (c ≠ '/'))).length_le
    rw [hdrop, List.length_cons] at hle
    exact hle

/-- The branch of `addFile` for a path of one component. -/
def addHere (remainder : JString) (line : Line) (this : VirtualDirectory) :
    Except JString VirtualDirectory :=
  if line.isDirectory then
    if (get this.files remainder).isSome then
      .error (lit "Attempted to add directory with same name as file!")
    else
      match get this.directories remainder with
      | none =>
        (setRealPath line.realFilename
            (newDirectory this (this.virtualPath ++ '/' :: remainder) line.requiredRoles)).map
          fun subdir => putDirectory remainder subdir this
      | some subdir =>
        -- the directory is there, perhaps made for a file in it
        (setRealPath line.realFilename subdir).map fun subdir =>
          putDirectory remainder (requireRoles line.requiredRoles subdir) this
  else if (get this.files remainder).isSome then
    .error (lit "Attempted to add duplicate file!")
  else if (get this.directories remainder).isSome then
    .error (lit "Attempted to add file with same name as directory!")
  else
    .ok (putFile remainder
      { virtualPath := this.virtualPath ++ '/' :: remainder
        filesystemPath := line.realFilename
        length := line.length
        lastModified := line.lastModified
        mediaType := line.mediaType } this)

/-- The virtual path of a directory that is made on the way to another. -/
def implicitPath (this : VirtualDirectory) (subdirName : JString) : JString :=
  if 0 < this.virtualPath.length then this.virtualPath ++ '/' :: subdirName else subdirName

/-- `addFile`, for the columns of a line. -/
def addFile (virtualPath : JString) (line : Line) (this : VirtualDirectory) :
    Except JString VirtualDirectory :=
  match _h : splitPath virtualPath with
  | .error e => .error e
  | .ok (none, remainder) => addHere remainder line this
  | .ok (some subdirName, remainder) =>
    match get this.directories subdirName with
    | some subdir =>
      (addFile remainder line subdir).map fun subdir => putDirectory subdirName subdir this
    | none =>
      if (get this.files subdirName).isSome then
        .error (lit "Attempted to add directory with same name as file: " ++ subdirName ++
          lit " : " ++ line.mediaType)
      else
        (addFile remainder line (newDirectory this (implicitPath this subdirName) [])).map
          fun subdir => putDirectory subdirName subdir this
termination_by virtualPath.length
decreasing_by all_goals exact splitPath_length_lt _h

/-- The columns of a line of the configuration: the virtual filename and the others. -/
def parseLine (line : JString) : Except JString (JString × Line) := do
  let fields := split ',' line
  if fields.length < 5 ∨ 7 < fields.length then
    .error (lit "Unable to interpret line in csv config file")
  else
    let field := fun i => trim (fields.getD i [])
    let length ← valueOfLong (field 2)
    let lastModified ← valueOfLong (field 3)
    return (field 0,
      { realFilename := field 1
        length := length
        lastModified := lastModified * 1000
        mediaType := field 4
        requiredRoles := if 6 ≤ fields.length then addRoles (split ';' (field 5)) [] else [] })

/-- `addFromReader`, for the lines the reader delivers. -/
def addFromReader (lines : List JString) (this : VirtualDirectory) :
    Except JString VirtualDirectory :=
  lines.foldlM (fun this line => do
    let (virtualFilename, line) ← parseLine line
    addFile virtualFilename line this) this

/-! ## 2. Looking -/

/-- `canAccess`: the user has all required roles. -/
def canAccess (inRole : JString → Bool) (d : VirtualDirectory) : Bool :=
  d.requiredRoles.all inRole

/-- `getFiles`. -/
def getFiles (inRole : JString → Bool) (this : VirtualDirectory) : List (JString × VirtualFile) :=
  if canAccess inRole this then this.files else []

/-- `getDirectories`. -/
def getDirectories (inRole : JString → Bool) (this : VirtualDirectory) :
    List (JString × VirtualDirectory) :=
  if canAccess inRole this then
    this.directories.foldl
      (fun dirs entry => if canAccess inRole entry.2 then put dirs entry.1 entry.2 else dirs) []
  else []

mutual

/-- `getAllFilesRecursive`. -/
def getAllFilesRecursive (path : JString) (inRole : JString → Bool) :
    VirtualDirectory → List (JString × VirtualFile) → List (JString × VirtualFile)
  | .node fields subdirs, result =>
    let this : VirtualDirectory := .node fields subdirs
    let result :=
      (getFiles inRole this).foldl (fun result entry => put result (path ++ entry.1) entry.2) result
    if canAccess inRole this then getAllFilesOf path inRole subdirs result else result

/-- The loop of `getAllFilesRecursive` over the subdirectories the user can access. -/
def getAllFilesOf (path : JString) (inRole : JString → Bool) :
    List (JString × VirtualDirectory) → List (JString × VirtualFile) → List (JString × VirtualFile)
  | [], result => result
  | (name, dir) :: subdirs, result =>
    getAllFilesOf path inRole subdirs
      (if canAccess inRole dir then
        getAllFilesRecursive (path ++ name ++ ['/']) inRole dir result
      else result)

end

/-- `getAllFiles`. -/
def getAllFiles (inRole : JString → Bool) (this : VirtualDirectory) :
    List (JString × VirtualFile) :=
  getAllFilesRecursive [] inRole this []

mutual

/-- `getTotalSize`. -/
def getTotalSize (inRole : JString → Bool) : VirtualDirectory → BitVec 64
  | .node fields subdirs =>
    if canAccess inRole (.node fields subdirs) then
      fields.sizeOfFiles + getTotalSizeOf inRole subdirs
    else 0

/-- The loop of `getTotalSize` over the subdirectories. -/
def getTotalSizeOf (inRole : JString → Bool) : List (JString × VirtualDirectory) → BitVec 64
  | [] => 0
  | (_, dir) :: subdirs => getTotalSize inRole dir + getTotalSizeOf inRole subdirs

end

/-- `VirtualPathInfo`. -/
structure VirtualPathInfo where
  directory : Option VirtualDirectory
  file : Option VirtualFile
  basename : Option JString

/-- The path without a trailing slash. -/
def stripSlash (virtualName : JString) : JString :=
  if endsWith virtualName '/' then virtualName.dropLast else virtualName

theorem stripSlash_length_le (virtualName : JString) :
    (stripSlash virtualName).length ≤ virtualName.length := by
  unfold stripSlash
  split
  · rw [List.length_dropLast]
    exact Nat.sub_le _ _
  · exact Nat.le_refl _

/-- `resolvePath`. -/
def resolvePath (virtualName : JString) (inRole : JString → Bool) (this : VirtualDirectory) :
    Except JString VirtualPathInfo :=
  if (stripSlash virtualName).length = 0 then .error (lit "Zero length virtual path")
  else
    match _h : splitPath (stripSlash virtualName) with
    | .error e => .error e
    | .ok (none, remainder) =>
      let directory := get this.directories remainder
      let file := get this.files remainder
      if directory.isNone ∧ file.isNone then
        .error (lit "Virtual path not found: " ++ stripSlash virtualName)
      else if directory.any (fun directory => !canAccess inRole directory) then
        .error (lit "Virtual path not found: " ++ stripSlash virtualName)
      else
        .ok
          { directory := directory
            file := file
            basename := if file.isSome then some remainder else none }
    | .ok (some subdirName, remainder) =>
      match get this.directories subdirName with
      | none => .error (lit "Virtual directory not found: " ++ stripSlash virtualName)
      | some subdir =>
        if !canAccess inRole subdir then
          .error (lit "Virtual directory not found: " ++ stripSlash virtualName)
        else
          match get subdir.files remainder with
          | some file =>
            .ok { directory := some subdir, file := some file, basename := some remainder }
          | none => resolvePath remainder inRole subdir
termination_by virtualName.length
decreasing_by exact Nat.lt_of_lt_of_le (splitPath_length_lt _h) (stripSlash_length_le virtualName)

end HdfStream.Virtual
