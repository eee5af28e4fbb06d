/-
# Roles and subdirectories

A directory copies the roles of its parent when it is made (`newDirectory`), and a later line may
give the parent more roles.  The line adds them to the directory of its path and to nothing below
it, so the tree keeps the rule that a subdirectory requires what its parent requires (`Inherits`) as
long as every such line names only roles that the subdirectories already there require
(`AddsNothingNew`), and breaks it at the first line that does not (`inherits_iff`).
-/
import HdfStream.Virtual.Growth

namespace HdfStream.Virtual

open Java LinkedMap

/-! ## 1. The rule -/

/-- The subdirectories require the roles of the directory. -/
def Inherits (d : VirtualDirectory) : Prop :=
  ∀ c ∈ d.directories, ∀ role ∈ d.requiredRoles, role ∈ c.2.requiredRoles

/-- The roles of the line are not new to the subdirectories of its directory. -/
def RolesKnown (line : Line) (names : List JString) (d : VirtualDirectory) : Prop :=
  line.isDirectory = true → ∀ s, directoryAt d names = some s →
    ∀ c ∈ s.directories, ∀ role ∈ line.requiredRoles, role ∈ c.2.requiredRoles

theorem Subdirectory.inherits {d sub : VirtualDirectory} {name : JString}
    (hsub : Subdirectory d name sub) (hd : Inherits d) :
    ∀ role ∈ d.requiredRoles, role ∈ sub.requiredRoles := by
  cases hsub with
  | old hsub => exact hd _ (mem_of_get hsub)
  | new virtualPath _ _ => exact fun role hrole => hrole

theorem inherits_newDirectory (d : VirtualDirectory) (virtualPath : JString)
    (roles : List JString) :
    Inherits (newDirectory d virtualPath roles) := fun c hc => by cases hc

/-- A subdirectory that requires what its parent requires may be put back. -/
theorem Inherits.putDirectory {d sub : VirtualDirectory} (hd : Inherits d) (name : JString)
    (hsub : ∀ role ∈ d.requiredRoles, role ∈ sub.requiredRoles) :
    Inherits (putDirectory name sub d) := by
  intro c hc role hrole
  rw [VirtualDirectory.directories, children_putDirectory] at hc
  rw [VirtualDirectory.requiredRoles, val_putDirectory] at hrole
  rcases mem_put hc with rfl | hc
  · exact hsub role hrole
  · exact hd c hc role hrole

/-- **A line keeps the rule** if its roles are not new to the subdirectories. -/
theorem Added.inherits {line : Line} {names : List JString} {d d' : VirtualDirectory}
    (h : Added line names d d') (hknown : RolesKnown line names d) (hd : d.All Inherits) :
    d'.All Inherits := by
  induction h with
  | @directory d sub sub' name hdir hfile hsub hpath =>
    obtain ⟨hchildren, _, hroles⟩ := requireRoles_ok hpath line.requiredRoles
    have hall := hsub.all hd fun virtualPath => inherits_newDirectory d virtualPath []
    have hinherits : Inherits (requireRoles line.requiredRoles sub') := by
      intro c hc role hrole
      rw [VirtualDirectory.directories, hchildren] at hc
      rcases (hroles role).mp hrole with hline | hold
      · have hself : directoryAt sub [] = some sub := rfl
        rcases hsub.directoryAt hself with hs | ⟨_, _, hnone, _⟩
        · exact hknown hdir sub hs c hc role hline
        · rw [hnone] at hc
          cases hc
      · exact hall.root c hc role hold
    refine all_putDirectory hd (all_of_children hall hchildren hinherits) ?_
    exact hd.root.putDirectory name fun role hrole =>
      (hroles role).mpr (.inr (hsub.inherits hd.root role hrole))
  | @file d name hdir hfile hsub =>
    refine all_of_children hd (children_putFile _ _ _) fun c hc role hrole => ?_
    rw [VirtualDirectory.directories, children_putFile] at hc
    rw [requiredRoles_putFile] at hrole
    exact hd.root c hc role hrole
  | @descend d sub sub' name names hsub h ih =>
    have hknown' : RolesKnown line names sub := by
      intro hdir s hs c hc
      rcases hsub.directoryAt hs with hs | ⟨_, _, hnone, _⟩
      · exact hknown hdir s hs c hc
      · rw [VirtualDirectory.directories, hnone] at hc
        cases hc
    refine all_putDirectory hd
      (ih hknown' (hsub.all hd fun virtualPath => inherits_newDirectory d virtualPath [])) ?_
    exact hd.root.putDirectory name fun role hrole => by
      rw [h.requiredRoles_eq]
      exact hsub.inherits hd.root role hrole

/-- A directory line for a directory that is there: more roles, and nothing else below. -/
theorem Added.amended {line : Line} {names : List JString} {d d' s : VirtualDirectory}
    (h : Added line names d d') (hdir : line.isDirectory = true)
    (hs : directoryAt d names = some s) :
    ∃ s', directoryAt d' names = some s' ∧ s'.children = s.children ∧
      ∀ role ∈ line.requiredRoles, role ∈ s'.requiredRoles := by
  induction h with
  | @directory d sub sub' name _ hfile hsub hpath =>
    obtain ⟨hchildren, _, hroles⟩ := requireRoles_ok hpath line.requiredRoles
    refine ⟨_, directoryAt_put_self _ _ _ [], ?_, fun role hrole => (hroles role).mpr (.inl hrole)⟩
    cases hsub with
    | old hsub =>
      rw [directoryAt_cons hsub] at hs
      cases hs
      exact hchildren
    | new virtualPath hsub _ =>
      rw [directoryAt_none hsub] at hs
      cases hs
  | file hfile => exact absurd hdir (Bool.eq_false_iff.mp hfile)
  | @descend d sub sub' name names hsub h ih =>
    rw [directoryAt_put_self]
    cases hsub with
    | old hsub => exact ih ((directoryAt_cons hsub names).symm.trans hs)
    | new virtualPath hsub _ =>
      rw [directoryAt_none hsub] at hs
      cases hs

/-! ## 2. A configuration -/

/-- The next line, on a tree: if it is for a directory that is there and has no metadata path yet,
it names only roles that the subdirectories of the directory require. -/
def AddsNothingNew (t : VirtualDirectory) (text : JString) : Prop :=
  ∀ names line s, names ≠ [] → (∀ n ∈ names, IsName n) →
    parseLine text = .ok (joinPath names, line) → line.isDirectory = true →
    directoryAt t names = some s → s.val.realPath = none →
    ∀ c ∈ s.directories, ∀ role ∈ line.requiredRoles, role ∈ c.2.requiredRoles

theorem inherits_newRoot : newRoot.All Inherits :=
  .node (fun c hc => by cases hc) fun c hc => by cases hc

/-- **Roles are inherited** after every line if and only if no line gives a directory a role that
one of its subdirectories does not require. -/
theorem inherits_iff (lines : List JString) :
    (∀ before t, before <+: lines → addFromReader before newRoot = .ok t → t.All Inherits) ↔
      ∀ before text t, before ++ [text] <+: lines → addFromReader before newRoot = .ok t →
        AddsNothingNew t text := by
  constructor
  · intro hall before text t hprefix ht names line s hne hn hparse hdir hs hreal
    obtain ⟨es, _, hbuilt⟩ := addFromReader_built ht
    -- the line is accepted, and after it the directory has its roles
    obtain ⟨t', hadd⟩ := @addFile_accepts line t names hne hn
      (fun ls hls => fileAt_of_directoryAt hbuilt.ok hs hls)
      (fun _ r hr => Option.some.inj (hs.symm.trans hr) ▸ hreal)
      (fun hfile => absurd (hfile.symm.trans hdir) Bool.false_ne_true)
    have ht' := hall _ t' hprefix (addFromReader_snoc.mpr ⟨t, _, line, ht, hparse, hadd⟩)
    obtain ⟨names', hne', hn', heq, hadded⟩ := addFile_added hadd
    have hnames := joinPath_inj hne hne' hn hn' heq
    subst hnames
    obtain ⟨s', hs', hchildren, hroles⟩ := hadded.amended hdir hs
    intro c hc role hrole
    refine (ht'.walk hs').root c ?_ role (hroles role hrole)
    rw [VirtualDirectory.directories, hchildren]
    exact hc
  · intro hline before
    induction before using List.reverseRecOn with
    | nil =>
      intro t _ ht
      cases ht
      exact inherits_newRoot
    | append_singleton before text ih =>
      intro t' hprefix ht'
      obtain ⟨t, path, line, ht, hparse, hadd⟩ := addFromReader_snoc.mp ht'
      have hbefore : t.All Inherits := ih t ((List.prefix_append _ _).trans hprefix) ht
      obtain ⟨names, hne, hn, rfl, hadded⟩ := addFile_added hadd
      refine hadded.inherits (fun hdir s hs => ?_) hbefore
      have hreal : s.val.realPath = none := by
        have hnone := (hadded.realPathAt_new hdir).1
        rwa [realPathAt, hs] at hnone
      exact hline before text t hprefix ht names line s hne hn hparse hdir hs hreal

/-- A directory with a subdirectory gets a role: the subdirectory does not. -/
theorem late_role_not_inherited :
    ∃ t, addFromReader [lit "a/b,x,0,0,directory", lit "a,,0,0,directory,r"] newRoot = .ok t ∧
      ¬ t.All Inherits := by
  have hrun : ((addFromReader [lit "a/b,x,0,0,directory", lit "a,,0,0,directory,r"]
      newRoot).toOption.map fun t => (directoryAt t [lit "a"]).map fun s =>
        (s.requiredRoles, s.directories.map fun c => c.2.requiredRoles)) =
      some (some ([lit "r"], [[]])) := by
    decide +kernel
  obtain ⟨t, ht, hroles⟩ := Option.map_eq_some_iff.mp hrun
  obtain ⟨s, hs, hroles⟩ := Option.map_eq_some_iff.mp hroles
  obtain ⟨hrequired, hbelow⟩ := Prod.mk.inj hroles
  refine ⟨t, ok_of_toOption ht, fun hall => ?_⟩
  have hmem : [] ∈ s.directories.map fun c => c.2.requiredRoles := by
    rw [hbelow]
    exact List.mem_singleton.mpr rfl
  obtain ⟨c, hc, hnone⟩ := List.mem_map.mp hmem
  have hrole := (hall.walk hs).root c hc (lit "r")
    (by rw [hrequired]; exact List.mem_singleton.mpr rfl)
  rw [hnone] at hrole
  cases hrole

end HdfStream.Virtual
