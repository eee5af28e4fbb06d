/-
# Binary trees with pointers to the children and to the parent

The cells of a tree in a heap: every node has the addresses of its children and of its parent.
`cells q t` are those of a tree whose root has the parent `q`; `around c path` are those of the
ancestors of a place and of what hangs on them, when `c` is the address of the subtree at the
place.  A tree around a place is the sum of the two (`cells_plug`), so that a program that works at
a place leaves the rest of the sum alone.

Two writes occur when a subtree gets another place: its root gets another parent (`reparent`), and
the ancestor gets another child (`rechild`).
-/
import HdfStream.Lib.Cells
import HdfStream.Lib.Zipper

namespace LinkedTree

open Cells Zipper

variable {π δ : Type*}

/-! ## 1. The pointers of a node -/

/-- What a node holds. -/
structure Links (π δ : Type*) where
  data : δ
  left : Option π
  right : Option π
  parent : Option π

namespace Links

/-- The child on a side. -/
def child (l : Links π δ) : Dir → Option π
  | .left => l.left
  | .right => l.right

def setChild (d : Dir) (c : Option π) (l : Links π δ) : Links π δ :=
  match d with
  | .left => { l with left := c }
  | .right => { l with right := c }

def setParent (q : Option π) (l : Links π δ) : Links π δ := { l with parent := q }

def setData (x : δ) (l : Links π δ) : Links π δ := { l with data := x }

/-- The child `old` becomes `new`; the side `d` is looked at first. -/
def replaceChild [DecidableEq π] (d : Dir) (old new : Option π) (l : Links π δ) : Links π δ :=
  if l.child d = old then l.setChild d new else l.setChild d.opp new

/-- With the child `a` on the side `d`, and `b` on the other. -/
def toward (d : Dir) (x : δ) (a b q : Option π) : Links π δ :=
  match d with
  | .left => ⟨x, a, b, q⟩
  | .right => ⟨x, b, a, q⟩

variable (d : Dir) (x y : δ) (a b c q q' : Option π)

theorem toward_opp : toward d.opp x a b q = toward d x b a q := by
  cases d <;> rfl

@[simp] theorem child_toward : (toward d x a b q).child d = a := by
  cases d <;> rfl

@[simp] theorem child_opp_toward : (toward d x a b q).child d.opp = b := by
  cases d <;> rfl

@[simp] theorem parent_toward : (toward d x a b q).parent = q := by
  cases d <;> rfl

@[simp] theorem data_toward : (toward d x a b q).data = x := by
  cases d <;> rfl

@[simp] theorem setChild_toward : (toward d x a b q).setChild d c = toward d x c b q := by
  cases d <;> rfl

@[simp] theorem setChild_opp_toward : (toward d x a b q).setChild d.opp c = toward d x a c q := by
  cases d <;> rfl

@[simp] theorem setParent_toward : (toward d x a b q).setParent q' = toward d x a b q' := by
  cases d <;> rfl

@[simp] theorem setData_toward : (toward d x a b q).setData y = toward d y a b q := by
  cases d <;> rfl

/-- Only one child is the old one. -/
theorem replaceChild_toward [DecidableEq π] (e : Dir) (hb : b ≠ a) :
    (toward d x a b q).replaceChild e a c = toward d x c b q := by
  rw [replaceChild]
  by_cases he : e = d
  · subst he
    rw [child_toward, if_pos rfl, setChild_toward]
  · -- the child on the other side is looked at first
    have hopp : e = d.opp := by
      revert he
      cases e <;> cases d <;> simp [Dir.opp]
    subst hopp
    rw [child_opp_toward, if_neg hb, Dir.opp_opp, setChild_toward]

end Links

/-! ## 2. The cells of a tree -/

/-- The address of the root. -/
def top : BinaryTree (π × δ) → Option π
  | .nil => none
  | .node e _ _ => some e.1

/-- The address of the nearest ancestor. -/
def above : List (Frame (π × δ)) → Option π
  | [] => none
  | f :: _ => some f.value.1

/-- The cells of a tree whose root has the parent `q`. -/
def cells (q : Option π) : BinaryTree (π × δ) → Multiset (π × Links π δ)
  | .nil => 0
  | .node e l r => {(e.1, ⟨e.2, top l, top r, q⟩)} + (cells (some e.1) l + cells (some e.1) r)

/-- The cells of the ancestors of a place, and of what hangs on them. -/
def around (c : Option π) : List (Frame (π × δ)) → Multiset (π × Links π δ)
  | [] => 0
  | f :: path =>
    {(f.value.1, Links.toward f.dir f.value.2 c (top f.sibling) (above path))} +
      (cells (some f.value.1) f.sibling + around (some f.value.1) path)

@[simp] theorem top_join (d : Dir) (e : π × δ) (t u : BinaryTree (π × δ)) :
    top (join d e t u) = some e.1 := by
  cases d <;> rfl

theorem top_fill (f : Frame (π × δ)) (t : BinaryTree (π × δ)) : top (f.fill t) = some f.value.1 :=
  top_join _ _ _ _

theorem cells_join (q : Option π) (d : Dir) (e : π × δ) (t u : BinaryTree (π × δ)) :
    cells q (join d e t u) =
      {(e.1, Links.toward d e.2 (top t) (top u) q)} +
        (cells (some e.1) t + cells (some e.1) u) := by
  cases d with
  | left => rfl
  | right => rw [join, cells, Links.toward, add_comm (cells _ t)]

/-- **The cells of a tree around a place.** -/
theorem cells_plug (t : BinaryTree (π × δ)) (path : List (Frame (π × δ))) :
    cells none (plug t path) = cells (above path) t + around (top t) path := by
  induction path generalizing t with
  | nil => rw [plug, above, around, add_zero]
  | cons f path ih =>
    rw [plug, ih, top_fill, Frame.fill, cells_join, around, above]
    abel

theorem addrs_cells (q : Option π) (t : BinaryTree (π × δ)) :
    addrs (cells q t) = ((inorder t).map Prod.fst : List π) := by
  induction t generalizing q with
  | nil => rfl
  | node e l r ihl ihr =>
    rw [cells, addrs_add, addrs_add, addrs_singleton, ihl, ihr, inorder, List.map_append,
      List.map_cons, ← Multiset.coe_add, ← Multiset.cons_coe, ← Multiset.singleton_add]
    abel

theorem top_mem_addrs {t : BinaryTree (π × δ)} {p : π} (h : top t = some p) (q : Option π) :
    p ∈ addrs (cells q t) := by
  cases t with
  | nil => cases h
  | node e l r =>
    cases h
    rw [cells, addrs_add, addrs_singleton]
    exact Multiset.mem_add.mpr (Or.inl (Multiset.mem_singleton_self _))

theorem above_mem_addrs {path : List (Frame (π × δ))} {p : π} (h : above path = some p)
    (c : Option π) : p ∈ addrs (around c path) := by
  cases path with
  | nil => cases h
  | cons f path =>
    cases h
    rw [around, addrs_add, addrs_singleton]
    exact Multiset.mem_add.mpr (Or.inl (Multiset.mem_singleton_self _))

/-- The root stays the same when something below it changes. -/
theorem top_plug_cons (t u : BinaryTree (π × δ)) (f : Frame (π × δ)) (path : List (Frame (π × δ))) :
    top (plug t (f :: path)) = top (plug u (f :: path)) := by
  induction path generalizing t u f with
  | nil => exact (top_fill f t).trans (top_fill f u).symm
  | cons g path ih => exact ih (f.fill t) (f.fill u) g

theorem top_plug_congr {t u : BinaryTree (π × δ)} (h : top t = top u)
    (path : List (Frame (π × δ))) : top (plug t path) = top (plug u path) := by
  cases path with
  | nil => exact h
  | cons f path => exact top_plug_cons t u f path

theorem top_mem {t : BinaryTree (π × δ)} {p : π} (h : top t = some p) :
    p ∈ (inorder t).map Prod.fst := by
  cases t with
  | nil => cases h
  | node e l r =>
    cases h
    exact List.mem_map_of_mem (List.mem_append_right _ List.mem_cons_self)

/-- A tree of different nodes in a heap. -/
structure IsTree (m : π → Option (Links π δ)) (t : BinaryTree (π × δ)) : Prop where
  holds : Holds m (cells none t)
  nodup : ((inorder t).map Prod.fst).Nodup

namespace IsTree

variable {m : π → Option (Links π δ)} {t l r : BinaryTree (π × δ)} {e : π × δ}
  {path : List (Frame (π × δ))}

/-- The pointers at a place. -/
theorem load (h : IsTree m (plug (.node e l r) path)) :
    m e.1 = some ⟨e.2, top l, top r, above path⟩ := by
  have hholds := h.holds
  rw [cells_plug, cells, add_assoc] at hholds
  exact hholds.load

/-- The pointers of the ancestor. -/
theorem load_above {f : Frame (π × δ)} (h : IsTree m (plug t (f :: path))) :
    m f.value.1 = some (Links.toward f.dir f.value.2 (top t) (top f.sibling) (above path)) := by
  rw [plug, Frame.fill] at h
  cases hd : f.dir with
  | left =>
    rw [hd] at h
    exact load h
  | right =>
    rw [hd] at h
    exact load h

/-- What is at a place is not above it. -/
theorem disjoint (h : IsTree m (plug t path)) {p : π} (hp : p ∈ (inorder t).map Prod.fst) :
    p ∉ (context path).map Prod.fst := by
  have hnodup := (((inorder_plug_perm t path).map Prod.fst).nodup_iff).mp h.nodup
  rw [List.map_append] at hnodup
  exact fun hp' => List.disjoint_of_nodup_append hnodup hp hp'

/-- A node is not the root of a subtree below it. -/
theorem top_ne_root {path' : List (Frame (π × δ))} (h : IsTree m (plug t (path' ++ path)))
    (hplug : plug t path' = .node e l r) (hne : path' ≠ []) : top t ≠ some e.1 := by
  intro ht
  refine h.disjoint (top_mem ht) (List.mem_map_of_mem ?_)
  rw [context_append]
  exact List.mem_append_left _ (root_mem_context hplug hne)

/-- A subtree below the root has another root. -/
theorem top_ne_top {f : Frame (π × δ)} {p : π} (h : IsTree m (plug t (f :: path)))
    (ht : top t = some p) : top (plug t (f :: path)) ≠ some p := by
  intro htop
  cases hplug : plug t (f :: path) with
  | nil =>
    rw [hplug] at htop
    cases htop
  | node e' l' r' =>
    rw [hplug] at htop
    have h' : IsTree m (plug t ((f :: path) ++ [])) := by rwa [List.append_nil]
    exact top_ne_root h' hplug (List.cons_ne_nil _ _) (ht.trans htop.symm)

/-- The root of a subtree is not the root of the subtree beside it. -/
theorem top_ne_sibling {f : Frame (π × δ)} (h : IsTree m (plug t (f :: path))) {p : π}
    (ht : top t = some p) : top f.sibling ≠ some p := by
  intro hs
  refine h.disjoint (top_mem ht) ?_
  rw [context, List.map_cons, List.map_append]
  exact List.mem_cons_of_mem _ (List.mem_append_left _ (top_mem hs))

end IsTree

theorem isTree_of_exactly {m : π → Option (Links π δ)} {t : BinaryTree (π × δ)}
    (h : Exactly m (cells none t)) : IsTree m t := by
  refine ⟨h.holds, ?_⟩
  have hnodup := h.nodup
  rwa [addrs_cells, Multiset.coe_nodup] at hnodup

/-! ## 3. Another place for a subtree -/

section Writes

variable [DecidableEq π] {m : π → Option (Links π δ)} {R : Multiset (π × Links π δ)}

/-- **Another parent for the root of a subtree.** -/
theorem reparent {t : BinaryTree (π × δ)} {q : Option π} (h : Exactly m (cells q t + R))
    (q' : Option π) :
    Exactly (modifyIf m (top t) (Links.setParent q')) (cells q' t + R) := by
  cases t with
  | nil => exact h
  | node e l r =>
    rw [cells, add_assoc] at h ⊢
    exact h.modify _

/-- **Another child for the ancestor.** -/
theorem rechild {path : List (Frame (π × δ))} {p : π} (h : Exactly m (around (some p) path + R))
    (hp : p ∈ addrs R) (d : Dir) (c : Option π) :
    Exactly (modifyIf m (above path) (Links.replaceChild d (some p) c))
      (around c path + R) := by
  cases path with
  | nil => exact h
  | cons f path =>
    rw [around, add_assoc] at h ⊢
    have hne : top f.sibling ≠ some p := by
      intro htop
      have hnodup := h.nodup
      rw [addrs_add, addrs_add, addrs_add] at hnodup
      rw [Multiset.nodup_add] at hnodup
      have hrest := (Multiset.nodup_add.mp hnodup.2.1).2.2
      exact Multiset.disjoint_left.mp hrest
        (Multiset.mem_add.mpr (Or.inl (top_mem_addrs htop _))) hp
    have hmod := h.modify (Links.replaceChild d (some p) c)
    rwa [Links.replaceChild_toward _ _ _ _ _ _ _ hne] at hmod

end Writes

end LinkedTree
