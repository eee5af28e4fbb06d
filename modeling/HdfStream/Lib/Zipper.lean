/-
# Binary trees with a place in them

A place in a binary tree is the subtree there and the path from it up to the root: a list of
frames, one for each ancestor, with the side that the path comes from, the value of the ancestor
and its other subtree.  `plug` puts the tree together again.

Left and right are the same but for the order of the values, so what is done on one side is done
with a direction: `join d a t u` has `t` on the side `d`.  A rotation keeps the values in order.
-/
import Mathlib.Data.List.Perm.Basic
import Mathlib.Data.Tree.Basic

namespace Zipper

variable {α : Type*}

/-! ## 1. Directions -/

/-- A side of a node. -/
inductive Dir where
  | left
  | right
deriving DecidableEq

/-- The other side. -/
def Dir.opp : Dir → Dir
  | .left => .right
  | .right => .left

@[simp] theorem Dir.opp_opp (d : Dir) : d.opp.opp = d := by
  cases d <;> rfl

/-- The node with `t` on the side `d`, and `u` on the other. -/
def join (d : Dir) (a : α) (t u : BinaryTree α) : BinaryTree α :=
  match d with
  | .left => .node a t u
  | .right => .node a u t

theorem join_opp (d : Dir) (a : α) (t u : BinaryTree α) : join d.opp a u t = join d a t u := by
  cases d <;> rfl

/-- A node, seen from a side. -/
theorem exists_join (d : Dir) (a : α) (l r : BinaryTree α) :
    ∃ t u, BinaryTree.node a l r = join d a t u := by
  cases d with
  | left => exact ⟨l, r, rfl⟩
  | right => exact ⟨r, l, rfl⟩

/-- The subtree on a side. -/
def sub : Dir → BinaryTree α → BinaryTree α
  | .left => BinaryTree.left
  | .right => BinaryTree.right

theorem numNodes_join (d : Dir) (a : α) (t u : BinaryTree α) :
    (join d a t u).numNodes = t.numNodes + u.numNodes + 1 := by
  cases d with
  | left => rfl
  | right => rw [join, BinaryTree.numNodes, Nat.add_comm u.numNodes]

/-! ## 2. The values in order -/

/-- The values from left to right. -/
def inorder : BinaryTree α → List α
  | .nil => []
  | .node a l r => inorder l ++ a :: inorder r

theorem inorder_join_perm (d : Dir) (a : α) (t u : BinaryTree α) :
    (inorder (join d a t u)).Perm (a :: (inorder t ++ inorder u)) := by
  cases d with
  | left => exact List.perm_middle
  | right => exact List.perm_middle.trans (List.perm_append_comm.cons a)

theorem length_inorder (t : BinaryTree α) : (inorder t).length = t.numNodes := by
  induction t with
  | nil => rfl
  | node a l r ihl ihr =>
    rw [inorder, List.length_append, List.length_cons, ihl, ihr, BinaryTree.numNodes, Nat.add_assoc]

/-! ## 3. Places -/

/-- An ancestor: the path comes from the side `dir`, and `sibling` is on the other one. -/
structure Frame (α : Type*) where
  dir : Dir
  value : α
  sibling : BinaryTree α

/-- The ancestor with a subtree at the place. -/
def Frame.fill (f : Frame α) (t : BinaryTree α) : BinaryTree α := join f.dir f.value t f.sibling

/-- The tree with a subtree at the end of a path. -/
def plug (t : BinaryTree α) : List (Frame α) → BinaryTree α
  | [] => t
  | f :: path => plug (f.fill t) path

theorem plug_append (t : BinaryTree α) (path path' : List (Frame α)) :
    plug t (path ++ path') = plug (plug t path) path' := by
  induction path generalizing t with
  | nil => rfl
  | cons f path ih => exact ih (f.fill t)

/-- The values to the left of a place. -/
def before : List (Frame α) → List α
  | [] => []
  | f :: path =>
    match f.dir with
    | .left => before path
    | .right => before path ++ (inorder f.sibling ++ [f.value])

/-- The values to the right of a place. -/
def after : List (Frame α) → List α
  | [] => []
  | f :: path =>
    match f.dir with
    | .left => f.value :: inorder f.sibling ++ after path
    | .right => after path

/-- The values that are not in the subtree. -/
def context : List (Frame α) → List α
  | [] => []
  | f :: path => f.value :: (inorder f.sibling ++ context path)

theorem Frame.exists_fill (f : Frame α) (t : BinaryTree α) :
    ∃ l r, f.fill t = .node f.value l r := by
  obtain ⟨d, a, s⟩ := f
  cases d with
  | left => exact ⟨t, s, rfl⟩
  | right => exact ⟨s, t, rfl⟩

/-- Nothing is before the last place on the left. -/
theorem before_eq_nil {path : List (Frame α)} (h : ∀ f ∈ path, f.dir = .left) :
    before path = [] := by
  induction path with
  | nil => rfl
  | cons f path ih =>
    rw [before, h f List.mem_cons_self]
    exact ih fun g hg => h g (List.mem_cons_of_mem _ hg)

/-- Nothing is after the last place on the right. -/
theorem after_eq_nil {path : List (Frame α)} (h : ∀ f ∈ path, f.dir = .right) :
    after path = [] := by
  induction path with
  | nil => rfl
  | cons f path ih =>
    rw [after, h f List.mem_cons_self]
    exact ih fun g hg => h g (List.mem_cons_of_mem _ hg)

theorem context_append (path path' : List (Frame α)) :
    context (path ++ path') = context path ++ context path' := by
  induction path with
  | nil => rfl
  | cons f path ih =>
    rw [List.cons_append, context, context, ih, List.cons_append, List.append_assoc]

/-- **The values of a tree around a place.** -/
theorem inorder_plug (t : BinaryTree α) (path : List (Frame α)) :
    inorder (plug t path) = before path ++ inorder t ++ after path := by
  induction path generalizing t with
  | nil =>
    rw [plug, before, after, List.nil_append, List.append_nil]
  | cons f path ih =>
    rw [plug, ih, Frame.fill, before, after]
    cases f.dir with
    | left => simp only [join, inorder, List.append_assoc, List.cons_append]
    | right =>
      simp only [join, inorder, List.append_assoc, List.cons_append, List.nil_append]

/-- The same, in any order. -/
theorem inorder_plug_perm (t : BinaryTree α) (path : List (Frame α)) :
    (inorder (plug t path)).Perm (inorder t ++ context path) := by
  induction path generalizing t with
  | nil => rw [plug, context, List.append_nil]
  | cons f path ih =>
    refine (ih (f.fill t)).trans ?_
    refine ((inorder_join_perm f.dir f.value t f.sibling).append_right _).trans ?_
    rw [context, List.cons_append, List.append_assoc]
    exact List.perm_middle.symm

/-- The root of a tree is an ancestor of the other places. -/
theorem root_mem_context {t l r : BinaryTree α} {a : α} {path : List (Frame α)}
    (h : plug t path = .node a l r) (hne : path ≠ []) : a ∈ context path := by
  induction path generalizing t with
  | nil => exact absurd rfl hne
  | cons f path ih =>
    rw [context]
    rcases path with _ | ⟨g, path⟩
    · have ha : f.value = a := by
        rw [plug, plug, Frame.fill] at h
        cases hd : f.dir with
        | left =>
          rw [hd] at h
          exact (BinaryTree.node.inj h).1
        | right =>
          rw [hd] at h
          exact (BinaryTree.node.inj h).1
      exact ha ▸ List.mem_cons_self
    · exact List.mem_cons_of_mem _ (List.mem_append_right _ (ih h (List.cons_ne_nil _ _)))

theorem length_le_context (path : List (Frame α)) : path.length ≤ (context path).length := by
  induction path with
  | nil => exact Nat.le_refl 0
  | cons f path ih =>
    rw [context, List.length_cons, List.length_cons, List.length_append]
    omega

theorem numNodes_plug (t : BinaryTree α) (path : List (Frame α)) :
    (plug t path).numNodes = t.numNodes + (context path).length := by
  rw [← length_inorder, (inorder_plug_perm t path).length_eq, List.length_append, length_inorder]

/-! ## 4. Rotations -/

/-- The right child comes up. -/
def rotateLeft : BinaryTree α → BinaryTree α
  | .node x a (.node y b c) => .node y (.node x a b) c
  | t => t

/-- The left child comes up. -/
def rotateRight : BinaryTree α → BinaryTree α
  | .node x (.node y c b) a => .node y c (.node x b a)
  | t => t

/-- The root goes down on the side `d`. -/
def rotate : Dir → BinaryTree α → BinaryTree α
  | .left => rotateLeft
  | .right => rotateRight

/-- **A rotation keeps the order.** -/
theorem inorder_rotate (d : Dir) (t : BinaryTree α) : inorder (rotate d t) = inorder t := by
  cases d with
  | left =>
    rcases t with _ | ⟨x, a, _ | ⟨y, b, c⟩⟩
    · rfl
    · rfl
    · simp only [rotate, rotateLeft, inorder, List.append_assoc, List.cons_append]
  | right =>
    rcases t with _ | ⟨x, _ | ⟨y, c, b⟩, a⟩
    · rfl
    · rfl
    · simp only [rotate, rotateRight, inorder, List.append_assoc, List.cons_append]

end Zipper
