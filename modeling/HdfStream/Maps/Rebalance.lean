/-
# Rebalancing

What `rebalance` makes of a tree: at each ancestor of a place, from the nearest one up to the root,
the heights of the two subtrees decide about a rotation (`balanceAt`).  On the heap the loop does
just that (`rebalance_represents`), and the order of the values stays the same.
-/
import HdfStream.Maps.TreeState

namespace HdfStream.Maps

open Cells Zipper LinkedTree

/-! ## 1. Rebalancing trees -/

section Trees

variable {α : Type*}

/-- `node_height(node->right) - node_height(node->left)`. -/
def tilt : BinaryTree α → Int
  | .nil => 0
  | .node _ l r => (r.height : Int) - l.height

/-- What the body of the loop makes of a subtree. -/
def balanceAt : BinaryTree α → BinaryTree α
  | .nil => .nil
  | .node a l r =>
    if tilt (.node a l r) = 2 then
      if tilt r = 1 then Zipper.rotate .left (.node a l r)
      else if tilt r = -1 then Zipper.rotate .left (.node a l (Zipper.rotate .right r))
      else .node a l r
    else if tilt (.node a l r) = -2 then
      if tilt l = -1 then Zipper.rotate .right (.node a l r)
      else if tilt l = 1 then Zipper.rotate .right (.node a (Zipper.rotate .left l) r)
      else .node a l r
    else .node a l r

/-- The tree around a subtree, with the ancestors rebalanced. -/
def rebuild (t : BinaryTree α) : List (Frame α) → BinaryTree α
  | [] => t
  | f :: path => rebuild (balanceAt (f.fill t)) path

theorem inorder_balanceAt (t : BinaryTree α) : inorder (balanceAt t) = inorder t := by
  cases t with
  | nil => rfl
  | node a l r =>
    rw [balanceAt]
    split
    · split
      · exact inorder_rotate _ _
      · split
        · rw [inorder_rotate, inorder, inorder_rotate, inorder]
        · rfl
    · split
      · split
        · exact inorder_rotate _ _
        · split
          · rw [inorder_rotate, inorder, inorder_rotate, inorder]
          · rfl
      · rfl

/-- **Rebalancing keeps the order.** -/
theorem inorder_rebuild (t : BinaryTree α) (path : List (Frame α)) :
    inorder (rebuild t path) = inorder (plug t path) := by
  induction path generalizing t with
  | nil => rfl
  | cons f path ih =>
    rw [rebuild, ih, plug, inorder_plug, inorder_plug, inorder_balanceAt]

theorem numNodes_eq_of_inorder {t u : BinaryTree α} (h : inorder t = inorder u) :
    t.numNodes = u.numNodes := by
  rw [← length_inorder, h, length_inorder]

end Trees

/-! ## 2. Rebalancing on the heap -/

variable {π κ ν : Type} [DecidableEq π] {tree : AvlTree π κ ν} {K : List (π × Unit)}
  {x : π × κ × ν} {t l r : BinaryTree (π × κ × ν)} {path : List (Frame (π × κ × ν))} {passes : Nat}

/-- The difference that the code computes. -/
theorem balance_eq {heap : π → Option (Node π κ ν)} {n : Node π κ ν}
    (h : HasTree heap (plug (.node x l r) path)) (hleft : n.left = top l) (hright : n.right = top r)
    (hpasses : (BinaryTree.node x l r).numNodes < passes) :
    balance heap passes n = some (tilt (.node x l r)) := by
  rw [BinaryTree.numNodes] at hpasses
  have hr : HasTree heap (plug r (⟨.right, x, l⟩ :: path)) := h
  have hl : HasTree heap (plug l (⟨.left, x, r⟩ :: path)) := h
  obtain ⟨vr, hvr, -⟩ := nodeHeight_eq hr (by omega : _ < passes)
  obtain ⟨vl, hvl, -⟩ := nodeHeight_eq hl (by omega : _ < passes)
  rw [balance, hright, hvr, hleft]
  simp only [Option.bind_eq_bind, Option.bind_some, hvl]
  rfl

/-- One rotation at a node. -/
theorem rotate_left_represents {y : π × κ × ν} {b c : BinaryTree (π × κ × ν)}
    (h : Represents tree (plug (.node x l (.node y b c)) path) K) :
    ∃ tree', rotateLeft tree x.1 = some tree' ∧
      Represents tree' (plug (.node y (.node x l b) c) path) K :=
  rotate_represents (d := .left) h

theorem rotate_right_represents {y : π × κ × ν} {b c : BinaryTree (π × κ × ν)}
    (h : Represents tree (plug (.node x (.node y b c) r) path) K) :
    ∃ tree', rotateRight tree x.1 = some tree' ∧
      Represents tree' (plug (.node y b (.node x c r)) path) K :=
  rotate_represents (d := .right) h

/-- **The body of the loop.** -/
theorem rebalanceAt_represents (h : Represents tree (plug (.node x l r) path) K)
    (hpasses : (BinaryTree.node x l r).numNodes < passes) :
    ∃ tree', rebalanceAt passes tree x.1 = some tree' ∧
      Represents tree' (plug (balanceAt (.node x l r)) path) K := by
  obtain ⟨n, hn, -, -, hleft, hright, -⟩ := h.hasTree.load
  have hbalance := balance_eq h.hasTree hleft hright hpasses
  rw [BinaryTree.numNodes] at hpasses
  rw [rebalanceAt, balanceAt]
  simp only [hn, Option.bind_eq_bind, Option.bind_some, hbalance]
  by_cases hr : tilt (.node x l r) = 2
  · -- the right subtree is higher
    rw [if_pos hr, if_pos hr]
    cases r with
    | nil =>
      rw [tilt, BinaryTree.height] at hr
      omega
    | node y b c =>
      have h' : HasTree tree.heap (plug (.node y b c) (⟨.right, x, l⟩ :: path)) := h.hasTree
      obtain ⟨m, hm, -, -, hmleft, hmright, -⟩ := h'.load
      have hinner := balance_eq h' hmleft hmright (by omega : _ < passes)
      simp only [hright, top, hm, Option.bind_some, hinner]
      by_cases hone : tilt (.node y b c) = 1
      · rw [if_pos hone, if_pos hone]
        exact rotate_left_represents h
      · rw [if_neg hone, if_neg hone]
        by_cases hminus : tilt (.node y b c) = -1
        · rw [if_pos hminus, if_pos hminus]
          cases b with
          | nil =>
            rw [tilt, BinaryTree.height] at hminus
            omega
          | node z b₁ b₂ =>
            have hinnerTree : Represents tree
                (plug (.node y (.node z b₁ b₂) c) (⟨.right, x, l⟩ :: path)) K := h
            obtain ⟨tree₁, hrun₁, h₁⟩ := rotate_right_represents hinnerTree
            rw [hrun₁, Option.bind_some]
            exact rotate_left_represents h₁
        · rw [if_neg hminus, if_neg hminus]
          exact ⟨tree, rfl, h⟩
  · rw [if_neg hr, if_neg hr]
    by_cases hl : tilt (.node x l r) = -2
    · -- the left subtree is higher
      rw [if_pos hl, if_pos hl]
      cases l with
      | nil =>
        rw [tilt, BinaryTree.height] at hl
        omega
      | node y b c =>
        have h' : HasTree tree.heap (plug (.node y b c) (⟨.left, x, r⟩ :: path)) := h.hasTree
        obtain ⟨m, hm, -, -, hmleft, hmright, -⟩ := h'.load
        have hinner := balance_eq h' hmleft hmright (by omega : _ < passes)
        simp only [hleft, top, hm, Option.bind_some, hinner]
        by_cases hminus : tilt (.node y b c) = -1
        · rw [if_pos hminus, if_pos hminus]
          exact rotate_right_represents h
        · rw [if_neg hminus, if_neg hminus]
          by_cases hone : tilt (.node y b c) = 1
          · rw [if_pos hone, if_pos hone]
            cases c with
            | nil =>
              rw [tilt, BinaryTree.height] at hone
              omega
            | node z c₁ c₂ =>
              have hinnerTree : Represents tree
                  (plug (.node y b (.node z c₁ c₂)) (⟨.left, x, r⟩ :: path)) K := h
              obtain ⟨tree₁, hrun₁, h₁⟩ := rotate_left_represents hinnerTree
              rw [hrun₁, Option.bind_some]
              exact rotate_right_represents h₁
          · rw [if_neg hone, if_neg hone]
            exact ⟨tree, rfl, h⟩
    · rw [if_neg hl, if_neg hl]
      exact ⟨tree, rfl, h⟩

omit [DecidableEq π] in
theorem numNodes_balanceAt (t : BinaryTree (π × κ × ν)) (path : List (Frame (π × κ × ν))) :
    (plug (balanceAt t) path).numNodes = (plug t path).numNodes := by
  refine numNodes_eq_of_inorder ?_
  rw [inorder_plug, inorder_plug, inorder_balanceAt]

/-- **The loop** goes up to the root. -/
theorem rebalanceFrom_represents (h : Represents tree (plug t path) K) {fuel : Nat}
    (hpasses : (plug t path).numNodes < passes) (hfuel : path.length < fuel) :
    ∃ tree', rebalanceFrom passes fuel tree (above path) = some tree' ∧
      Represents tree' (rebuild t path) K := by
  induction path generalizing tree t fuel with
  | nil =>
    obtain ⟨fuel, rfl⟩ := Nat.exists_eq_succ_of_ne_zero (Nat.ne_zero_of_lt hfuel)
    exact ⟨tree, rfl, h⟩
  | cons f path ih =>
    obtain ⟨fuel, rfl⟩ := Nat.exists_eq_succ_of_ne_zero (Nat.ne_zero_of_lt hfuel)
    rw [plug] at h hpasses
    obtain ⟨l, r, hfill⟩ := f.exists_fill t
    rw [hfill] at h hpasses
    obtain ⟨n, hn, hparent⟩ := parent_eq h.hasTree
    have hsize := numNodes_plug (.node f.value l r) path
    obtain ⟨tree₁, hrun₁, h₁⟩ := rebalanceAt_represents h (by omega : _ < passes)
    obtain ⟨tree', hrun, h'⟩ := ih h₁ (by rwa [numNodes_balanceAt])
      (Nat.lt_of_succ_lt_succ hfuel)
    refine ⟨tree', ?_, ?_⟩
    · rw [above, rebalanceFrom, hn, Option.bind_eq_bind, Option.bind_some, hrun₁,
        Option.bind_eq_bind, Option.bind_some, hparent]
      exact hrun
    · rw [rebuild, hfill]
      exact h'

/-- **`rebalance`** begins at the parent of its node. -/
theorem rebalance_represents (h : Represents tree (plug (.node x l r) path) K)
    (hpasses : (plug (.node x l r) path).numNodes < passes) :
    ∃ tree', rebalance passes tree x.1 = some tree' ∧
      Represents tree' (rebuild (.node x l r) path) K := by
  obtain ⟨n, hn, hparent⟩ := parent_eq h.hasTree
  have hsize := numNodes_plug (.node x l r) path
  have hlen := length_le_context path
  obtain ⟨tree', hrun, h'⟩ := rebalanceFrom_represents h hpasses (by omega : _ < passes)
  refine ⟨tree', ?_, h'⟩
  rw [rebalance, hn, Option.bind_eq_bind, Option.bind_some, hparent]
  exact hrun

end HdfStream.Maps
