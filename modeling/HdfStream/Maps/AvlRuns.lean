/-
# Runs of the AVL tree

Calls of `avltree_add_node` and `avltree_delete_node` in any order, from the empty tree.  A call
that adds a key carries the address that `malloc` returns, and has no result if that address is in
use.  As long as the loops have more passes than there are calls, every run goes through trees:
what the heap represents is what the calls make of the empty tree (`run_represents`).
-/
import HdfStream.Lib.Machine
import HdfStream.Maps.Updates

namespace HdfStream.Maps

open Cells Zipper LinkedTree

variable {π κ ν : Type}

/-! ## 1. Calls -/

inductive Call (π κ ν : Type) where
  | addNode (fresh : π) (key : κ) (val : ν)
  | deleteNode (key : κ)

/-- What a call makes of the heap. -/
def exec [DecidableEq π] (cmpfunc : κ → κ → Int) (passes : Nat) (tree : AvlTree π κ ν) :
    Call π κ ν → Option (AvlTree π κ ν)
  | .addNode fresh key val => (avltreeAddNode cmpfunc passes tree fresh key val).map Prod.snd
  | .deleteNode key => (avltreeDeleteNode cmpfunc passes tree key).map Prod.snd

def avlMachine (π κ ν : Type) [DecidableEq π] (cmpfunc : κ → κ → Int) (passes : Nat) :
    Machine (AvlTree π κ ν) (Call π κ ν) where
  init := avltreeNew
  exec := exec cmpfunc passes

/-- What a call makes of the tree. -/
def Call.onTree (cmpfunc : κ → κ → Int) (t : BinaryTree (π × κ × ν)) :
    Call π κ ν → BinaryTree (π × κ × ν)
  | .addNode fresh key val =>
    match (locate (against cmpfunc key) t []).1 with
    | .nil => addTree cmpfunc fresh key val t
    | .node .. => t
  | .deleteNode key =>
    match (locate (against cmpfunc key) t []).1 with
    | .nil => t
    | .node .. => deleteTree cmpfunc key t

/-- What calls make of the empty tree. -/
def treeOf (cmpfunc : κ → κ → Int) (calls : List (Call π κ ν)) : BinaryTree (π × κ × ν) :=
  calls.foldl (Call.onTree cmpfunc) .nil

/-! ## 2. The tree is determined by the heap -/

/-- Two trees in one heap with the same root are the same. -/
theorem cells_unique {δ : Type} {m : π → Option (Links π δ)} {t t' : BinaryTree (π × δ)}
    {q q' : Option π} (h : Holds m (cells q t)) (h' : Holds m (cells q' t'))
      (htop : top t = top t') :
    t = t' := by
  induction t generalizing t' q q' with
  | nil =>
    cases t' with
    | nil => rfl
    | node e' l' r' => cases htop
  | node e l r ihl ihr =>
    cases t' with
    | nil => cases htop
    | node e' l' r' =>
      have haddr : e.1 = e'.1 := Option.some.inj htop
      have hload := h.load
      rw [haddr, Holds.load h', Option.some.injEq, Links.mk.injEq] at hload
      obtain ⟨hdata, hleft, hright, -⟩ := hload
      rw [ihl h.right.left (Holds.right h').left hleft.symm,
        ihr h.right.right (Holds.right h').right hright.symm, Prod.ext haddr hdata.symm]

theorem Represents.unique {tree : AvlTree π κ ν} {t t' : BinaryTree (π × κ × ν)}
    {K K' : List (π × Unit)} (h : Represents tree t K) (h' : Represents tree t' K') : t = t' :=
  cells_unique h.hasTree.holds h'.hasTree.holds (h.root.symm.trans h'.root)

/-! ## 3. What the calls do -/

section Runs

variable {cmpfunc : κ → κ → Int} {passes : Nat} {t : BinaryTree (π × κ × ν)}

theorem numNodes_addTree {p : π} {k : κ} {v : ν}
    (hnew : (locate (against cmpfunc k) t []).1 = .nil) :
    (addTree cmpfunc p k v t).numNodes = t.numNodes + 1 := by
  have hplug := congrArg BinaryTree.numNodes (plug_locate (against cmpfunc k) t [])
  rw [hnew, numNodes_plug, plug, BinaryTree.numNodes] at hplug
  rw [addTree, numNodes_eq_of_inorder (inorder_rebuild _ _), numNodes_plug, BinaryTree.numNodes,
    BinaryTree.numNodes]
  omega

theorem numNodes_deleteTree {k : κ} {e : π × κ × ν} {l r : BinaryTree (π × κ × ν)}
    (hfound : (locate (against cmpfunc k) t []).1 = .node e l r) :
    (deleteTree cmpfunc k t).numNodes + 1 = t.numNodes := by
  have hplug := congrArg BinaryTree.numNodes (plug_locate (against cmpfunc k) t [])
  have hrem := numNodes_removal e l r
  rw [hfound, numNodes_plug, plug] at hplug
  rw [deleteTree, hfound, numNodes_eq_of_inorder (inorder_deleteAt _ _), numNodes_plug]
  omega

/-- A call adds one node at most. -/
theorem Call.numNodes_onTree (c : Call π κ ν) :
    (c.onTree cmpfunc t).numNodes ≤ t.numNodes + 1 := by
  cases c with
  | addNode p k v =>
    rw [onTree]
    split
    · rename_i hnew
      rw [numNodes_addTree hnew]
    · exact Nat.le_succ _
  | deleteNode k =>
    rw [onTree]
    split
    · exact Nat.le_succ _
    · rename_i hfound
      have hdel := numNodes_deleteTree hfound
      omega

variable [DecidableEq π] {tree tree' : AvlTree π κ ν} {K : List (π × Unit)} {c : Call π κ ν}

/-- **A call on the heap is the call on the tree.** -/
theorem exec_represents (h : Represents tree t K) (hpasses : t.numNodes + 1 < passes)
    (hexec : exec cmpfunc passes tree c = some tree') :
    ∃ K', Represents tree' (c.onTree cmpfunc t) K' := by
  cases c with
  | addNode p k v =>
    rw [exec, Option.map_eq_some_iff] at hexec
    obtain ⟨⟨err, tree₁⟩, hrun, rfl⟩ := hexec
    rw [Call.onTree]
    cases hnew : (locate (against cmpfunc k) t []).1 with
    | nil =>
      cases hp : tree.heap p with
      | none =>
        obtain ⟨tree₂, hrun₂, h₂⟩ := avltreeAddNode_represents (v := v) h hp hpasses hnew
        rw [hrun₂] at hrun
        cases hrun
        exact ⟨_, h₂⟩
      | some n =>
        rw [avltreeAddNode_used h (by omega) hnew hp] at hrun
        cases hrun
    | node e l r =>
      rw [avltreeAddNode_exists h (by omega) (by rw [hnew]; exact fun hnil => by cases hnil)]
        at hrun
      cases hrun
      exact ⟨K, h⟩
  | deleteNode k =>
    rw [exec, Option.map_eq_some_iff] at hexec
    obtain ⟨⟨val, tree₁⟩, hrun, rfl⟩ := hexec
    rw [Call.onTree]
    cases hfound : (locate (against cmpfunc k) t []).1 with
    | nil =>
      rw [avltreeDeleteNode_absent h (by omega) hfound] at hrun
      cases hrun
      exact ⟨K, h⟩
    | node e l r =>
      obtain ⟨tree₂, K₂, hrun₂, h₂⟩ := avltreeDeleteNode_represents h (by omega : _ < passes) hfound
      rw [hrun₂] at hrun
      cases hrun
      exact ⟨K₂, h₂⟩

/-- **What the heap represents after a run.** -/
theorem run_represents : ∀ (calls : List (Call π κ ν)) (tree : AvlTree π κ ν),
    (avlMachine π κ ν cmpfunc passes).run calls = some tree → calls.length + 1 < passes →
      (treeOf cmpfunc calls).numNodes ≤ calls.length ∧
        ∃ K, Represents tree (treeOf cmpfunc calls) K := by
  refine Machine.run_induction _
    (I := fun calls tree => calls.length + 1 < passes →
      (treeOf cmpfunc calls).numNodes ≤ calls.length ∧
        ∃ K, Represents tree (treeOf cmpfunc calls) K) ?_ ?_
  · exact fun _ => ⟨Nat.le_refl 0, [], represents_new⟩
  · intro calls tree c tree' _ ih hexec hpasses
    rw [List.length_append, List.length_singleton] at hpasses ⊢
    obtain ⟨hsize, K, h⟩ := ih (by omega)
    have hone : treeOf cmpfunc (calls ++ [c]) = c.onTree cmpfunc (treeOf cmpfunc calls) := by
      rw [treeOf, List.foldl_append]
      rfl
    have hle : (c.onTree cmpfunc (treeOf cmpfunc calls)).numNodes ≤ _ := c.numNodes_onTree
    rw [hone]
    exact ⟨by omega, exec_represents h (by omega) hexec⟩

end Runs

end HdfStream.Maps
