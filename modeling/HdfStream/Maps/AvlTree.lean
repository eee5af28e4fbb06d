/-
# The AVL tree

`avltree.c` on a heap of nodes.  A node has pointers to its children and to its parent, and `next`
and `prev` in the chain of all nodes in the order of their allocation, which `avltree_free` goes
along.  A step that goes through a pointer that is null, or to a node that is not there, has no
result (`none`).

The loops of the source are bounded by a number of passes; one that needs more has no result
either.  What `malloc` returns is an argument: an address that is not in use.
-/
import HdfStream.Lib.LinkedTree

namespace HdfStream.Maps

open Cells Zipper

variable {π κ ν : Type} [DecidableEq π]

/-! ## 1. Nodes and trees -/

/-- `struct node`.  A null pointer is `none`. -/
structure Node (π κ ν : Type) where
  key : κ
  val : ν
  left : Option π
  right : Option π
  parent : Option π
  next : Option π
  prev : Option π

/-- `node->left` or `node->right`. -/
def Node.child (n : Node π κ ν) : Dir → Option π
  | .left => n.left
  | .right => n.right

def Node.setChild (d : Dir) (c : Option π) (n : Node π κ ν) : Node π κ ν :=
  match d with
  | .left => { n with left := c }
  | .right => { n with right := c }

def Node.setParent (q : Option π) (n : Node π κ ν) : Node π κ ν := { n with parent := q }

/-- `struct tree`, with the nodes that it can reach. -/
structure AvlTree (π κ ν : Type) where
  heap : π → Option (Node π κ ν)
  root : Option π
  first : Option π
  prev : Option π

def avltreeNew : AvlTree π κ ν where
  heap := fun _ => none
  root := none
  first := none
  prev := none

/-- `new_node`.  The key and the value, null at first, are those that the caller stores before
anything reads them. -/
def newNode (tree : AvlTree π κ ν) (fresh : π) (key : κ) (val : ν) : Option (AvlTree π κ ν) := do
  let heap ← alloc tree.heap fresh
    { key := key, val := val, left := none, right := none, parent := none, next := none,
      prev := none }
  let heap ←
    match tree.prev with
    | none => some heap
    | some p => do
      let heap ← store heap p fun n => { n with next := some fresh }
      store heap fresh fun n => { n with prev := some p }
  return {
    heap := heap
    root := tree.root
    first := if tree.first = none then some fresh else tree.first
    prev := some fresh }

/-- `sibling`: the right child of the parent, for a left child. -/
def sibling (heap : π → Option (Node π κ ν)) (node : π) : Option (Option π) := do
  let n ← heap node
  match n.parent with
  | none => some none
  | some p => do
    let parent ← heap p
    return if parent.left = some node then parent.right else none

/-- `first_child`. -/
def firstChild (heap : π → Option (Node π κ ν)) (node : π) : Option (Option π) := do
  let n ← heap node
  return if n.left = none then n.right else n.left

/-! ## 2. Rotations -/

/-- `rotate_left` and `rotate_right`: the node goes down on the side `d`, and its other child comes
up. -/
def rotate (d : Dir) (tree : AvlTree π κ ν) (root : π) : Option (AvlTree π κ ν) := do
  let rootNode ← tree.heap root
  let pivot ← rootNode.child d.opp
  let parent := rootNode.parent
  let treeRoot := if some root = tree.root then some pivot else tree.root
  let pivotNode ← tree.heap pivot
  let heap ← store tree.heap root (Node.setChild d.opp (pivotNode.child d))
  let pivotNode ← heap pivot
  let heap ← storeIf heap (pivotNode.child d) (Node.setParent (some root))
  let heap ← store heap pivot (Node.setChild d (some root))
  let heap ← store heap root (Node.setParent (some pivot))
  let heap ← store heap pivot (Node.setParent parent)
  let heap ← storeIf heap parent fun n =>
    if n.child d = some root then n.setChild d (some pivot) else n.setChild d.opp (some pivot)
  return { tree with heap := heap, root := treeRoot }

def rotateLeft (tree : AvlTree π κ ν) (root : π) : Option (AvlTree π κ ν) :=
  rotate .left tree root

def rotateRight (tree : AvlTree π κ ν) (root : π) : Option (AvlTree π κ ν) :=
  rotate .right tree root

/-! ## 3. The height of a node -/

/-- The variables of the loops of `node_height`, and the values that `node` had. -/
structure Cursor (π : Type) where
  node : π
  height : Int
  maxheight : Int
  visited : List π

/-- `while(first_child(node))`. -/
def descend (heap : π → Option (Node π κ ν)) : Nat → Cursor π → Option (Cursor π)
  | 0, _ => none
  | passes + 1, c => do
    match ← firstChild heap c.node with
    | none => some c
    | some q =>
      descend heap passes
        { node := q
          height := c.height + 1
          maxheight := if c.height + 1 > c.maxheight then c.height + 1 else c.maxheight
          visited := c.visited ++ [q] }

/-- `while((!sibling(node)) && (node != root))`. -/
def climb (heap : π → Option (Node π κ ν)) (root : π) : Nat → Cursor π → Option (Cursor π)
  | 0, _ => none
  | passes + 1, c => do
    let s ← sibling heap c.node
    if s = none ∧ c.node ≠ root then do
      let p ← (← heap c.node).parent
      climb heap root passes
        { c with node := p, height := c.height - 1, visited := c.visited ++ [p] }
    else some c

/-- `while(node != root)`. -/
def traverse (heap : π → Option (Node π κ ν)) (root : π) (passes : Nat) :
    Nat → Cursor π → Option (Cursor π)
  | 0, _ => none
  | fuel + 1, c =>
    if c.node = root then some c
    else do
      let c ← descend heap passes c
      let c ← climb heap root passes c
      if c.node = root then traverse heap root passes fuel c
      else do
        let q ← ← sibling heap c.node
        traverse heap root passes fuel { c with node := q, visited := c.visited ++ [q] }

/-- `node_height`, and the nodes that it goes to. -/
def nodeHeight (heap : π → Option (Node π κ ν)) (passes : Nat) (root : Option π) :
    Option (Int × List π) :=
  match root with
  | none => some (0, [])
  | some root => do
    match ← firstChild heap root with
    | none => some (1, [root])
    | some q => do
      let c ← traverse heap root passes passes
        { node := q, height := 2, maxheight := 2, visited := [root, q] }
      return (c.maxheight, c.visited)

/-- `node_height(node->right) - node_height(node->left)`. -/
def balance (heap : π → Option (Node π κ ν)) (passes : Nat) (n : Node π κ ν) : Option Int := do
  let r ← nodeHeight heap passes n.right
  let l ← nodeHeight heap passes n.left
  return r.1 - l.1

/-! ## 4. Rebalancing -/

/-- The body of the loop of `rebalance`, after `next` is read. -/
def rebalanceAt (passes : Nat) (tree : AvlTree π κ ν) (root : π) : Option (AvlTree π κ ν) := do
  let n ← tree.heap root
  let b ← balance tree.heap passes n
  if b = 2 then do
    let r ← n.right
    let rb ← balance tree.heap passes (← tree.heap r)
    if rb = 1 then rotateLeft tree root
    else if rb = -1 then do
      let tree ← rotateRight tree r
      rotateLeft tree root
    else some tree
  else if b = -2 then do
    let l ← n.left
    let lb ← balance tree.heap passes (← tree.heap l)
    if lb = -1 then rotateRight tree root
    else if lb = 1 then do
      let tree ← rotateLeft tree l
      rotateRight tree root
    else some tree
  else some tree

/-- The loop of `rebalance`. -/
def rebalanceFrom (passes : Nat) : Nat → AvlTree π κ ν → Option π → Option (AvlTree π κ ν)
  | 0, _, _ => none
  | _ + 1, tree, none => some tree
  | fuel + 1, tree, some root => do
    let next := (← tree.heap root).parent
    let tree ← rebalanceAt passes tree root
    rebalanceFrom passes fuel tree next

/-- `rebalance`. -/
def rebalance (passes : Nat) (tree : AvlTree π κ ν) (node : π) : Option (AvlTree π κ ν) := do
  rebalanceFrom passes passes tree (← tree.heap node).parent

/-! ## 5. Looking up and adding -/

section Keys

variable (cmpfunc : κ → κ → Int)

/-- The loop that `avltree_lookup` and `avltree_delete_node` begin with: the node of a key. -/
def find (heap : π → Option (Node π κ ν)) (key : κ) : Nat → Option π → Option (Option π)
  | 0, _ => none
  | _ + 1, none => some none
  | passes + 1, some node => do
    let n ← heap node
    let iswitch := cmpfunc key n.key
    if iswitch < 0 then find heap key passes n.left
    else if iswitch > 0 then find heap key passes n.right
    else some (some node)

def avltreeLookup (passes : Nat) (tree : AvlTree π κ ν) (key : κ) : Option (Option ν) := do
  match ← find cmpfunc tree.heap key passes tree.root with
  | none => some none
  | some node => do
    let n ← tree.heap node
    return some n.val

/-- The loop of `avltree_add_node`: the node below which the key has its place, with the side, or
`none` if a node has it. -/
def findSlot (heap : π → Option (Node π κ ν)) (key : κ) : Nat → π → Option (Option (π × Dir))
  | 0, _ => none
  | passes + 1, node => do
    let n ← heap node
    let iswitch := cmpfunc key n.key
    if iswitch < 0 then
      match n.left with
      | some q => findSlot heap key passes q
      | none => some (some (node, .left))
    else if iswitch > 0 then
      match n.right with
      | some q => findSlot heap key passes q
      | none => some (some (node, .right))
    else some none

/-- `avltree_add_node`: 0, or 1 if the key is there already. -/
def avltreeAddNode (passes : Nat) (tree : AvlTree π κ ν) (fresh : π) (key : κ) (val : ν) :
    Option (Int × AvlTree π κ ν) :=
  match tree.root with
  | some root => do
    match ← findSlot cmpfunc tree.heap key passes root with
    | none => some (1, tree)
    | some (node, d) => do
      let tree ← newNode tree fresh key val
      let heap ← store tree.heap node (Node.setChild d (some fresh))
      let heap ← store heap fresh (Node.setParent (some node))
      let tree ← rebalance passes { tree with heap := heap } fresh
      return (0, tree)
  | none => do
    let tree ← newNode tree fresh key val
    return (0, { tree with root := some fresh })

end Keys

/-! ## 6. Deleting -/

/-- `dealloc_node`: a node leaves the chain, and its memory is free. -/
def deallocNode (tree : AvlTree π κ ν) (node : π) : Option (AvlTree π κ ν) := do
  let n ← tree.heap node
  let heap ← storeIf tree.heap n.prev fun m => { m with next := n.next }
  let n' ← heap node
  let heap ← storeIf heap n'.next fun m => { m with prev := n'.prev }
  let heap ← free heap node
  return {
    heap := heap
    root := tree.root
    first := if some node = tree.first then n.next else tree.first
    prev := if some node = tree.prev then n.prev else tree.prev }

/-- `while(replace->right) replace = replace->right`, or the same to the left. -/
def extreme (heap : π → Option (Node π κ ν)) (d : Dir) : Nat → π → Option π
  | 0, _ => none
  | passes + 1, replace => do
    let n ← heap replace
    match n.child d with
    | none => some replace
    | some q => extreme heap d passes q

/-- A node gets the key and the value of the largest node of its left subtree, or of the smallest
one of its right subtree, and that node is removed. -/
def replaceFrom (passes : Nat) (d : Dir) (tree : AvlTree π κ ν) (target : π) :
    Option (AvlTree π κ ν) := do
  let child ← (← tree.heap target).child d
  let replace ← extreme tree.heap d.opp passes child
  let r ← tree.heap replace
  let heap ← store tree.heap target fun n => { n with key := r.key, val := r.val }
  let r ← heap replace
  let parent ← r.parent
  let heap ← store heap parent
    (if parent = target then Node.setChild d (r.child d) else Node.setChild d.opp (r.child d))
  let r ← heap replace
  let heap ← storeIf heap (r.child d) (Node.setParent r.parent)
  deallocNode { tree with heap := heap } replace

/-- A node without children is removed. -/
def removeLeaf (tree : AvlTree π κ ν) (target : π) : Option (AvlTree π κ ν) := do
  if some target ≠ tree.root then do
    let parent ← (← tree.heap target).parent
    let heap ← store tree.heap parent fun n =>
      if n.left = some target then n.setChild .left none else n.setChild .right none
    deallocNode { tree with heap := heap } target
  else deallocNode { tree with root := none } target

/-- `avltree_delete_node`: the value of the key, if it is there. -/
def avltreeDeleteNode (cmpfunc : κ → κ → Int) (passes : Nat) (tree : AvlTree π κ ν) (key : κ) :
    Option (Option ν × AvlTree π κ ν) := do
  match ← find cmpfunc tree.heap key passes tree.root with
  | none => some (none, tree)
  | some target => do
    let n ← tree.heap target
    let tree ←
      if n.left ≠ none then replaceFrom passes .left tree target
      else if n.right ≠ none then replaceFrom passes .right tree target
      else removeLeaf tree target
    match n.parent with
    | none => some (some n.val, tree)
    | some parent => do
      let tree ← rebalance passes tree parent
      return (some n.val, tree)

/-- The loop of `avltree_free`: the nodes that are freed, and what is left. -/
def freeFrom : Nat → (π → Option (Node π κ ν)) → Option π →
    Option (List π × (π → Option (Node π κ ν)))
  | 0, _, _ => none
  | _ + 1, heap, none => some ([], heap)
  | passes + 1, heap, some node => do
    let next := (← heap node).next
    let heap ← free heap node
    let (freed, heap) ← freeFrom passes heap next
    return (node :: freed, heap)

def avltreeFree (passes : Nat) (tree : AvlTree π κ ν) :
    Option (List π × (π → Option (Node π κ ν))) :=
  freeFrom passes tree.heap tree.first

end HdfStream.Maps
