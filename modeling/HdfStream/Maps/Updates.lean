/-
# Looking up, adding and deleting

What the functions on keys make of the tree that the heap represents.  `avltree_add_node` puts a
leaf at the place of the key, and rebalances the path above it.  `avltree_delete_node` takes a node
out below the node of the key, or that node itself (`removal`), and rebalances the path above the
parent of the node of the key.
-/
import HdfStream.Lib.SearchTree
import HdfStream.Maps.Rebalance

namespace HdfStream.Maps

open Cells Zipper LinkedTree

variable {π κ ν : Type}

/-! ## 1. On trees -/

section Trees

variable (cmpfunc : κ → κ → Int)

/-- How a key compares with the key of a node. -/
def against (k : κ) (e : π × κ × ν) : Int := cmpfunc k e.2.1

/-- The difference of two keys. -/
def minus (a b : Int) : Int := a - b

/-- The value of a key. -/
def lookupTree (k : κ) (t : BinaryTree (π × κ × ν)) : Option ν :=
  match (locate (against cmpfunc k) t []).1 with
  | .nil => none
  | .node e _ _ => some e.2.2

/-- A new leaf. -/
def addTree (p : π) (k : κ) (v : ν) (t : BinaryTree (π × κ × ν)) : BinaryTree (π × κ × ν) :=
  rebuild (.node (p, k, v) .nil .nil) (locate (against cmpfunc k) t []).2

/-- The node with the key and the value of the root of another tree. -/
def replaced (e : π × κ × ν) : BinaryTree (π × κ × ν) → π × κ × ν
  | .nil => e
  | .node m _ _ => (e.1, m.2)

/-- The removal of a node from the subtree that it is the root of: what gets the place of the node
that is taken out, and the path above that place. -/
def removal : BinaryTree (π × κ × ν) → BinaryTree (π × κ × ν) × List (Frame (π × κ × ν))
  | .nil => (.nil, [])
  | .node _ .nil .nil => (.nil, [])
  | .node e .nil (.node y b c) =>
    let (n, path) := farthest .left (.node y b c) []
    (sub .right n, path ++ [⟨.right, replaced e n, .nil⟩])
  | .node e (.node y b c) r =>
    let (n, path) := farthest .right (.node y b c) []
    (sub .left n, path ++ [⟨.left, replaced e n, r⟩])

/-- The tree without the root of a subtree: the loop of `rebalance` begins above the parent. -/
def deleteAt (t : BinaryTree (π × κ × ν)) (path : List (Frame (π × κ × ν))) :
    BinaryTree (π × κ × ν) :=
  let t' := plug (removal t).1 (removal t).2
  match path with
  | [] => t'
  | f :: path => rebuild (f.fill t') path

def deleteTree (k : κ) (t : BinaryTree (π × κ × ν)) : BinaryTree (π × κ × ν) :=
  let place := locate (against cmpfunc k) t []
  deleteAt place.1 place.2

/-- **The place of a removal** below a node with a subtree: the last node of the subtree is taken
out, on the side of the other one. -/
theorem removal_spec {d : Dir} {e : π × κ × ν} {c s : BinaryTree (π × κ × ν)} (hc : c ≠ .nil)
    (hd : d = .left ∨ s = .nil) :
    ∃ m u q, removal (join d e c s) = (u, q ++ [⟨d, (e.1, m.2), s⟩]) ∧
      (∀ path, farthest d.opp c path = (join d.opp m .nil u, q ++ path)) ∧
      plug (join d.opp m .nil u) q = c ∧ ∀ f ∈ q, f.dir = d.opp := by
  obtain ⟨m, u, q, hfar, hplug, hdir⟩ := farthest_spec d.opp c hc
  refine ⟨m, u, q, ?_, hfar, hplug, hdir⟩
  have hfar' := hfar []
  rw [List.append_nil] at hfar'
  cases c with
  | nil => exact absurd rfl hc
  | node y b c' =>
    cases d with
    | left =>
      rw [Dir.opp] at hfar'
      cases s <;> rw [join, removal, hfar'] <;> rfl
    | right =>
      obtain rfl := hd.resolve_left (fun h => by cases h)
      rw [Dir.opp] at hfar'
      rw [join, removal, hfar']
      rfl

/-- A node is a leaf, or a removal takes place in a subtree of it. -/
theorem leaf_or_join (e : π × κ × ν) (l r : BinaryTree (π × κ × ν)) :
    (l = .nil ∧ r = .nil) ∨ ∃ d c s, BinaryTree.node e l r = join d e c s ∧ c ≠ .nil ∧
      (d = .left ∨ s = .nil) := by
  cases l with
  | node y b c => exact Or.inr ⟨.left, _, r, rfl, fun h => (by cases h), Or.inl rfl⟩
  | nil =>
    cases r with
    | node y b c => exact Or.inr ⟨.right, _, .nil, rfl, fun h => (by cases h), Or.inr rfl⟩
    | nil => exact Or.inl ⟨rfl, rfl⟩

/-- The values, after a node is taken out of a subtree. -/
theorem inorder_removal (e : π × κ × ν) (l r : BinaryTree (π × κ × ν)) :
    (inorder (plug (removal (.node e l r)).1 (removal (.node e l r)).2)).map Prod.snd =
      (inorder l ++ inorder r).map Prod.snd := by
  rcases leaf_or_join e l r with ⟨rfl, rfl⟩ | ⟨d, c, s, hjoin, hc, hd⟩
  · rfl
  · obtain ⟨m, u, q, hrem, -, hplug, hdir⟩ := removal_spec (e := e) hc hd
    rw [hjoin, hrem, plug_append, plug, plug, Frame.fill]
    cases d with
    | left =>
      obtain ⟨-, rfl, rfl⟩ := BinaryTree.node.injEq .. ▸ hjoin
      rw [← hplug, join, inorder, inorder_plug, inorder_plug, after_eq_nil hdir, Dir.opp, join,
        inorder, inorder]
      simp only [List.append_nil, List.map_append, List.map_cons, List.append_assoc,
        List.cons_append, List.nil_append]
    | right =>
      obtain ⟨-, rfl, rfl⟩ := BinaryTree.node.injEq .. ▸ hjoin
      rw [← hplug, join, inorder, inorder_plug, inorder_plug, before_eq_nil hdir, Dir.opp, join,
        inorder, inorder]
      simp only [List.map_append, List.map_cons, List.cons_append, List.nil_append]

/-- A removal takes one node out. -/
theorem numNodes_removal (e : π × κ × ν) (l r : BinaryTree (π × κ × ν)) :
    (plug (removal (.node e l r)).1 (removal (.node e l r)).2).numNodes + 1 =
      (BinaryTree.node e l r).numNodes := by
  have hlen := congrArg List.length (inorder_removal e l r)
  rw [List.length_map, List.length_map, List.length_append, length_inorder, length_inorder,
    length_inorder] at hlen
  rw [hlen, BinaryTree.numNodes]

/-- The values, after a node is taken out at a place. -/
theorem inorder_deleteAt (t : BinaryTree (π × κ × ν)) (path : List (Frame (π × κ × ν))) :
    inorder (deleteAt t path) = inorder (plug (plug (removal t).1 (removal t).2) path) := by
  cases path with
  | nil => rfl
  | cons f path => exact inorder_rebuild _ _

end Trees

/-! ## 2. The loops that go down -/

section Loops

variable {cmpfunc : κ → κ → Int} {heap : π → Option (Node π κ ν)} {t : BinaryTree (π × κ × ν)}
  {path : List (Frame (π × κ × ν))} {k : κ}

/-- The search for a node. -/
theorem find_eq (h : HasTree heap (plug t path)) {fuel : Nat} (hfuel : t.height < fuel) :
    find cmpfunc heap k fuel (top t) = some (top (locate (against cmpfunc k) t path).1) := by
  induction t generalizing path fuel with
  | nil =>
    obtain ⟨fuel, rfl⟩ := Nat.exists_eq_succ_of_ne_zero (Nat.ne_zero_of_lt hfuel)
    rfl
  | node e l r ihl ihr =>
    obtain ⟨fuel, rfl⟩ := Nat.exists_eq_succ_of_ne_zero (Nat.ne_zero_of_lt hfuel)
    rw [BinaryTree.height] at hfuel
    obtain ⟨n, hn, hkey, -, hleft, hright, -⟩ := h.load
    have htest : against cmpfunc k e = cmpfunc k n.key := by rw [against, hkey]
    simp only [top, find, hn, Option.bind_eq_bind, Option.bind_some, locate, htest, hleft, hright]
    have hl : HasTree heap (plug l (⟨.left, e, r⟩ :: path)) := h
    have hr : HasTree heap (plug r (⟨.right, e, l⟩ :: path)) := h
    split
    · exact ihl hl (by omega)
    · split
      · exact ihr hr (by omega)
      · rfl

/-- The search for an empty place: the node above it, and the side. -/
theorem findSlot_eq {p : π} (h : HasTree heap (plug t path)) (hp : top t = some p) {fuel : Nat}
    (hfuel : t.numNodes < fuel) :
    findSlot cmpfunc heap k fuel p =
      some (match locate (against cmpfunc k) t path with
        | (.nil, f :: _) => some (f.value.1, f.dir)
        | _ => none) := by
  induction t generalizing path fuel p with
  | nil => cases hp
  | node e l r ihl ihr =>
    cases hp
    obtain ⟨fuel, rfl⟩ := Nat.exists_eq_succ_of_ne_zero (Nat.ne_zero_of_lt hfuel)
    rw [BinaryTree.numNodes] at hfuel
    obtain ⟨n, hn, hkey, -, hleft, hright, -⟩ := h.load
    have htest : against cmpfunc k e = cmpfunc k n.key := by rw [against, hkey]
    simp only [findSlot, hn, Option.bind_eq_bind, Option.bind_some, locate, htest, hleft, hright]
    have hl : HasTree heap (plug l (⟨.left, e, r⟩ :: path)) := h
    have hr : HasTree heap (plug r (⟨.right, e, l⟩ :: path)) := h
    split
    · cases l with
      | nil => rfl
      | node e' l' r' => exact ihl hl rfl (by omega)
    · split
      · cases r with
        | nil => rfl
        | node e' l' r' => exact ihr hr rfl (by omega)
      · rfl

/-- The loop to the last node on a side. -/
theorem extreme_eq {d : Dir} {p : π} (h : HasTree heap (plug t path)) (hp : top t = some p)
    {fuel : Nat} (hfuel : t.numNodes < fuel) :
    extreme heap d fuel p = top (farthest d t path).1 := by
  induction t using join_induction d generalizing path fuel p with
  | hnil => cases hp
  | hjoin e t u ih =>
    rw [top_join] at hp
    cases hp
    obtain ⟨fuel, rfl⟩ := Nat.exists_eq_succ_of_ne_zero (Nat.ne_zero_of_lt hfuel)
    rw [numNodes_join] at hfuel
    have ht : HasTree heap (plug t (⟨d, e, u⟩ :: path)) := h
    obtain ⟨n, hn, hchild⟩ := ht.child_above
    rw [extreme, hn, Option.bind_eq_bind, Option.bind_some, hchild]
    rcases eq_nil_or_join d t with rfl | ⟨b, t', u', rfl⟩
    · rw [farthest_join_nil, top_join, top]
    · rw [top_join, farthest_join_join]
      exact ih ht (top_join d b t' u') (by omega)

end Loops

/-! ## 3. Looking up and adding -/

section Keys

variable {cmpfunc : κ → κ → Int} {tree : AvlTree π κ ν} {t : BinaryTree (π × κ × ν)}
  {K : List (π × Unit)} {k : κ} {v : ν} {p : π} {passes : Nat}

theorem find_root_eq (h : Represents tree t K) (hpasses : t.height < passes) :
    find cmpfunc tree.heap k passes tree.root =
      some (top (locate (against cmpfunc k) t []).1) := by
  rw [h.root]
  have ht : HasTree tree.heap (plug t []) := h.hasTree
  exact find_eq ht hpasses

/-- The place that the search finds, in the tree. -/
theorem Represents.locate (h : Represents tree t K) (test : π × κ × ν → Int) :
    Represents tree (plug (Zipper.locate test t []).1 (Zipper.locate test t []).2) K := by
  rw [plug_locate]
  exact h

/-- **`avltree_lookup`** gives the value at the place of the key, with as many comparisons as the
tree is high. -/
theorem avltreeLookup_eq (h : Represents tree t K) (hpasses : t.height < passes) :
    avltreeLookup cmpfunc passes tree k = some (lookupTree cmpfunc k t) := by
  have hplace := h.locate (against cmpfunc k)
  rw [avltreeLookup, find_root_eq h hpasses, lookupTree, Option.bind_eq_bind, Option.bind_some]
  cases hloc : (Zipper.locate (against cmpfunc k) t []).1 with
  | nil => rfl
  | node e l r =>
    rw [hloc] at hplace
    obtain ⟨n, hn, -, hval, -⟩ := hplace.hasTree.load
    simp only [top, hn, Option.bind_eq_bind, Option.bind_some, hval]
    rfl

/-- The place of a key that is not there, in a tree that is not empty. -/
theorem findSlot_new (h : Represents tree t K) (hpasses : t.numNodes < passes)
    (hnew : (Zipper.locate (against cmpfunc k) t []).1 = .nil) {q : π} (hq : tree.root = some q) :
    ∃ f path, (Zipper.locate (against cmpfunc k) t []).2 = f :: path ∧
      findSlot cmpfunc tree.heap k passes q = some (some (f.value.1, f.dir)) := by
  have ht : HasTree tree.heap (plug t []) := h.hasTree
  have hplug := plug_locate (against cmpfunc k) t []
  rw [findSlot_eq ht (h.root.symm.trans hq) hpasses]
  cases hloc : Zipper.locate (against cmpfunc k) t [] with
  | mk u path =>
    rw [hloc] at hnew hplug
    dsimp only at hnew hplug
    subst hnew
    cases path with
    | nil =>
      -- only the empty tree has no node above the place
      have ht : .nil = t := hplug
      rw [h.root, ← ht] at hq
      cases hq
    | cons f path => exact ⟨f, path, rfl, rfl⟩

variable [DecidableEq π]

/-- `malloc` does not return an address that is in use. -/
theorem avltreeAddNode_used {n : Node π κ ν} (h : Represents tree t K)
    (hpasses : t.numNodes < passes) (hnew : (Zipper.locate (against cmpfunc k) t []).1 = .nil)
    (hp : tree.heap p = some n) : avltreeAddNode cmpfunc passes tree p k v = none := by
  have hnewNode : newNode tree p k v = none := by
    rw [newNode, alloc, hp]
    rfl
  rw [avltreeAddNode]
  cases hq : tree.root with
  | none =>
    dsimp only
    rw [hnewNode]
    rfl
  | some q =>
    obtain ⟨f, path, -, hslot⟩ := findSlot_new h hpasses hnew hq
    simp only [hslot, Option.bind_eq_bind, Option.bind_some, hnewNode, Option.bind_none]

/-- **`avltree_add_node`** puts a leaf at the place of a key that is not there. -/
theorem avltreeAddNode_represents (h : Represents tree t K) (hp : tree.heap p = none)
    (hpasses : t.numNodes + 1 < passes)
    (hnew : (Zipper.locate (against cmpfunc k) t []).1 = .nil) :
    ∃ tree', avltreeAddNode cmpfunc passes tree p k v = some (0, tree') ∧
      Represents tree' (addTree cmpfunc p k v t) (K ++ [(p, ())]) := by
  obtain ⟨m₀, hrun₀, h₀⟩ := newNode_eq h.shape h.first h.prev hp k v
  have hplug := plug_locate (against cmpfunc k) t []
  rw [hnew] at hplug
  rw [addTree]
  cases hpath : (Zipper.locate (against cmpfunc k) t []).2 with
  | nil =>
    -- the first node
    rw [hpath] at hplug
    subst hplug
    refine ⟨_, by rw [avltreeAddNode, h.root]; simp only [top, hrun₀]; rfl, ?_, rfl, rfl, rfl⟩
    exact h₀
  | cons f path =>
    rw [hpath] at hplug
    change plug .nil (f :: path) = t at hplug
    subst hplug
    -- the tree is not empty
    obtain ⟨q, hq⟩ : ∃ q, top (plug .nil (f :: path)) = some q := by
      cases hplug : plug .nil (f :: path) with
      | nil =>
        have hsize := numNodes_plug .nil (f :: path)
        rw [hplug, context, List.length_cons, BinaryTree.numNodes] at hsize
        omega
      | node e l r => exact ⟨e.1, rfl⟩
    obtain ⟨f', path', hpath', hslot⟩ := findSlot_new h (by omega : _ < passes) hnew
      (h.root.trans hq)
    rw [hpath, List.cons.injEq] at hpath'
    rw [← hpath'.1] at hslot
    -- the new node gets its place
    have h₀' : Shape m₀ (around none (f :: path) + {(p, ⟨(k, v), none, none, none⟩)})
        (DoublyLinked.cells none (K ++ [(p, ())]) none) := by
      refine h₀.congr ?_
      rw [cells_plug, LinkedTree.cells]
      simp only [top]
      abel
    obtain ⟨m₁, hrun₁, h₁⟩ := h₀'.setChildAbove (some p)
    obtain ⟨m₂, hrun₂, h₂⟩ := (h₁.congr (add_comm _ _)).write (writes_setParent (some f.value.1))
    have h₂' : Represents ⟨m₂, tree.root, DoublyLinked.firstOr none (K ++ [(p, ())]),
        DoublyLinked.lastOr none (K ++ [(p, ())])⟩ (plug (.node (p, k, v) .nil .nil) (f :: path))
        (K ++ [(p, ())]) := by
      refine ⟨h₂.congr ?_, ?_, rfl, rfl⟩
      · rw [cells_plug]
        rfl
      · exact h.root.trans (top_plug_cons _ _ f path)
    have hsize := numNodes_plug (.node (p, k, v) .nil .nil) (f :: path)
    have hsize' := numNodes_plug (α := π × κ × ν) .nil (f :: path)
    rw [BinaryTree.numNodes, BinaryTree.numNodes] at hsize
    rw [BinaryTree.numNodes] at hsize'
    obtain ⟨tree', hrun, h'⟩ := rebalance_represents h₂' (by omega : _ < passes)
    refine ⟨tree', ?_, h'⟩
    rw [avltreeAddNode, h.root, hq]
    simp only [hslot, Option.bind_eq_bind, Option.bind_some, hrun₀, hrun₁, hrun₂, hrun]
    rfl

/-- A key that is there already. -/
theorem avltreeAddNode_exists (h : Represents tree t K) (hpasses : t.numNodes < passes)
    (hold : (Zipper.locate (against cmpfunc k) t []).1 ≠ .nil) :
    avltreeAddNode cmpfunc passes tree p k v = some (1, tree) := by
  cases ht : t with
  | nil =>
    subst ht
    exact absurd rfl hold
  | node e l r =>
    subst ht
    have htree : HasTree tree.heap (plug (.node e l r) []) := h.hasTree
    rw [avltreeAddNode, h.root]
    simp only [top]
    rw [findSlot_eq htree rfl hpasses]
    cases hloc : Zipper.locate (against cmpfunc k) (.node e l r) [] with
    | mk u path =>
      rw [hloc] at hold
      cases u with
      | nil => exact absurd rfl hold
      | node e' l' r' => rfl

end Keys

/-! ## 4. Deleting -/

section Delete

variable [DecidableEq π] {tree : AvlTree π κ ν} {K : List (π × Unit)} {d : Dir}
  {e m : π × κ × ν} {c s u : BinaryTree (π × κ × ν)} {path q : List (Frame (π × κ × ν))}
  {passes : Nat}

/-- A node that is in the tree no more is taken out of the chain. -/
theorem dealloc_represents {t t' : BinaryTree (π × κ × ν)} {heap : π → Option (Node π κ ν)} {p : π}
    {x : Links π (κ × ν)} (h : Represents tree t K) (hp : p ∈ (inorder t).map Prod.fst)
    (hheap : Shape heap ({(p, x)} + cells none t') (DoublyLinked.cells none K none))
    {root : Option π} (hroot : root = top t') :
    ∃ tree' K', deallocNode ⟨heap, root, tree.first, tree.prev⟩ p = some tree' ∧
      Represents tree' t' K' := by
  obtain ⟨⟨p', i⟩, hmem, rfl⟩ := List.mem_map.mp ((h.chain_perm.mem_iff).mpr hp)
  obtain ⟨K₁, K₂, rfl⟩ := List.append_of_mem hmem
  obtain ⟨m', hrun, hm'⟩ := deallocNode_eq ⟨heap, root, tree.first, tree.prev⟩ hheap h.first h.prev
  exact ⟨_, K₁ ++ K₂, hrun, hm', hroot, rfl, rfl⟩

/-- A node with one subtree at most is unlinked: the node above it gets the subtree. -/
theorem unlink {heap : π → Option (Node π κ ν)} {C : Multiset (π × DoublyLinked.Item π Unit)}
    {g : Frame (π × κ × ν)}
    (h : Shape heap (cells none (plug (join d.opp m .nil u) (g :: path))) C) :
    ∃ r heap₁ r₁ heap₂, heap m.1 = some r ∧ r.key = m.2.1 ∧ r.val = m.2.2 ∧
      r.parent = some g.value.1 ∧ r.child d = top u ∧
      store heap g.value.1 (Node.setChild g.dir (top u)) = some heap₁ ∧
      heap₁ m.1 = some r₁ ∧ r₁.parent = some g.value.1 ∧ r₁.child d = top u ∧
      storeIf heap₁ (top u) (Node.setParent (some g.value.1)) = some heap₂ ∧
      ∃ x, Shape heap₂ ({(m.1, x)} + cells none (plug u (g :: path))) C := by
  have h₀ : Shape heap (around (some m.1) (g :: path) +
      ({(m.1, Links.toward d m.2 (top u) none (some g.value.1))} + cells (some m.1) u)) C := by
    refine h.congr ?_
    rw [cells_plug, cells_join, top_join, Links.toward_opp]
    simp only [LinkedTree.cells, above, top]
    abel
  have hload : ∀ {heap' : π → Option (Node π κ ν)} {S : Multiset (π × Links π (κ × ν))},
      Shape heap' S C → (m.1, Links.toward d m.2 (top u) none (some g.value.1)) ∈ S →
      ∃ r, heap' m.1 = some r ∧ (r.key, r.val) = m.2 ∧ r.parent = some g.value.1 ∧
        r.child d = top u := by
    intro heap' S hS hmem
    obtain ⟨r, hr, hlinks⟩ := hS.load_of_mem hmem
    have hdata := congrArg Links.data hlinks
    have hparent := congrArg Links.parent hlinks
    rw [Links.data_toward] at hdata
    rw [Links.parent_toward] at hparent
    exact ⟨r, hr, hdata, hparent, by rw [← Node.links_child, hlinks, Links.child_toward]⟩
  obtain ⟨r, hr, hdata, hparent, hchild⟩ := hload h₀ (by simp)
  obtain ⟨heap₁, hrun₁, h₁⟩ := h₀.setChildAbove (top u)
  obtain ⟨r₁, hr₁, -, hparent₁, hchild₁⟩ := hload h₁ (by simp)
  have h₁' : Shape heap₁ (cells (some m.1) u +
      ({(m.1, Links.toward d m.2 (top u) none (some g.value.1))} +
        around (top u) (g :: path))) C := h₁.congr (by abel)
  obtain ⟨heap₂, hrun₂, h₂⟩ := h₁'.reparent (some g.value.1)
  refine ⟨r, heap₁, r₁, heap₂, hr, congrArg Prod.fst hdata, congrArg Prod.snd hdata, hparent,
    hchild, hrun₁, hr₁, hparent₁, hchild₁, hrun₂,
    Links.toward d m.2 (top u) none (some g.value.1), h₂.congr ?_⟩
  rw [cells_plug, above]
  abel

/-- **The key and the value of the last node of a subtree** go to the node above the subtree, and
that last node is taken out. -/
theorem replaceFrom_represents (h : Represents tree (plug (join d e c s) path) K) (hc : c ≠ .nil)
    (hd : d = .left ∨ s = .nil) (hpasses : c.numNodes < passes) :
    ∃ tree' K', replaceFrom passes d tree e.1 = some tree' ∧
      Represents tree'
        (plug (removal (join d e c s)).1 ((removal (join d e c s)).2 ++ path)) K' := by
  obtain ⟨m, u, q, hrem, hfar, hplug, hdir⟩ := removal_spec (e := e) hc hd
  rw [hrem, List.append_assoc, List.singleton_append]
  obtain ⟨p, hp⟩ : ∃ p, top c = some p := by
    cases c with
    | nil => exact absurd rfl hc
    | node e' l r => exact ⟨e'.1, rfl⟩
  have hcTree : HasTree tree.heap (plug c (⟨d, e, s⟩ :: path)) := h.hasTree
  obtain ⟨n, hn, hchild⟩ := hcTree.child_above
  have hextreme := extreme_eq (d := d.opp) hcTree hp hpasses
  rw [hfar, top_join] at hextreme
  have hmem : m.1 ∈ (inorder c).map Prod.fst := by
    refine List.mem_map_of_mem ?_
    rw [← hplug, (inorder_plug_perm _ q).mem_iff, List.mem_append,
      (inorder_join_perm d.opp m .nil u).mem_iff]
    exact Or.inl List.mem_cons_self
  -- the key and the value
  have h₀ : Shape tree.heap ({(e.1, Links.toward d e.2 (top c) (top s) (above path))} +
      (cells (some e.1) c + cells (some e.1) s + around (some e.1) path))
      (DoublyLinked.cells none K none) := by
    refine h.shape.congr ?_
    rw [cells_plug, cells_join, top_join]
    abel
  obtain ⟨m₁, hrun₁, h₁⟩ := h₀.write (writes_data m.2.1 m.2.2)
  rw [Links.setData_toward] at h₁
  have h₁' : Shape m₁
      (cells none (plug (join d.opp m .nil u) (q ++ ⟨d, (e.1, m.2), s⟩ :: path)))
      (DoublyLinked.cells none K none) := by
    refine h₁.congr ?_
    rw [plug_append, hplug, plug, Frame.fill, cells_plug, cells_join, top_join]
    abel
  -- the node above the one that is taken out
  obtain ⟨g, Q, hQ, hside⟩ : ∃ g Q, q ++ ⟨d, (e.1, m.2), s⟩ :: path = g :: Q ∧
      (if g.value.1 = e.1 then d else d.opp) = g.dir := by
    cases q with
    | nil => exact ⟨_, path, rfl, if_pos rfl⟩
    | cons g q =>
      refine ⟨g, _, rfl, (if_neg fun heq => ?_).trans (hdir g List.mem_cons_self).symm⟩
      have hbelow : e.1 ∈ (inorder c).map Prod.fst := by
        rw [← heq]
        refine List.mem_map_of_mem ?_
        rw [← hplug, (inorder_plug_perm _ _).mem_iff, context]
        exact List.mem_append_right _ List.mem_cons_self
      exact IsTree.disjoint hcTree hbelow List.mem_cons_self
  rw [hQ] at h₁' ⊢
  obtain ⟨r, m₂, r₂, m₃, hr, -, -, hparent, hrchild, hrun₂, hr₂, hparent₂, hrchild₂, hrun₃, x,
    h₃⟩ := unlink h₁'
  -- the last node leaves the chain
  have hroot : tree.root = top (plug u (g :: Q)) := by
    rw [h.root, ← hQ, plug_append, plug]
    exact top_plug_congr (by rw [top_join, top_fill]) path
  have hmem' : m.1 ∈ (inorder (plug (join d e c s) path)).map Prod.fst := by
    rw [((inorder_plug_perm _ path).map _).mem_iff, List.map_append, List.mem_append,
      ((inorder_join_perm d e c s).map _).mem_iff, List.map_cons, List.map_append]
    exact Or.inl (List.mem_cons_of_mem _ (List.mem_append_left _ hmem))
  obtain ⟨tree', K', hrun₄, h'⟩ := dealloc_represents h hmem' h₃ hroot
  have hmTree : HasTree tree.heap (plug (join d.opp m .nil u) (q ++ ⟨d, e, s⟩ :: path)) := by
    rw [plug_append, hplug]
    exact h.hasTree
  obtain ⟨r₀, hr₀, hkey, hval⟩ := hmTree.data
  have hchoice : (if g.value.1 = e.1 then Node.setChild (κ := κ) (ν := ν) d (top u)
      else Node.setChild d.opp (top u)) = Node.setChild g.dir (top u) := by
    rw [← hside]
    split <;> rfl
  refine ⟨tree', K', ?_, h'⟩
  simp only [replaceFrom, hn, Option.bind_eq_bind, Option.bind_some, hchild, hp, hextreme, hr₀,
    hkey, hval, hrun₁, hr, hparent, hrchild, hchoice, hrun₂, hr₂, hparent₂, hrchild₂, hrun₃]
  exact hrun₄

/-- A node without children is taken out. -/
theorem removeLeaf_represents (h : Represents tree (plug (.node e .nil .nil) path) K) :
    ∃ tree' K', removeLeaf tree e.1 = some tree' ∧ Represents tree' (plug .nil path) K' := by
  have hmem : e.1 ∈ (inorder (plug (.node e .nil .nil) path)).map Prod.fst := by
    refine List.mem_map_of_mem ?_
    rw [(inorder_plug_perm _ path).mem_iff]
    exact List.mem_append_left _ List.mem_cons_self
  have h₀ : Shape tree.heap (around (some e.1) path + {(e.1, ⟨e.2, none, none, above path⟩)})
      (DoublyLinked.cells none K none) := by
    refine h.shape.congr ?_
    rw [cells_plug]
    simp only [LinkedTree.cells, top]
    abel
  cases path with
  | nil =>
    have hroot : tree.root = some e.1 := h.root
    have h₁ : Shape tree.heap ({(e.1, ⟨e.2, none, none, none⟩)} + cells none .nil)
        (DoublyLinked.cells none K none) := h₀.congr (add_comm _ _)
    have hnone : none = top (.nil : BinaryTree (π × κ × ν)) := rfl
    obtain ⟨tree', K', hrun, h'⟩ := dealloc_represents h hmem h₁ hnone
    refine ⟨tree', K', ?_, h'⟩
    rw [removeLeaf, if_neg (fun hne => hne hroot.symm)]
    exact hrun
  | cons f path =>
    have hroot : some e.1 ≠ tree.root := by
      rw [h.root]
      exact (IsTree.top_ne_top h.hasTree rfl).symm
    obtain ⟨n, hn, hparent⟩ := parent_eq h.hasTree
    obtain ⟨m₁, hrun₁, h₁⟩ := h₀.rechild (by simp) (writes_replaceChild .left (some e.1) none) rfl
    have h₁' : Shape m₁ ({(e.1, ⟨e.2, none, none, above (f :: path)⟩)} +
        cells none (plug .nil (f :: path))) (DoublyLinked.cells none K none) := by
      refine h₁.congr ?_
      rw [cells_plug, LinkedTree.cells, zero_add, add_comm]
      rfl
    have hroot' : tree.root = top (plug .nil (f :: path)) :=
      h.root.trans (top_plug_cons _ _ f path)
    obtain ⟨tree', K', hrun, h'⟩ := dealloc_represents h hmem h₁' hroot'
    refine ⟨tree', K', ?_, h'⟩
    rw [removeLeaf, if_pos hroot, hn, Option.bind_eq_bind, Option.bind_some, hparent]
    have hstore : store tree.heap f.value.1 (fun n =>
        if n.left = some e.1 then n.setChild .left none else n.setChild .right none) = some m₁ :=
      hrun₁
    simp only [above, Option.bind_eq_bind, Option.bind_some, hstore]
    exact hrun

/-- **The removal** of a node from its subtree. -/
theorem removal_represents {l r : BinaryTree (π × κ × ν)}
    (h : Represents tree (plug (.node e l r) path) K)
    (hpasses : (BinaryTree.node e l r).numNodes < passes) :
    ∃ tree' K', (if top l ≠ none then replaceFrom passes .left tree e.1
        else if top r ≠ none then replaceFrom passes .right tree e.1
        else removeLeaf tree e.1) = some tree' ∧
      Represents tree' (plug (plug (removal (.node e l r)).1 (removal (.node e l r)).2) path)
        K' := by
  rw [BinaryTree.numNodes] at hpasses
  rw [← plug_append]
  cases l with
  | node y b c =>
    obtain ⟨tree', K', hrun, h'⟩ := replaceFrom_represents (d := .left) h
      (fun hnil => by cases hnil) (Or.inl rfl) (by omega : _ < passes)
    refine ⟨tree', K', ?_, h'⟩
    rw [if_pos (fun hnone => by cases hnone)]
    exact hrun
  | nil =>
    cases r with
    | node y b c =>
      obtain ⟨tree', K', hrun, h'⟩ := replaceFrom_represents (d := .right) h
        (fun hnil => by cases hnil) (Or.inr rfl) (by omega : _ < passes)
      refine ⟨tree', K', ?_, h'⟩
      rw [if_neg (fun hne => hne rfl), if_pos (fun hnone => by cases hnone)]
      exact hrun
    | nil =>
      obtain ⟨tree', K', hrun, h'⟩ := removeLeaf_represents h
      refine ⟨tree', K', ?_, h'⟩
      rw [if_neg (fun hne => hne rfl), if_neg (fun hne => hne rfl)]
      exact hrun

variable {cmpfunc : κ → κ → Int} {t : BinaryTree (π × κ × ν)} {k : κ}

/-- A key that is not there. -/
theorem avltreeDeleteNode_absent (h : Represents tree t K) (hpasses : t.numNodes < passes)
    (habsent : (Zipper.locate (against cmpfunc k) t []).1 = .nil) :
    avltreeDeleteNode cmpfunc passes tree k = some (none, tree) := by
  have hheight := t.height_le_numNodes
  rw [avltreeDeleteNode, find_root_eq h (by omega), habsent]
  rfl

/-- **`avltree_delete_node`** takes a node out, and gives the value of the key. -/
theorem avltreeDeleteNode_represents {l r : BinaryTree (π × κ × ν)} (h : Represents tree t K)
    (hpasses : t.numNodes < passes)
    (hfound : (Zipper.locate (against cmpfunc k) t []).1 = .node e l r) :
    ∃ tree' K', avltreeDeleteNode cmpfunc passes tree k = some (some e.2.2, tree') ∧
      Represents tree' (deleteTree cmpfunc k t) K' := by
  have hplace := h.locate (against cmpfunc k)
  have hsize := congrArg BinaryTree.numNodes (plug_locate (against cmpfunc k) t [])
  rw [deleteTree, hfound]
  rw [hfound] at hplace hsize
  generalize (Zipper.locate (against cmpfunc k) t []).2 = path at hplace hsize
  rw [plug] at hsize
  rw [numNodes_plug] at hsize
  obtain ⟨tree₁, K₁, hrun₁, h₁⟩ := removal_represents hplace (by omega : _ < passes)
  obtain ⟨n, hn, -, hval, hleft, hright, hparent⟩ := hplace.hasTree.load
  -- what follows the removal, whichever way it is done
  have hthen : ∀ rest : AvlTree π κ ν → Option (Option ν × AvlTree π κ ν),
      (if top l ≠ none then (replaceFrom passes .left tree e.1).bind rest
        else if top r ≠ none then (replaceFrom passes .right tree e.1).bind rest
        else (removeLeaf tree e.1).bind rest) = rest tree₁ := by
    intro rest
    rw [← apply_ite (Option.bind · rest), ← apply_ite (Option.bind · rest), hrun₁,
      Option.bind_some]
  have htop : top (.node e l r) = some e.1 := rfl
  have hheight := t.height_le_numNodes
  rw [avltreeDeleteNode, find_root_eq h (by omega), hfound, htop]
  simp only [Option.bind_eq_bind, Option.bind_some, hn, hleft, hright, hval, hparent]
  cases path with
  | nil => exact ⟨tree₁, K₁, hthen _, h₁⟩
  | cons f path =>
    rw [plug] at h₁
    have hnodes := numNodes_removal e l r
    obtain ⟨l', r', hfill⟩ := f.exists_fill
      (plug (removal (.node e l r)).1 (removal (.node e l r)).2)
    have hsize₁ := numNodes_plug
      (plug (removal (.node e l r)).1 (removal (.node e l r)).2) (f :: path)
    rw [plug, hfill] at hsize₁
    rw [hfill] at h₁
    obtain ⟨tree', hrun, h'⟩ := rebalance_represents h₁ (by omega : _ < passes)
    refine ⟨tree', K₁, (hthen _).trans ?_, ?_⟩
    · simp only [above, hrun, Option.bind_some]
      rfl
    · rw [deleteAt, hfill]
      exact h'

end Delete

/-! ## 5. The end -/

section Free

variable [DecidableEq π] {K : List (π × Unit)}

/-- Every node of the chain is freed, and once. -/
theorem freeFrom_eq {heap : π → Option (Node π κ ν)} {b : Option π}
    (h : Exactly (view Node.chain heap) (DoublyLinked.cells b K none)) {fuel : Nat}
    (hfuel : K.length < fuel) :
    freeFrom fuel heap (DoublyLinked.firstOr none K) = some (K.map Prod.fst, fun _ => none) := by
  induction K generalizing heap b fuel with
  | nil =>
    obtain ⟨fuel, rfl⟩ := Nat.exists_eq_succ_of_ne_zero (Nat.ne_zero_of_lt hfuel)
    have hempty : heap = fun _ => none := by
      funext p
      cases hp : heap p with
      | none => rfl
      | some n =>
        have hview : view Node.chain heap p = some n.chain := by rw [view, hp, Option.map_some]
        exact absurd (h.inUse p _ hview) (Multiset.notMem_zero p)
    rw [hempty]
    rfl
  | cons e K ih =>
    obtain ⟨fuel, rfl⟩ := Nat.exists_eq_succ_of_ne_zero (Nat.ne_zero_of_lt hfuel)
    rw [DoublyLinked.cells] at h
    obtain ⟨n, hn, hchain⟩ := exists_of_view h.load
    have hnext : n.next = DoublyLinked.firstOr none K := congrArg DoublyLinked.Item.next hchain
    have hrest : Exactly (view Node.chain (Function.update heap e.1 none))
        (DoublyLinked.cells (some e.1) K none) := by
      rw [view_update]
      exact h.erase
    rw [DoublyLinked.firstOr, freeFrom, hn, Option.bind_eq_bind, Option.bind_some, free_eq hn,
      Option.bind_eq_bind, Option.bind_some, hnext, ih hrest (Nat.lt_of_succ_lt_succ hfuel)]
    rfl

/-- **`avltree_free`** frees the nodes of the tree, each once. -/
theorem avltreeFree_eq {tree : AvlTree π κ ν} {t : BinaryTree (π × κ × ν)} {passes : Nat}
    (h : Represents tree t K) (hpasses : t.numNodes < passes) :
    avltreeFree passes tree = some (K.map Prod.fst, fun _ => none) := by
  have hlen := h.chain_perm.length_eq
  rw [List.length_map, List.length_map, length_inorder] at hlen
  rw [avltreeFree, h.first]
  exact freeFrom_eq h.shape.chain (by omega)

end Free

end HdfStream.Maps
