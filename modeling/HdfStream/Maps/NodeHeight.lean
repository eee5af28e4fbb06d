/-
# The height of a node

`node_height` goes through a subtree without a stack: down to the first leaf, up to the next node
that has a sibling, over to the sibling, and so on, with a depth that goes up and down with it.

A position is a subtree at a place under `root`.  What is still to come at a position is what is
in the subtree and in the siblings to the right of the path (`toCome`); the deepest node that is
still to come is at depth `reach`.  A descent and a climb lead to a position with the same reach
and with less to come, and that is why the loop ends, and what it ends with.
-/
import HdfStream.Maps.AvlTree

namespace HdfStream.Maps

open Cells Zipper LinkedTree

variable {π κ ν : Type}

/-! ## 1. The tree in the heap -/

/-- What a node holds, without its place in the chain. -/
def Node.links (n : Node π κ ν) : Links π (κ × ν) where
  data := (n.key, n.val)
  left := n.left
  right := n.right
  parent := n.parent

theorem Node.links_child (d : Dir) (n : Node π κ ν) : n.links.child d = n.child d := by
  cases d <;> rfl

/-- The heap has the tree, with consistent pointers. -/
def HasTree (heap : π → Option (Node π κ ν)) (t : BinaryTree (π × κ × ν)) : Prop :=
  IsTree (view Node.links heap) t

variable {heap : π → Option (Node π κ ν)} {t l r : BinaryTree (π × κ × ν)} {e : π × κ × ν}
  {path : List (Frame (π × κ × ν))}

/-- The node at a place. -/
theorem HasTree.load (h : HasTree heap (plug (.node e l r) path)) :
    ∃ n, heap e.1 = some n ∧ n.key = e.2.1 ∧ n.val = e.2.2 ∧ n.left = top l ∧ n.right = top r ∧
      n.parent = above path := by
  obtain ⟨n, hn, hlinks⟩ := exists_of_view (IsTree.load h)
  obtain ⟨hdata, hleft, hright, hparent⟩ := Links.mk.injEq .. ▸ hlinks
  exact ⟨n, hn, congrArg Prod.fst hdata, congrArg Prod.snd hdata, hleft, hright, hparent⟩

/-- The key and the value at a place. -/
theorem HasTree.data {d : Dir} {u s : BinaryTree (π × κ × ν)}
    (h : HasTree heap (plug (join d e u s) path)) :
    ∃ n, heap e.1 = some n ∧ n.key = e.2.1 ∧ n.val = e.2.2 := by
  cases d with
  | left =>
    obtain ⟨n, hn, hkey, hval, -⟩ := HasTree.load h
    exact ⟨n, hn, hkey, hval⟩
  | right =>
    obtain ⟨n, hn, hkey, hval, -⟩ := HasTree.load h
    exact ⟨n, hn, hkey, hval⟩

/-- The node above a place. -/
theorem HasTree.child_above {f : Frame (π × κ × ν)} (h : HasTree heap (plug t (f :: path))) :
    ∃ n, heap f.value.1 = some n ∧ n.child f.dir = top t := by
  obtain ⟨n, hn, hlinks⟩ := exists_of_view (IsTree.load_above h)
  refine ⟨n, hn, ?_⟩
  rw [← Node.links_child, hlinks, Links.child_toward]

/-- `first_child`: the left child if there is one, otherwise the right one. -/
theorem firstChild_eq (h : HasTree heap (plug (.node e l r) path)) :
    firstChild heap e.1 = some (if top l = none then top r else top l) := by
  obtain ⟨n, hn, -, -, hleft, hright, -⟩ := h.load
  rw [firstChild, hn, Option.bind_eq_bind, Option.bind_some, hleft, hright]
  rfl

/-- The root has no parent. -/
theorem parent_eq (h : HasTree heap (plug (.node e l r) path)) :
    ∃ n, heap e.1 = some n ∧ n.parent = above path := by
  obtain ⟨n, hn, -, -, -, -, hparent⟩ := h.load
  exact ⟨n, hn, hparent⟩

/-- `sibling`: what is to the right of the path. -/
theorem sibling_eq [DecidableEq π] (h : HasTree heap (plug (.node e l r) path)) :
    sibling heap e.1 = some (match path with
      | [] => none
      | f :: _ => if f.dir = .left then top f.sibling else none) := by
  obtain ⟨n, hn, hparent⟩ := parent_eq h
  rw [sibling, hn, Option.bind_eq_bind, Option.bind_some, hparent]
  cases path with
  | nil => rfl
  | cons f path =>
    obtain ⟨q, hq, hlinks⟩ := exists_of_view (IsTree.load_above h)
    have hchild := congrArg Links.left hlinks
    have hother := congrArg Links.right hlinks
    simp only [above, hq, Option.bind_some]
    cases hd : f.dir with
    | left =>
      rw [hd] at hchild hother
      rw [show q.left = some e.1 from hchild, show q.right = top f.sibling from hother, if_pos rfl,
        if_pos rfl]
      rfl
    | right =>
      -- the node is the right child, and its sibling, if any, another node
      rw [hd] at hchild
      have hne : q.left ≠ some e.1 := by
        rw [show q.left = top f.sibling from hchild]
        exact IsTree.top_ne_sibling h rfl
      rw [if_neg hne, if_neg (fun hdir => by cases hdir)]
      rfl

/-! ## 2. Positions under a node -/

/-- The depth of the deepest node of a tree whose root is at a depth, or 0 for no node. -/
def deepest (depth : Nat) : BinaryTree (π × κ × ν) → Nat
  | .nil => 0
  | .node e l r => depth + (BinaryTree.node e l r).height

theorem deepest_nil (depth : Nat) : deepest depth (.nil : BinaryTree (π × κ × ν)) = 0 := rfl

theorem deepest_node (depth : Nat) (e : π × κ × ν) (l r : BinaryTree (π × κ × ν)) :
    deepest depth (.node e l r) =
      max (depth + 1) (max (deepest (depth + 1) l) (deepest (depth + 1) r)) := by
  cases l <;> cases r <;> simp only [deepest, BinaryTree.height] <;> omega

theorem height_node (e : π × κ × ν) (l r : BinaryTree (π × κ × ν)) :
    (BinaryTree.node e l r).height = max 1 (max (deepest 1 l) (deepest 1 r)) := by
  have hnode := deepest_node 0 e l r
  rwa [deepest, Nat.zero_add] at hnode

theorem lt_deepest {depth : Nat} {p : π} (h : top t = some p) : depth < deepest depth t := by
  cases t with
  | nil => cases h
  | node e l r =>
    rw [deepest, BinaryTree.height]
    omega

/-- The nodes to the right of a path. -/
def toCome : List (Frame (π × κ × ν)) → Nat
  | [] => 0
  | f :: path => (if f.dir = .left then f.sibling.numNodes else 0) + toCome path

/-- The depth of the deepest of them. -/
def reach : List (Frame (π × κ × ν)) → Nat
  | [] => 0
  | f :: path =>
    max (if f.dir = .left then deepest (path.length + 1) f.sibling else 0) (reach path)

section Frames

variable (e : π × κ × ν) (t : BinaryTree (π × κ × ν)) (path : List (Frame (π × κ × ν)))

theorem toCome_left : toCome (⟨.left, e, t⟩ :: path) = t.numNodes + toCome path := rfl

theorem toCome_right : toCome (⟨.right, e, t⟩ :: path) = toCome path := Nat.zero_add _

theorem reach_left :
    reach (⟨.left, e, t⟩ :: path) = max (deepest (path.length + 1) t) (reach path) := rfl

theorem reach_right : reach (⟨.right, e, t⟩ :: path) = reach path := Nat.zero_max _

end Frames

/-- Nothing is to come beside a frame without a sibling to the right. -/
theorem skip_frame {d : Dir} (v : π × κ × ν) {s : BinaryTree (π × κ × ν)}
    (path : List (Frame (π × κ × ν))) (h : ¬(d = .left ∧ s ≠ .nil)) :
    reach (⟨d, v, s⟩ :: path) = reach path ∧ toCome (⟨d, v, s⟩ :: path) = toCome path := by
  cases d with
  | right => exact ⟨reach_right v s path, toCome_right v s path⟩
  | left =>
    have hs : s = .nil := by_contra fun hs => h ⟨rfl, hs⟩
    rw [hs, reach_left, deepest_nil, Nat.zero_max, toCome_left, BinaryTree.numNodes, Nat.zero_add]
    exact ⟨rfl, rfl⟩

/-- The cursor is at a place under a node. -/
structure At (R : BinaryTree (π × κ × ν)) (c : Cursor π) (t : BinaryTree (π × κ × ν))
    (path : List (Frame (π × κ × ν))) : Prop where
  place : plug t path = R
  node : top t = some c.node
  height : c.height = path.length + 1
  maxheight : c.height ≤ c.maxheight
  visited : ∀ p ∈ c.visited, p ∈ (inorder R).map Prod.fst

section Traversal

variable {R : BinaryTree (π × κ × ν)} {c : Cursor π} {path₀ : List (Frame (π × κ × ν))}

theorem At.hasTree (h : HasTree heap (plug R path₀)) (hc : At R c t path) :
    HasTree heap (plug t (path ++ path₀)) := by
  rw [plug_append, hc.place]
  exact h

/-- The parent of the node. -/
theorem At.parent_eq {f : Frame (π × κ × ν)} (h : HasTree heap (plug R path₀))
    (hc : At R c t (f :: path)) : ∃ n, heap c.node = some n ∧ n.parent = some f.value.1 := by
  have hnode := hc.node
  cases t with
  | nil => cases hnode
  | node e l r =>
    rw [← Option.some.inj hnode]
    exact Maps.parent_eq (hc.hasTree h)

theorem At.sibling_eq [DecidableEq π] {f : Frame (π × κ × ν)} (h : HasTree heap (plug R path₀))
    (hc : At R c t (f :: path)) :
    sibling heap c.node = some (if f.dir = .left then top f.sibling else none) := by
  have hnode := hc.node
  cases t with
  | nil => cases hnode
  | node e l r =>
    rw [← Option.some.inj hnode]
    exact Maps.sibling_eq (hc.hasTree h)

/-- One step down. -/
theorem At.down {d : Dir} {u s : BinaryTree (π × κ × ν)} {p : π} (hc : At R c (join d e u s) path)
    (hp : top u = some p) :
    At R
      { node := p
        height := c.height + 1
        maxheight := if c.height + 1 > c.maxheight then c.height + 1 else c.maxheight
        visited := c.visited ++ [p] } u (⟨d, e, s⟩ :: path) where
  place := hc.place
  node := hp
  height := by
    have hheight := hc.height
    simp only [List.length_cons, Nat.cast_add, Nat.cast_one]
    omega
  maxheight := by
    have hmax := hc.maxheight
    dsimp only
    split <;> omega
  visited := by
    refine fun q hq => (List.mem_append.mp hq).elim (hc.visited q) fun hq => ?_
    obtain rfl := List.mem_singleton.mp hq
    rw [← hc.place, inorder_plug, List.map_append, List.map_append]
    refine List.mem_append_left _ (List.mem_append_right _ ?_)
    have hmem := top_mem hp
    cases d with
    | left =>
      rw [join, inorder, List.map_append]
      exact List.mem_append_left _ hmem
    | right =>
      rw [join, inorder, List.map_append, List.map_cons]
      exact List.mem_append_right _ (List.mem_cons_of_mem _ hmem)

/-- One step up. -/
theorem At.up {f : Frame (π × κ × ν)} (hc : At R c t (f :: path)) :
    At R
      { c with
        node := f.value.1
        height := c.height - 1
        visited := c.visited ++ [f.value.1] } (f.fill t) path where
  place := hc.place
  node := top_fill f t
  height := by
    have hheight := hc.height
    rw [List.length_cons] at hheight
    dsimp only
    omega
  maxheight := by
    have hmax := hc.maxheight
    dsimp only
    omega
  visited := by
    refine fun q hq => (List.mem_append.mp hq).elim (hc.visited q) fun hq => ?_
    obtain rfl := List.mem_singleton.mp hq
    rw [← hc.place, plug, inorder_plug, List.map_append, List.map_append]
    exact List.mem_append_left _ (List.mem_append_right _ (top_mem (top_fill f t)))

/-- One step to the sibling. -/
theorem At.over {v e : π × κ × ν} (hc : At R c t (⟨.left, v, .node e l r⟩ :: path)) :
    At R { c with node := e.1, visited := c.visited ++ [e.1] } (.node e l r)
      (⟨.right, v, t⟩ :: path) where
  place := hc.place
  node := rfl
  height := hc.height
  maxheight := hc.maxheight
  visited := by
    refine fun q hq => (List.mem_append.mp hq).elim (hc.visited q) fun hq => ?_
    obtain rfl := List.mem_singleton.mp hq
    rw [← hc.place, plug, inorder_plug, List.map_append, List.map_append]
    refine List.mem_append_left _ (List.mem_append_right _ (List.mem_map_of_mem ?_))
    exact List.mem_append_right _ (List.mem_cons_of_mem _
      (List.mem_append_right _ List.mem_cons_self))

/-- **The descent** ends at a leaf, and what is still to come there is less. -/
theorem At.descend (h : HasTree heap (plug R path₀)) {fuel : Nat} (hc : At R c t path)
    (hfuel : t.numNodes < fuel) :
    ∃ c' t' path', Maps.descend heap fuel c = some c' ∧ At R c' t' path' ∧
      max c'.maxheight (reach path' : Int) =
        max c.maxheight (max (deepest (path.length) t) (reach path) : Nat) ∧
      toCome path' < t.numNodes + toCome path := by
  induction t generalizing c path fuel with
  | nil => cases hc.node
  | node e l r ihl ihr =>
    obtain ⟨fuel, rfl⟩ := Nat.exists_eq_succ_of_ne_zero (Nat.ne_zero_of_lt hfuel)
    rw [BinaryTree.numNodes] at hfuel
    have hnode : e.1 = c.node := Option.some.inj hc.node
    have hheight := hc.height
    have hmax := hc.maxheight
    rw [Maps.descend, ← hnode, firstChild_eq (hc.hasTree h), Option.bind_eq_bind,
      Option.bind_some]
    cases l with
    | node e' l' r' =>
      -- to the left child
      have hlt : (BinaryTree.node e' l' r').numNodes < fuel := by omega
      obtain ⟨c', t', path', hrun, hc', hreach, hcome⟩ :=
        ihl (hc.down (d := .left) (s := r) rfl) hlt
      refine ⟨c', t', path', hrun, hc', ?_, ?_⟩
      · have hdeep : path.length + 1 < deepest (path.length + 1) (.node e' l' r') :=
          lt_deepest rfl
        rw [hreach, deepest_node _ e, reach_left, List.length_cons]
        dsimp only
        split <;> omega
      · rw [toCome_left] at hcome
        rw [BinaryTree.numNodes]
        omega
    | nil =>
      cases r with
      | node e' l' r' =>
        -- to the right child, as there is no left one
        have hlt : (BinaryTree.node e' l' r').numNodes < fuel := by omega
        obtain ⟨c', t', path', hrun, hc', hreach, hcome⟩ :=
          ihr (hc.down (d := .right) (s := .nil) rfl) hlt
        refine ⟨c', t', path', hrun, hc', ?_, ?_⟩
        · have hdeep : path.length + 1 < deepest (path.length + 1) (.node e' l' r') :=
            lt_deepest rfl
          rw [hreach, deepest_node _ e, reach_right, List.length_cons, deepest_nil]
          dsimp only
          split <;> omega
        · rw [toCome_right] at hcome
          rw [BinaryTree.numNodes]
          omega
      | nil =>
        refine ⟨c, _, path, rfl, hc, ?_, ?_⟩
        · rw [deepest_node, deepest_nil]
          omega
        · rw [BinaryTree.numNodes]
          omega

variable [DecidableEq π]

/-- **The climb** ends at the node, or beside a sibling to the right; what is still to come stays
the same. -/
theorem At.climb {e₀ : π × κ × ν} {l₀ r₀ : BinaryTree (π × κ × ν)} (hR : R = .node e₀ l₀ r₀)
    (h : HasTree heap (plug R path₀)) {fuel : Nat} (hc : At R c t path)
    (hfuel : path.length < fuel) :
    ∃ c' t' path', Maps.climb heap e₀.1 fuel c = some c' ∧ At R c' t' path' ∧
      c'.maxheight = c.maxheight ∧ reach path' = reach path ∧ toCome path' = toCome path ∧
      (path' = [] ∨ ∃ e e' l r path₁, path' = ⟨.left, e, .node e' l r⟩ :: path₁) := by
  induction path generalizing c t fuel with
  | nil =>
    obtain ⟨fuel, rfl⟩ := Nat.exists_eq_succ_of_ne_zero (Nat.ne_zero_of_lt hfuel)
    refine ⟨c, t, [], ?_, hc, rfl, rfl, rfl, Or.inl rfl⟩
    have ht : t = .node e₀ l₀ r₀ := hc.place.trans hR
    subst ht
    have hnode : e₀.1 = c.node := Option.some.inj hc.node
    rw [Maps.climb, ← hnode, Maps.sibling_eq (hc.hasTree h), Option.bind_eq_bind, Option.bind_some,
      if_neg (fun hcond => hcond.2 rfl)]
  | cons f path ih =>
    obtain ⟨fuel, rfl⟩ := Nat.exists_eq_succ_of_ne_zero (Nat.ne_zero_of_lt hfuel)
    have hne : c.node ≠ e₀.1 := by
      have htop := IsTree.top_ne_root (hc.hasTree h) (hc.place.trans hR) (List.cons_ne_nil _ _)
      rw [hc.node] at htop
      exact fun heq => htop (congrArg some heq)
    obtain ⟨d, v, s⟩ := f
    have hsib := hc.sibling_eq h
    rw [Maps.climb, hsib, Option.bind_eq_bind, Option.bind_some]
    by_cases hstop : d = .left ∧ s ≠ .nil
    · -- there is a sibling to the right
      obtain ⟨rfl, hs⟩ := hstop
      cases s with
      | nil => exact absurd rfl hs
      | node e' l r =>
        refine ⟨c, t, _, ?_, hc, rfl, rfl, rfl, Or.inr ⟨v, e', l, r, path, rfl⟩⟩
        rw [if_neg (fun hcond => by cases hcond.1)]
    · -- there is none, and the cursor goes to the parent
      have hnone : (if d = .left then top s else none) = none := by
        by_cases hd : d = .left
        · have hs : s = .nil := by_contra fun hs => hstop ⟨hd, hs⟩
          rw [if_pos hd, hs]
          rfl
        · exact if_neg hd
      obtain ⟨n, hn, hparent⟩ := hc.parent_eq h
      obtain ⟨c', t', path', hrun, hc', hmax, hreach, hcome, hend⟩ :=
        ih hc.up (Nat.lt_of_succ_lt_succ hfuel)
      obtain ⟨hreach', hcome'⟩ := skip_frame v path hstop
      refine ⟨c', t', path', ?_, hc', hmax, hreach.trans hreach'.symm, hcome.trans hcome'.symm,
        hend⟩
      rw [if_pos ⟨hnone, hne⟩, hn, Option.bind_eq_bind, Option.bind_some, hparent]
      exact hrun

/-- **The traversal** ends, with the depth of the deepest node that was still to come. -/
theorem At.traverse {e₀ : π × κ × ν} {l₀ r₀ : BinaryTree (π × κ × ν)} (hR : R = .node e₀ l₀ r₀)
    (h : HasTree heap (plug R path₀)) {passes : Nat} (hpasses : R.numNodes < passes) {fuel : Nat}
    (hc : At R c t path) (hne : path ≠ []) (hfuel : t.numNodes + toCome path < fuel) :
    ∃ c', Maps.traverse heap e₀.1 passes fuel c = some c' ∧
      c'.maxheight = max c.maxheight (max (deepest path.length t) (reach path) : Nat) ∧
      ∀ p ∈ c'.visited, p ∈ (inorder R).map Prod.fst := by
  induction fuel generalizing c t path with
  | zero => exact absurd hfuel (Nat.not_lt_zero _)
  | succ fuel ih =>
    have hroot : c.node ≠ e₀.1 := by
      have htop := IsTree.top_ne_root (hc.hasTree h) (hc.place.trans hR) hne
      rw [hc.node] at htop
      exact fun heq => htop (congrArg some heq)
    have hsize := numNodes_plug t path
    rw [hc.place] at hsize
    obtain ⟨c₁, t₁, path₁, hrun₁, hc₁, hreach₁, hcome₁⟩ := hc.descend h (by omega : _ < passes)
    have hsize₁ := numNodes_plug t₁ path₁
    have hlen₁ := length_le_context path₁
    rw [hc₁.place] at hsize₁
    obtain ⟨c₂, t₂, path₂, hrun₂, hc₂, hmax₂, hreach₂, hcome₂, hend⟩ :=
      hc₁.climb hR h (by omega : _ < passes)
    have hheight := hc₂.height
    have hle := hc₂.maxheight
    rw [Maps.traverse, if_neg hroot, hrun₁, Option.bind_eq_bind, Option.bind_some, hrun₂,
      Option.bind_some]
    rcases hend with rfl | ⟨v, e, l, r, path₃, rfl⟩
    · -- all the way up
      have hnode : c₂.node = e₀.1 := by
        have ht : t₂ = .node e₀ l₀ r₀ := hc₂.place.trans hR
        subst ht
        exact (Option.some.inj hc₂.node).symm
      obtain ⟨fuel, rfl⟩ := Nat.exists_eq_succ_of_ne_zero (by omega : fuel ≠ 0)
      refine ⟨c₂, ?_, ?_, hc₂.visited⟩
      · rw [if_pos hnode, Maps.traverse, if_pos hnode]
      · rw [← hreach₁, ← hreach₂, reach]
        omega
    · -- over to the sibling
      have hnode : c₂.node ≠ e₀.1 := by
        have htop := IsTree.top_ne_root (hc₂.hasTree h) (hc₂.place.trans hR)
          (List.cons_ne_nil _ _)
        rw [hc₂.node] at htop
        exact fun heq => htop (congrArg some heq)
      rw [toCome_left] at hcome₂
      obtain ⟨c', hrun, hmax, hvisited⟩ := ih hc₂.over (List.cons_ne_nil _ _)
        (by rw [toCome_right]; omega)
      refine ⟨c', ?_, ?_, hvisited⟩
      · rw [if_neg hnode, hc₂.sibling_eq h, Option.bind_eq_bind, Option.bind_some]
        exact hrun
      · rw [hmax, ← hreach₁, ← hreach₂, reach_left, reach_right, List.length_cons]
        dsimp only
        omega

end Traversal

/-! ## 3. The height -/

/-- The first child of a node. -/
theorem At.first {d : Dir} {u s : BinaryTree (π × κ × ν)} {p : π} (hp : top u = some p) :
    At (join d e u s) { node := p, height := 2, maxheight := 2, visited := [e.1, p] } u
      [⟨d, e, s⟩] where
  place := rfl
  node := hp
  height := rfl
  maxheight := Int.le_refl 2
  visited := by
    intro q hq
    rw [((inorder_join_perm d e u s).map Prod.fst).mem_iff, List.map_cons, List.map_append]
    rcases List.mem_cons.mp hq with rfl | hq
    · exact List.mem_cons_self
    · obtain rfl := List.mem_singleton.mp hq
      exact List.mem_cons_of_mem _ (List.mem_append_left _ (top_mem hp))

section Height

variable [DecidableEq π] {passes : Nat}

/-- From the first child to the end. -/
theorem traverse_first {d : Dir} {u s : BinaryTree (π × κ × ν)} {p : π}
    (h : HasTree heap (plug (join d e u s) path)) (hp : top u = some p)
    (hs : d = .left ∨ s = .nil) (hpasses : (join d e u s).numNodes < passes) :
    ∃ c, traverse heap e.1 passes passes
        { node := p, height := 2, maxheight := 2, visited := [e.1, p] } = some c ∧
      c.maxheight = ((join d e u s).height : Int) ∧
      ∀ q ∈ c.visited, q ∈ (inorder (join d e u s)).map Prod.fst := by
  have hfirst := At.first (d := d) (e := e) (s := s) hp
  have hdeep : 1 < deepest 1 u := lt_deepest hp
  have hsize : (join d e u s).numNodes = u.numNodes + s.numNodes + 1 := by
    cases d with
    | left => rfl
    | right => rw [join, BinaryTree.numNodes, Nat.add_comm s.numNodes]
  have hheight : (join d e u s).height = max 1 (max (deepest 1 u) (deepest 1 s)) := by
    cases d with
    | left => exact height_node e u s
    | right => rw [join, height_node, Nat.max_comm (deepest 1 s)]
  obtain ⟨hcome, hreach⟩ : toCome [⟨d, e, s⟩] = s.numNodes ∧ reach [⟨d, e, s⟩] = deepest 1 s := by
    rcases hs with rfl | rfl
    · exact ⟨rfl, Nat.max_zero _⟩
    · cases d with
      | left => exact ⟨rfl, rfl⟩
      | right => exact ⟨rfl, rfl⟩
  have hR : ∃ l r, join d e u s = .node e l r := by
    cases d with
    | left => exact ⟨u, s, rfl⟩
    | right => exact ⟨s, u, rfl⟩
  obtain ⟨l, r, hR⟩ := hR
  obtain ⟨c, hrun, hmax, hvisited⟩ := hfirst.traverse hR h hpasses (List.cons_ne_nil _ _)
    (by rw [hcome]; omega : _ < passes)
  refine ⟨c, hrun, ?_, hvisited⟩
  rw [hmax, hreach, hheight, List.length_singleton]
  dsimp only
  omega

/-- **The height of a node.**  In a tree with consistent pointers, `node_height` of any node ends
with the number of nodes on the longest path down from it, and it goes only to nodes below. -/
theorem nodeHeight_eq (h : HasTree heap (plug t path)) (hpasses : t.numNodes < passes) :
    ∃ visited, nodeHeight heap passes (top t) = some ((t.height : Int), visited) ∧
      ∀ p ∈ visited, p ∈ (inorder t).map Prod.fst := by
  cases t with
  | nil => exact ⟨[], rfl, fun p hp => absurd hp List.not_mem_nil⟩
  | node e l r =>
    rw [top, nodeHeight, firstChild_eq h, Option.bind_eq_bind, Option.bind_some]
    cases l with
    | node e' l' r' =>
      obtain ⟨c, hrun, hmax, hvisited⟩ := traverse_first (d := .left) h rfl (Or.inl rfl) hpasses
      refine ⟨c.visited, ?_, hvisited⟩
      rw [if_neg (fun hnone => by cases hnone), top]
      simp only [hrun, Option.bind_eq_bind, Option.bind_some, hmax]
      rfl
    | nil =>
      cases r with
      | node e' l' r' =>
        obtain ⟨c, hrun, hmax, hvisited⟩ := traverse_first (d := .right) h rfl (Or.inr rfl) hpasses
        refine ⟨c.visited, ?_, hvisited⟩
        rw [top, top, if_pos rfl]
        simp only [hrun, Option.bind_eq_bind, Option.bind_some, hmax]
        rfl
      | nil =>
        refine ⟨[e.1], rfl, fun p hp => ?_⟩
        obtain rfl := List.mem_singleton.mp hp
        exact List.mem_cons_self

/-- **`node_height` is right and ends.**  In a tree with consistent pointers, for every node of it,
the loops end with the number of nodes on the longest path down from that node, and the traversal
never goes to a node that is not below it.  (Of the parent it reads the two children, to see if
there is a sibling.) -/
theorem nodeHeight_correct (e : π × κ × ν) (l r : BinaryTree (π × κ × ν))
    (path : List (Frame (π × κ × ν))) (h : HasTree heap t) (hplace : plug (.node e l r) path = t)
    (hpasses : (BinaryTree.node e l r).numNodes < passes) :
    ∃ visited, nodeHeight heap passes (some e.1) =
        some (((BinaryTree.node e l r).height : Int), visited) ∧
      ∀ p ∈ visited, p ∈ (inorder (.node e l r)).map Prod.fst := by
  subst hplace
  exact nodeHeight_eq h hpasses

end Height

/-- Five nodes: 0 has the children 1 and 2, and 1 has the children 3 and 4. -/
def fiveNodes : Nat → Option (Node Nat Nat Nat)
  | 0 => some ⟨4, 0, some 1, some 2, none, some 1, none⟩
  | 1 => some ⟨2, 0, some 3, some 4, some 0, some 2, some 0⟩
  | 2 => some ⟨5, 0, none, none, some 0, some 3, some 1⟩
  | 3 => some ⟨1, 0, none, none, some 1, some 4, some 2⟩
  | 4 => some ⟨3, 0, none, none, some 1, none, some 3⟩
  | _ => none

/-- They are a tree. -/
theorem fiveNodes_hasTree : HasTree fiveNodes (.node (0, 4, 0)
    (.node (1, 2, 0) (.node (3, 1, 0) .nil .nil) (.node (4, 3, 0) .nil .nil))
    (.node (2, 5, 0) .nil .nil)) where
  holds := by
    intro x hx
    simp only [cells, Multiset.mem_add, Multiset.mem_singleton, Multiset.notMem_zero,
      or_false] at hx
    rcases hx with rfl | (rfl | rfl | rfl) | rfl <;> rfl
  nodup := by decide

/-- The node 1 is a left child with a sibling: the traversal stops there all the same. -/
theorem nodeHeight_correct_leftChild :
    ∃ visited, nodeHeight fiveNodes 4 (some 1) = some (2, visited) ∧ ∀ p ∈ visited, p ∈ [3, 1, 4] :=
  nodeHeight_correct (1, 2, 0) (.node (3, 1, 0) .nil .nil) (.node (4, 3, 0) .nil .nil)
    [⟨.left, (0, 4, 0), .node (2, 5, 0) .nil .nil⟩] fiveNodes_hasTree rfl (by decide)

end HdfStream.Maps
