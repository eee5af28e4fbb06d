/-
# The tree that the heap represents

`Represents tree t K`: the nodes of the heap are exactly those of the binary tree `t`, with
consistent pointers, and they are linked in the chain `K`.  The two structures use different fields
of the same nodes, so that a write to the one leaves the other alone; `WritesLinks` and
`WritesChain` say which writes are which.

The functions that change pointers and call no other function that does are described here, each
by what it makes of the tree and of the chain: the rotations, `new_node` and `dealloc_node`.
-/
import HdfStream.Lib.DoublyLinked
import HdfStream.Maps.NodeHeight

namespace HdfStream.Maps

open Cells Zipper LinkedTree

variable {π κ ν : Type}

/-! ## 1. Two structures on the same nodes -/

/-- What a node holds, of the chain. -/
def Node.chain (n : Node π κ ν) : DoublyLinked.Item π Unit where
  prev := n.prev
  next := n.next
  data := ()

/-- The cells of the tree and those of the chain. -/
structure Shape (heap : π → Option (Node π κ ν)) (S : Multiset (π × Links π (κ × ν)))
    (K : Multiset (π × DoublyLinked.Item π Unit)) : Prop where
  links : Exactly (view Node.links heap) S
  chain : Exactly (view Node.chain heap) K

/-- A write that the chain does not see. -/
structure WritesLinks (f : Node π κ ν → Node π κ ν)
    (f' : Links π (κ × ν) → Links π (κ × ν)) : Prop where
  links : ∀ n, (f n).links = f' n.links
  chain : ∀ n, (f n).chain = n.chain

/-- A write that the tree does not see. -/
structure WritesChain (f : Node π κ ν → Node π κ ν)
    (f' : DoublyLinked.Item π Unit → DoublyLinked.Item π Unit) : Prop where
  chain : ∀ n, (f n).chain = f' n.chain
  links : ∀ n, (f n).links = n.links

theorem writes_setChild (d : Dir) (c : Option π) :
    WritesLinks (κ := κ) (ν := ν) (Node.setChild d c) (Links.setChild d c) where
  links := fun n => by cases d <;> rfl
  chain := fun n => by cases d <;> rfl

theorem writes_setParent (q : Option π) :
    WritesLinks (κ := κ) (ν := ν) (Node.setParent q) (Links.setParent q) where
  links := fun _ => rfl
  chain := fun _ => rfl

theorem writes_replaceChild [DecidableEq π] (d : Dir) (old new : Option π) :
    WritesLinks (κ := κ) (ν := ν)
      (fun n => if n.child d = old then n.setChild d new else n.setChild d.opp new)
      (Links.replaceChild d old new) where
  links := by
    intro n
    rw [Links.replaceChild, Node.links_child, apply_ite Node.links, (writes_setChild d new).links,
      (writes_setChild d.opp new).links]
  chain := by
    intro n
    rw [apply_ite Node.chain, (writes_setChild d new).chain, (writes_setChild d.opp new).chain,
      ite_self]

theorem writes_data (k : κ) (v : ν) :
    WritesLinks (π := π) (fun n => { n with key := k, val := v }) (Links.setData (k, v)) where
  links := fun _ => rfl
  chain := fun _ => rfl

theorem writes_next (a : Option π) :
    WritesChain (κ := κ) (ν := ν) (fun n => { n with next := a }) (DoublyLinked.Item.setNext a)
    where
  chain := fun _ => rfl
  links := fun _ => rfl

theorem writes_prev (b : Option π) :
    WritesChain (κ := κ) (ν := ν) (fun n => { n with prev := b }) (DoublyLinked.Item.setPrev b)
    where
  chain := fun _ => rfl
  links := fun _ => rfl

namespace Shape

variable {heap : π → Option (Node π κ ν)} {S R : Multiset (π × Links π (κ × ν))}
  {K : Multiset (π × DoublyLinked.Item π Unit)} {p : π} {x : Links π (κ × ν)}

theorem load_of_mem (h : Shape heap S K) (hp : (p, x) ∈ S) : ∃ n, heap p = some n ∧ n.links = x :=
  exists_of_view (h.links.holds _ hp)

theorem load (h : Shape heap ({(p, x)} + R) K) : ∃ n, heap p = some n ∧ n.links = x :=
  h.load_of_mem (Multiset.mem_add.mpr (Or.inl (Multiset.mem_singleton_self _)))

theorem isSome_of_mem (h : Shape heap S K) (hp : p ∈ addrs S) : (heap p).isSome := by
  rw [h.links.mem_iff, view_isSome] at hp
  exact hp

theorem congr {S' : Multiset (π × Links π (κ × ν))} (h : Shape heap S K) (hS : S = S') :
    Shape heap S' K := hS ▸ h

theorem congrChain {K' : Multiset (π × DoublyLinked.Item π Unit)} (h : Shape heap S K)
    (hK : K = K') : Shape heap S K' := hK ▸ h

theorem loadChain {y : DoublyLinked.Item π Unit} {T : Multiset (π × DoublyLinked.Item π Unit)}
    (h : Shape heap S ({(p, y)} + T) ) : ∃ n, heap p = some n ∧ n.chain = y :=
  exists_of_view h.chain.load

variable [DecidableEq π] {f : Node π κ ν → Node π κ ν} {f' : Links π (κ × ν) → Links π (κ × ν)}

/-- A write to a node of the tree. -/
theorem write (h : Shape heap ({(p, x)} + R) K) (hf : WritesLinks f f') :
    ∃ heap', store heap p f = some heap' ∧ Shape heap' ({(p, f' x)} + R) K := by
  obtain ⟨n, hn, -⟩ := h.load
  refine ⟨modify heap p f, store_eq hn f, ?_, ?_⟩
  · rw [view_modify hf.links]
    exact h.links.modify f'
  · rw [view_modify_same hf.chain]
    exact h.chain

/-- A subtree gets another parent. -/
theorem reparent {t : BinaryTree (π × κ × ν)} {q : Option π} (h : Shape heap (cells q t + R) K)
    (q' : Option π) :
    ∃ heap', storeIf heap (top t) (Node.setParent q') = some heap' ∧
      Shape heap' (cells q' t + R) K := by
  refine ⟨modifyIf heap (top t) (Node.setParent q'), storeIf_eq (fun p hp => h.isSome_of_mem ?_) _,
    ?_, ?_⟩
  · rw [addrs_add]
    exact Multiset.mem_add.mpr (Or.inl (top_mem_addrs hp q))
  · rw [view_modifyIf (writes_setParent q').links]
    exact LinkedTree.reparent h.links q'
  · rw [view_modifyIf_same (writes_setParent q').chain]
    exact h.chain

/-- The node above gets another child. -/
theorem rechild {path : List (Frame (π × κ × ν))} (h : Shape heap (around (some p) path + R) K)
    (hp : p ∈ addrs R) (hf : WritesLinks f f') {d : Dir} {c : Option π}
    (hf' : f' = Links.replaceChild d (some p) c) :
    ∃ heap', storeIf heap (above path) f = some heap' ∧ Shape heap' (around c path + R) K := by
  subst hf'
  refine ⟨modifyIf heap (above path) f, storeIf_eq (fun q hq => h.isSome_of_mem ?_) _, ?_, ?_⟩
  · rw [addrs_add]
    exact Multiset.mem_add.mpr (Or.inl (above_mem_addrs hq _))
  · rw [view_modifyIf hf.links]
    exact LinkedTree.rechild h.links hp d c
  · rw [view_modifyIf_same hf.chain]
    exact h.chain

/-- The node above gets another child on the side of the place. -/
theorem setChildAbove {path : List (Frame (π × κ × ν))} {g : Frame (π × κ × ν)} {c : Option π}
    (h : Shape heap (around c (g :: path) + R) K) (c' : Option π) :
    ∃ heap', store heap g.value.1 (Node.setChild g.dir c') = some heap' ∧
      Shape heap' (around c' (g :: path) + R) K := by
  rw [around, add_assoc] at h ⊢
  have hwrite := h.write (writes_setChild g.dir c')
  rwa [Links.setChild_toward] at hwrite

section Chain

variable {b a : Option π} {L : List (π × Unit)} {T : Multiset (π × DoublyLinked.Item π Unit)}

/-- A write to an item of the chain. -/
theorem writeChain {g : DoublyLinked.Item π Unit → DoublyLinked.Item π Unit}
    {y : DoublyLinked.Item π Unit} (h : Shape heap S ({(p, y)} + T)) (hf : WritesChain f g) :
    ∃ heap', store heap p f = some heap' ∧ Shape heap' S ({(p, g y)} + T) := by
  obtain ⟨n, hn, -⟩ := h.loadChain
  refine ⟨modify heap p f, store_eq hn f, ?_, ?_⟩
  · rw [view_modify_same hf.links]
    exact h.links
  · rw [view_modify hf.chain]
    exact h.chain.modify g

omit [DecidableEq π] in
theorem isSome_of_memChain (h : Shape heap S T) (hp : p ∈ addrs T) : (heap p).isSome := by
  rw [h.chain.mem_iff, view_isSome] at hp
  exact hp

/-- A segment of the chain gets another item before it. -/
theorem relinkPrev (h : Shape heap S (DoublyLinked.cells b L a + T)) (b' : Option π) :
    ∃ heap', storeIf heap (DoublyLinked.firstOr none L) (fun n => { n with prev := b' }) =
      some heap' ∧ Shape heap' S (DoublyLinked.cells b' L a + T) := by
  refine ⟨_, storeIf_eq (fun p hp => h.isSome_of_memChain ?_) _, ?_, ?_⟩
  · rw [addrs_add, DoublyLinked.addrs_cells]
    exact Multiset.mem_add.mpr (Or.inl (DoublyLinked.mem_of_firstOr hp))
  · rw [view_modifyIf_same (writes_prev b').links]
    exact h.links
  · rw [view_modifyIf (writes_prev b').chain]
    exact DoublyLinked.relinkPrev h.chain b'

/-- A segment of the chain gets another item after it. -/
theorem relinkNext (h : Shape heap S (DoublyLinked.cells b L a + T)) (a' : Option π) :
    ∃ heap', storeIf heap (DoublyLinked.lastOr none L) (fun n => { n with next := a' }) =
      some heap' ∧ Shape heap' S (DoublyLinked.cells b L a' + T) := by
  refine ⟨_, storeIf_eq (fun p hp => h.isSome_of_memChain ?_) _, ?_, ?_⟩
  · rw [addrs_add, DoublyLinked.addrs_cells]
    exact Multiset.mem_add.mpr (Or.inl (DoublyLinked.mem_of_lastOr hp))
  · rw [view_modifyIf_same (writes_next a').links]
    exact h.links
  · rw [view_modifyIf (writes_next a').chain]
    exact DoublyLinked.relinkNext h.chain a'

end Chain

theorem alloc {n : Node π κ ν} (h : Shape heap S K) (hp : heap p = none) :
    ∃ heap', Cells.alloc heap p n = some heap' ∧
      Shape heap' ({(p, n.links)} + S) ({(p, n.chain)} + K) := by
  refine ⟨_, alloc_eq hp n, ?_, ?_⟩
  · rw [view_update]
    exact h.links.insert (view_eq_none _ hp) _
  · rw [view_update]
    exact h.chain.insert (view_eq_none _ hp) _

theorem free {y : DoublyLinked.Item π Unit} (h : Shape heap ({(p, x)} + S) ({(p, y)} + K)) :
    ∃ heap', Cells.free heap p = some heap' ∧ Shape heap' S K := by
  obtain ⟨n, hn, -⟩ := h.load
  refine ⟨_, free_eq hn, ?_, ?_⟩
  · rw [view_update]
    exact h.links.erase
  · rw [view_update]
    exact h.chain.erase

end Shape

/-- The tree and the chain of a `struct tree`. -/
structure Represents (tree : AvlTree π κ ν) (t : BinaryTree (π × κ × ν)) (K : List (π × Unit)) :
    Prop where
  shape : Shape tree.heap (cells none t) (DoublyLinked.cells none K none)
  root : tree.root = top t
  first : tree.first = DoublyLinked.firstOr none K
  prev : tree.prev = DoublyLinked.lastOr none K

theorem represents_new : Represents (avltreeNew : AvlTree π κ ν) .nil [] where
  shape := ⟨exactly_empty, exactly_empty⟩
  root := rfl
  first := rfl
  prev := rfl

section Tree

variable {tree : AvlTree π κ ν} {t : BinaryTree (π × κ × ν)} {K : List (π × Unit)}

theorem Represents.hasTree (h : Represents tree t K) : HasTree tree.heap t :=
  isTree_of_exactly h.shape.links

/-- **The chain has the nodes of the tree.** -/
theorem Represents.chain_perm (h : Represents tree t K) :
    (K.map Prod.fst).Perm ((inorder t).map Prod.fst) := by
  have haddrs := addrs_eq h.shape.chain h.shape.links fun p => by
    rw [view_isSome, view_isSome]
  rw [DoublyLinked.addrs_cells, LinkedTree.addrs_cells] at haddrs
  exact Multiset.coe_eq_coe.mp haddrs

end Tree

/-! ## 2. New nodes and free ones -/

section Allocation

variable [DecidableEq π] {tree : AvlTree π κ ν} {S : Multiset (π × Links π (κ × ν))}
  {K K' : List (π × Unit)} {p : π}

/-- **A new node** is the last of the chain, and not in the tree yet. -/
theorem newNode_eq (h : Shape tree.heap S (DoublyLinked.cells none K none))
    (hfirst : tree.first = DoublyLinked.firstOr none K)
    (hprev : tree.prev = DoublyLinked.lastOr none K) (hp : tree.heap p = none) (k : κ) (v : ν) :
    ∃ heap', newNode tree p k v = some ⟨heap', tree.root,
        DoublyLinked.firstOr none (K ++ [(p, ())]), DoublyLinked.lastOr none (K ++ [(p, ())])⟩ ∧
      Shape heap' ({(p, ⟨(k, v), none, none, none⟩)} + S)
        (DoublyLinked.cells none (K ++ [(p, ())]) none) := by
  obtain ⟨m₀, hrun₀, h₀⟩ := h.alloc (n := ⟨k, v, none, none, none, none, none⟩) hp
  have hfirst' : (if tree.first = none then some p else tree.first) =
      DoublyLinked.firstOr none (K ++ [(p, ())]) := by
    rw [hfirst, DoublyLinked.firstOr_append]
    exact DoublyLinked.firstOr_eq (some p) K
  rw [DoublyLinked.lastOr_append, ← hfirst']
  rcases List.eq_nil_or_concat K with rfl | ⟨K, e, rfl⟩
  · refine ⟨m₀, ?_, h₀⟩
    rw [newNode, hrun₀, hprev]
    rfl
  · -- the last node of the chain gets another one behind it
    rw [List.concat_eq_append] at hprev h₀ ⊢
    obtain ⟨m₁, hrun₁, h₁⟩ := (h₀.congrChain (add_comm _ _)).relinkNext (some p)
    obtain ⟨m₂, hrun₂, h₂⟩ := (h₁.congrChain (add_comm _ _)).writeChain (writes_prev (some e.1))
    rw [DoublyLinked.lastOr_append] at hrun₁ hprev
    rw [storeIf] at hrun₁
    refine ⟨m₂, ?_, h₂.congrChain ?_⟩
    · rw [newNode, hrun₀, hprev]
      simp only [Option.bind_eq_bind, Option.bind_some, hrun₁, hrun₂]
      rfl
    · rw [DoublyLinked.cells_append _ (K ++ [e]), DoublyLinked.lastOr_append, add_comm]
      rfl

/-- **A node that is in the tree no more** leaves the chain, and its memory is free. -/
theorem deallocNode_eq (tree : AvlTree π κ ν) {x : Links π (κ × ν)}
    (h : Shape tree.heap ({(p, x)} + S) (DoublyLinked.cells none (K ++ (p, ()) :: K') none))
    (hfirst : tree.first = DoublyLinked.firstOr none (K ++ (p, ()) :: K'))
    (hprev : tree.prev = DoublyLinked.lastOr none (K ++ (p, ()) :: K')) :
    ∃ heap', deallocNode tree p = some ⟨heap', tree.root, DoublyLinked.firstOr none (K ++ K'),
        DoublyLinked.lastOr none (K ++ K')⟩ ∧
      Shape heap' S (DoublyLinked.cells none (K ++ K') none) := by
  have hnodup := h.chain.nodup
  rw [DoublyLinked.addrs_cells, Multiset.coe_nodup] at hnodup
  have hfirst' := DoublyLinked.firstOr_removed hnodup
  have hlast' := DoublyLinked.lastOr_removed hnodup
  rw [DoublyLinked.cells_middle] at h
  obtain ⟨n, hn, hchain⟩ := h.loadChain
  obtain ⟨hnprev, hnnext, -⟩ := DoublyLinked.Item.mk.injEq .. ▸ hchain
  have hprevEq : n.prev = DoublyLinked.lastOr none K := hnprev
  have hnextEq : n.next = DoublyLinked.firstOr none K' := hnnext
  -- the neighbours get each other
  have h' : Shape tree.heap ({(p, x)} + S) (DoublyLinked.cells none K (some p) +
      ({(p, ⟨DoublyLinked.lastOr none K, DoublyLinked.firstOr none K', ()⟩)} +
        DoublyLinked.cells (some p) K' none)) := h.congrChain (by abel)
  obtain ⟨m₁, hrun₁, h₁⟩ := h'.relinkNext (DoublyLinked.firstOr none K')
  have h₁' : Shape m₁ ({(p, x)} + S)
      ({(p, ⟨DoublyLinked.lastOr none K, DoublyLinked.firstOr none K', ()⟩)} +
        (DoublyLinked.cells none K (DoublyLinked.firstOr none K') +
          DoublyLinked.cells (some p) K' none)) := h₁.congrChain (by abel)
  obtain ⟨n', hn', hchain'⟩ := h₁'.loadChain
  obtain ⟨hnprev', hnnext', -⟩ := DoublyLinked.Item.mk.injEq .. ▸ hchain'
  have hprevEq' : n'.prev = DoublyLinked.lastOr none K := hnprev'
  have hnextEq' : n'.next = DoublyLinked.firstOr none K' := hnnext'
  have h₁'' : Shape m₁ ({(p, x)} + S) (DoublyLinked.cells (some p) K' none +
      ({(p, ⟨DoublyLinked.lastOr none K, DoublyLinked.firstOr none K', ()⟩)} +
        DoublyLinked.cells none K (DoublyLinked.firstOr none K'))) := h₁'.congrChain (by abel)
  obtain ⟨m₂, hrun₂, h₂⟩ := h₁''.relinkPrev (DoublyLinked.lastOr none K)
  have h₂' : Shape m₂ ({(p, x)} + S)
      ({(p, ⟨DoublyLinked.lastOr none K, DoublyLinked.firstOr none K', ()⟩)} +
        DoublyLinked.cells none (K ++ K') none) :=
    h₂.congrChain (by rw [DoublyLinked.cells_append]; abel)
  obtain ⟨m₃, hrun₃, h₃⟩ := h₂'.free
  refine ⟨m₃, ?_, h₃⟩
  simp only [deallocNode, hn, Option.bind_eq_bind, Option.bind_some, hprevEq, hnextEq, hrun₁, hn',
    hprevEq', hnextEq', hrun₂, hrun₃, hfirst, hprev, hfirst', hlast']
  rfl

end Allocation

/-! ## 3. Rotations -/

section Rotation

variable [DecidableEq π] {tree : AvlTree π κ ν} {K : List (π × Unit)} {d : Dir} {x y : π × κ × ν}
  {A B C : BinaryTree (π × κ × ν)} {path : List (Frame (π × κ × ν))}

/-- The root of the tree, if the subtree at a place changes. -/
theorem Represents.root_eq {t u : BinaryTree (π × κ × ν)} {p : π}
    (h : Represents tree (plug t path) K) (ht : top t = some p) :
    (if some p = tree.root then top u else tree.root) = top (plug u path) := by
  rw [h.root]
  cases path with
  | nil => rw [plug, plug, ht, if_pos rfl]
  | cons f path =>
    rw [if_neg (IsTree.top_ne_top h.hasTree ht).symm]
    exact top_plug_cons t u f path

/-- **A rotation** at a place of the tree. -/
theorem rotate_represents (h : Represents tree (plug (join d x A (join d y B C)) path) K) :
    ∃ tree', rotate d tree x.1 = some tree' ∧
      Represents tree' (plug (join d y (join d x A B) C) path) K := by
  have hroot := h.root_eq (u := join d y (join d x A B) C) (top_join d x A _)
  -- the two nodes and what is around them
  have h₀ : Shape tree.heap
      ({(x.1, Links.toward d x.2 (top A) (some y.1) (above path))} +
        ({(y.1, Links.toward d y.2 (top B) (top C) (some x.1))} + cells (some x.1) A +
          cells (some y.1) B + cells (some y.1) C + around (some x.1) path))
      (DoublyLinked.cells none K none) := by
    refine h.shape.congr ?_
    rw [cells_plug, cells_join, cells_join, top_join, top_join]
    abel
  obtain ⟨nx, hnx, hlx⟩ := h₀.load
  have hpivot : nx.child d.opp = some y.1 := by
    rw [← Node.links_child, hlx, Links.child_opp_toward]
  have hparent : nx.parent = above path := by
    have hq := congrArg Links.parent hlx
    rwa [Links.parent_toward] at hq
  obtain ⟨ny, hny, hly⟩ := h₀.load_of_mem (p := y.1)
    (x := Links.toward d y.2 (top B) (top C) (some x.1)) (by simp)
  have hinner : ny.child d = top B := by rw [← Node.links_child, hly, Links.child_toward]
  -- the inner subtree goes from the pivot to the root
  obtain ⟨m₁, hrun₁, h₁⟩ := h₀.write (writes_setChild d.opp (top B))
  rw [Links.setChild_opp_toward] at h₁
  obtain ⟨ny₁, hny₁, hly₁⟩ := h₁.load_of_mem (p := y.1)
    (x := Links.toward d y.2 (top B) (top C) (some x.1)) (by simp)
  have hinner₁ : ny₁.child d = top B := by rw [← Node.links_child, hly₁, Links.child_toward]
  have h₁' : Shape m₁
      (cells (some y.1) B + ({(y.1, Links.toward d y.2 (top B) (top C) (some x.1))} +
        {(x.1, Links.toward d x.2 (top A) (top B) (above path))} + cells (some x.1) A +
          cells (some y.1) C + around (some x.1) path)) _ := h₁.congr (by abel)
  obtain ⟨m₂, hrun₂, h₂⟩ := h₁'.reparent (some x.1)
  -- the root goes below the pivot
  have h₂' : Shape m₂
      ({(y.1, Links.toward d y.2 (top B) (top C) (some x.1))} +
        ({(x.1, Links.toward d x.2 (top A) (top B) (above path))} + cells (some x.1) A +
          cells (some x.1) B + cells (some y.1) C + around (some x.1) path)) _ :=
    h₂.congr (by abel)
  obtain ⟨m₃, hrun₃, h₃⟩ := h₂'.write (writes_setChild d (some x.1))
  rw [Links.setChild_toward] at h₃
  have h₃' : Shape m₃
      ({(x.1, Links.toward d x.2 (top A) (top B) (above path))} +
        ({(y.1, Links.toward d y.2 (some x.1) (top C) (some x.1))} + cells (some x.1) A +
          cells (some x.1) B + cells (some y.1) C + around (some x.1) path)) _ :=
    h₃.congr (by abel)
  obtain ⟨m₄, hrun₄, h₄⟩ := h₃'.write (writes_setParent (some y.1))
  rw [Links.setParent_toward] at h₄
  -- the pivot gets the place of the root
  have h₄' : Shape m₄
      ({(y.1, Links.toward d y.2 (some x.1) (top C) (some x.1))} +
        ({(x.1, Links.toward d x.2 (top A) (top B) (some y.1))} + cells (some x.1) A +
          cells (some x.1) B + cells (some y.1) C + around (some x.1) path)) _ :=
    h₄.congr (by abel)
  obtain ⟨m₅, hrun₅, h₅⟩ := h₄'.write (writes_setParent (above path))
  rw [Links.setParent_toward] at h₅
  have h₅' : Shape m₅
      (around (some x.1) path +
        ({(y.1, Links.toward d y.2 (some x.1) (top C) (above path))} +
          {(x.1, Links.toward d x.2 (top A) (top B) (some y.1))} + cells (some x.1) A +
          cells (some x.1) B + cells (some y.1) C)) _ :=
    h₅.congr (by abel)
  obtain ⟨m₆, hrun₆, h₆⟩ := h₅'.rechild (by simp [addrs])
    (writes_replaceChild d (some x.1) (some y.1)) rfl
  rw [top_join] at hroot
  refine ⟨⟨m₆, if some x.1 = tree.root then some y.1 else tree.root, tree.first, tree.prev⟩, ?_,
    ?_, hroot, h.first, h.prev⟩
  · simp only [rotate, hnx, Option.bind_eq_bind, Option.bind_some, hpivot, hny, hinner, hrun₁, hny₁,
      hinner₁, hrun₂, hrun₃, hrun₄, hparent, hrun₅, hrun₆]
    rfl
  · refine h₆.congr ?_
    rw [cells_plug, cells_join, cells_join, top_join, top_join]
    abel

end Rotation

end HdfStream.Maps
