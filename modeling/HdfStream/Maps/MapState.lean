/-
# The entries of the ordered map

`IsMap cmpfunc om E` says that the ordered map has the entries `E`, from head to tail: the linked
list has their list items, in this order; the map items hold their keys and values; and the AVL
tree is a search tree with their keys, each of which leads to its own map item.

Every function does on the structures what its name says on the list of entries.  Where a list of
keys decides (a key is there or not), the functions find it out in the tree.
-/
import HdfStream.Maps.Keys
import HdfStream.Maps.OrderedMap

namespace HdfStream.Maps

open Cells Zipper LinkedTree DoublyLinked

variable {π κ ν : Type}

/-! ## 1. Entries -/

/-- An entry, with the addresses of its items. -/
structure Entry (π κ ν : Type) where
  key : κ
  value : Option ν
  item : π
  listItem : π

/-- The item of the list. -/
def Entry.inList (e : Entry π κ ν) : π × π := (e.listItem, e.item)

/-- The item of the map. -/
def Entry.inItems (e : Entry π κ ν) : π × OrderedMapItem π κ ν :=
  (e.item, ⟨e.key, e.value, e.listItem⟩)

/-- The pair of the tree. -/
def Entry.inTree (e : Entry π κ ν) : κ × π := (e.key, e.item)

/-- **The structures of the ordered map** have the entries `E`. -/
structure IsMap (cmpfunc : κ → κ → Int) (om : OrderedMap π κ ν)
    (t : BinaryTree (π × κ × π)) (K : List (π × Unit)) (E : List (Entry π κ ν)) : Prop where
  list : IsList om.list (E.map Entry.inList)
  items : Exactly om.items (E.map Entry.inItems : List (π × OrderedMapItem π κ ν))
  tree : Represents om.tree t K
  sorted : Sorted cmpfunc (pairs t)
  perm : (pairs t).Perm (E.map Entry.inTree)

section Facts

variable {cmpfunc : κ → κ → Int} {om : OrderedMap π κ ν} {t : BinaryTree (π × κ × π)}
  {K : List (π × Unit)} {E E₁ E₂ : List (Entry π κ ν)} {e : Entry π κ ν} {k : κ}

namespace IsMap

theorem numNodes (h : IsMap cmpfunc om t K E) : t.numNodes = E.length := by
  have hlen := h.perm.length_eq
  rwa [pairs, List.length_map, List.length_map, length_inorder] at hlen

theorem keys_perm (h : IsMap cmpfunc om t K E) :
    ((pairs t).map Prod.fst).Perm (E.map Entry.key) := by
  have hperm := h.perm.map Prod.fst
  rw [List.map_map] at hperm
  exact hperm

/-- The keys are different. -/
theorem nodup_keys (hcmp : StrictTotal cmpfunc) (h : IsMap cmpfunc om t K E) :
    (E.map Entry.key).Nodup :=
  h.keys_perm.nodup_iff.mp (h.sorted.nodup_keys hcmp)

theorem nodup_items (h : IsMap cmpfunc om t K E) : (E.map Entry.item).Nodup := by
  have hnodup := h.items.nodup
  rw [addrs, Multiset.map_coe, List.map_map, Multiset.coe_nodup] at hnodup
  exact hnodup

/-- The map item of an entry. -/
theorem loadItem (h : IsMap cmpfunc om t K E) (he : e ∈ E) :
    om.items e.item = some ⟨e.key, e.value, e.listItem⟩ :=
  h.items.holds e.inItems (Multiset.mem_coe.mpr (List.mem_map_of_mem he))

/-- The cells of an entry and those of the other ones. -/
theorem items_middle (h : IsMap cmpfunc om t K (E₁ ++ e :: E₂)) :
    Exactly om.items ({(e.item, ⟨e.key, e.value, e.listItem⟩)} +
      ((E₁ ++ E₂).map Entry.inItems : List (π × OrderedMapItem π κ ν))) := by
  refine h.items.congr ?_
  rw [Multiset.singleton_add, Multiset.cons_coe, Multiset.coe_eq_coe, List.map_append,
    List.map_cons, List.map_append]
  exact List.perm_middle

theorem list_middle (h : IsMap cmpfunc om t K (E₁ ++ e :: E₂)) :
    IsList om.list (E₁.map Entry.inList ++ e.inList :: E₂.map Entry.inList) := by
  have hlist := h.list
  rwa [List.map_append, List.map_cons] at hlist

/-- The place of a key that is there. -/
theorem locate_of_mem (hcmp : StrictTotal cmpfunc) (h : IsMap cmpfunc om t K E) (he : e ∈ E) :
    ∃ a l r, (locate (against cmpfunc e.key) t []).1 = .node a l r ∧ a.2 = e.inTree := by
  have hmem : e.inTree ∈ pairs t := h.perm.mem_iff.mpr (List.mem_map_of_mem he)
  cases hfound : (locate (against cmpfunc e.key) t []).1 with
  | nil => exact absurd (List.mem_map_of_mem hmem) (h.sorted.notMem hcmp hfound)
  | node a l r =>
    obtain ⟨hkey, ha⟩ := pair_of_locate hcmp hfound
    exact ⟨a, l, r, rfl, h.sorted.eq_of_key hcmp ha hmem hkey⟩

/-- A key that is not there has no place. -/
theorem locate_of_notMem (hcmp : StrictTotal cmpfunc) (h : IsMap cmpfunc om t K E)
    (hk : k ∉ E.map Entry.key) : (locate (against cmpfunc k) t []).1 = .nil := by
  cases hfound : (locate (against cmpfunc k) t []).1 with
  | nil => rfl
  | node a l r =>
    obtain ⟨rfl, ha⟩ := pair_of_locate hcmp hfound
    exact absurd (h.keys_perm.mem_iff.mp (List.mem_map_of_mem ha)) hk

end IsMap

end Facts

/-! ## 2. Looking up and going through -/

section Functions

variable {cmpfunc : κ → κ → Int} {om : OrderedMap π κ ν} {t : BinaryTree (π × κ × π)}
  {K : List (π × Unit)} {E E₁ E₂ : List (Entry π κ ν)} {e : Entry π κ ν} {k : κ} {passes : Nat}

theorem orderedMapSize_eq (h : IsMap cmpfunc om t K E) : orderedMapSize om = E.length := by
  rw [orderedMapSize, h.list.count, List.length_map]

/-- A key of the tree leads to its map item. -/
theorem lookup_of_mem (hcmp : StrictTotal cmpfunc) (h : IsMap cmpfunc om t K E)
    (hpasses : E.length < passes) (he : e ∈ E) :
    avltreeLookup cmpfunc passes om.tree e.key = some (some e.item) := by
  have hheight := t.height_le_numNodes
  have hsize := h.numNodes
  rw [avltreeLookup_eq h.tree (by omega : _ < passes)]
  refine congrArg some ((lookupTree_eq_some hcmp h.sorted).mpr ?_)
  exact h.perm.mem_iff.mpr (List.mem_map_of_mem (f := Entry.inTree) he)

theorem lookup_of_notMem (hcmp : StrictTotal cmpfunc) (h : IsMap cmpfunc om t K E)
    (hpasses : E.length < passes) (hk : k ∉ E.map Entry.key) :
    avltreeLookup cmpfunc passes om.tree k = some none := by
  have hheight := t.height_le_numNodes
  have hsize := h.numNodes
  rw [avltreeLookup_eq h.tree (by omega : _ < passes)]
  refine congrArg some ((lookupTree_eq_none hcmp h.sorted).mpr fun hmem => hk ?_)
  exact h.keys_perm.mem_iff.mp hmem

theorem orderedMapLookup_eq (hcmp : StrictTotal cmpfunc) (h : IsMap cmpfunc om t K E)
    (hpasses : E.length < passes) (he : e ∈ E) :
    orderedMapLookup cmpfunc passes om e.key = some e.value := by
  simp only [orderedMapLookup, lookup_of_mem hcmp h hpasses he, h.loadItem he,
    Option.bind_eq_bind, Option.bind_some]
  rfl

theorem orderedMapLookup_absent (hcmp : StrictTotal cmpfunc) (h : IsMap cmpfunc om t K E)
    (hpasses : E.length < passes) (hk : k ∉ E.map Entry.key) :
    orderedMapLookup cmpfunc passes om k = some none := by
  rw [orderedMapLookup, lookup_of_notMem hcmp h hpasses hk]
  rfl

/-- **One step of the iteration**: from the end of a part of the entries to the next one. -/
theorem orderedMapIterate_eq (h : IsMap cmpfunc om t K (E₁ ++ E₂)) :
    orderedMapIterate om (E₁.getLast?.map Entry.item) = some (E₂.head?.map Entry.item) := by
  rcases List.eq_nil_or_concat E₁ with rfl | ⟨E₁, e, rfl⟩
  · cases E₂ with
    | nil =>
      have hhead : om.list.head = none := h.list.head
      simp only [List.getLast?_nil, List.head?_nil, Option.map_none, orderedMapIterate, hhead]
    | cons f E₂ =>
      have hhead : om.list.head = some f.listItem := h.list.head
      have hload := h.list_middle.load
      rw [Entry.inList] at hload
      simp only [List.getLast?_nil, List.head?_cons, Option.map_none, Option.map_some,
        orderedMapIterate, hhead, hload, Option.bind_eq_bind, Option.bind_some]
      rfl
  · rw [List.concat_eq_append, List.append_assoc, List.singleton_append] at h
    have hitem := h.loadItem (List.mem_append_right _ List.mem_cons_self)
    have hload := h.list_middle.load
    rw [Entry.inList] at hload
    rw [List.concat_eq_append, List.getLast?_concat, Option.map_some]
    cases E₂ with
    | nil =>
      simp only [orderedMapIterate, hitem, hload, Option.bind_eq_bind, Option.bind_some]
      rfl
    | cons f E₂ =>
      have hnext : IsMap cmpfunc om t K ((E₁ ++ [e]) ++ f :: E₂) := by
        rwa [List.append_assoc]
      have hload' := hnext.list_middle.load
      rw [Entry.inList] at hload'
      simp only [orderedMapIterate, hitem, hload, Option.bind_eq_bind, Option.bind_some,
        List.map_cons, firstOr, Entry.inList, hload', List.head?_cons, Option.map_some]
      rfl

/-- The iteration sees the rest of the entries. -/
theorem iterateFrom_eq (h : IsMap cmpfunc om t K (E₁ ++ E₂)) {fuel : Nat}
    (hfuel : E₂.length < fuel) :
    iterateFrom om fuel (E₁.getLast?.map Entry.item) =
      some (E₂.map fun e => (e.key, e.value)) := by
  induction E₂ generalizing E₁ fuel with
  | nil =>
    obtain ⟨fuel, rfl⟩ := Nat.exists_eq_succ_of_ne_zero (Nat.ne_zero_of_lt hfuel)
    rw [iterateFrom, orderedMapIterate_eq h]
    rfl
  | cons e E₂ ih =>
    obtain ⟨fuel, rfl⟩ := Nat.exists_eq_succ_of_ne_zero (Nat.ne_zero_of_lt hfuel)
    have hitem := h.loadItem (List.mem_append_right _ List.mem_cons_self)
    have hrest : IsMap cmpfunc om t K ((E₁ ++ [e]) ++ E₂) := by
      rwa [List.append_assoc]
    have hloop := ih hrest (Nat.lt_of_succ_lt_succ hfuel)
    rw [List.getLast?_concat, Option.map_some] at hloop
    rw [iterateFrom, orderedMapIterate_eq h]
    simp only [List.head?_cons, Option.map_some, Option.bind_eq_bind, Option.bind_some, hitem,
      hloop]
    rfl

/-! ## 3. Adding, removing and moving -/

variable [DecidableEq π]

theorem orderedMapNew_eq (cmpfunc : κ → κ → Int) (hpasses : 0 < passes) :
    ∃ om : OrderedMap π κ ν, orderedMapNew passes = some om ∧ IsMap cmpfunc om .nil [] [] := by
  obtain ⟨list, hrun, hlist⟩ := linkedListNew_eq (π := π) (δ := π) hpasses
  refine ⟨⟨avltreeNew, list, fun _ => none⟩, ?_, hlist, exactly_empty, represents_new,
    List.Pairwise.nil, List.Perm.nil⟩
  rw [orderedMapNew, hrun]
  rfl

/-- **A new entry** at one of the ends. -/
theorem addItem_eq {addToList : LinkedList π π → π → π → Option (LinkedList π π)}
    {list' : LinkedList π π} {E' : List (Entry π κ ν)} (hcmp : StrictTotal cmpfunc)
    (h : IsMap cmpfunc om t K E) (hpasses : E.length + 1 < passes) {fresh : Fresh π}
    {value : Option ν} (hk : k ∉ E.map Entry.key) (hitem : om.items fresh.item = none)
    (hnode : om.tree.heap fresh.node = none)
    (hadd : addToList om.list fresh.listItem fresh.item = some list')
    (hlist' : IsList list' (E'.map Entry.inList))
    (hE' : E'.Perm (⟨k, value, fresh.item, fresh.listItem⟩ :: E)) :
    ∃ om' t' K', addItem cmpfunc passes om addToList fresh k value = some (0, om') ∧
      IsMap cmpfunc om' t' K' E' := by
  have hsize := h.numNodes
  have hnew := h.locate_of_notMem hcmp hk
  obtain ⟨items', hrunItems, hitems'⟩ := h.items.alloc hitem ⟨k, value, fresh.listItem⟩
  obtain ⟨tree', hrunTree, htree'⟩ := avltreeAddNode_represents (v := fresh.item) h.tree hnode
    (by omega : _ < passes) hnew
  refine ⟨⟨tree', list', items'⟩, _, _, ?_, hlist', ?_, htree', h.sorted.addTree hcmp hnew, ?_⟩
  · simp only [addItem, lookup_of_notMem hcmp h (by omega : _ < passes) hk, Option.bind_eq_bind,
      Option.bind_some, hrunItems, hadd, hrunTree, guard, if_true]
    rfl
  · refine hitems'.congr ?_
    rw [Multiset.singleton_add, Multiset.cons_coe, Multiset.coe_eq_coe]
    exact (hE'.map Entry.inItems).symm
  · exact ((pairs_addTree_perm hnew).trans (h.perm.cons _)).trans (hE'.map Entry.inTree).symm

/-- A key that is there already. -/
theorem addItem_exists {addToList : LinkedList π π → π → π → Option (LinkedList π π)}
    (hcmp : StrictTotal cmpfunc) (h : IsMap cmpfunc om t K E) (hpasses : E.length < passes)
    {fresh : Fresh π} {value : Option ν} (he : e ∈ E) :
    addItem cmpfunc passes om addToList fresh e.key value = some (-1, om) := by
  rw [addItem, lookup_of_mem hcmp h hpasses he]
  rfl

/-- `malloc` does not return addresses that are in use. -/
theorem addItem_fresh {addToList : LinkedList π π → π → π → Option (LinkedList π π)}
    (hcmp : StrictTotal cmpfunc) (h : IsMap cmpfunc om t K E) (hpasses : E.length < passes)
    {fresh : Fresh π} {value : Option ν} (hk : k ∉ E.map Entry.key)
    (hsome : (addItem cmpfunc passes om addToList fresh k value).isSome) :
    om.items fresh.item = none ∧ om.tree.heap fresh.node = none ∧
      (addToList om.list fresh.listItem fresh.item).isSome := by
  obtain ⟨r, hrun⟩ := Option.isSome_iff_exists.mp hsome
  rw [addItem, lookup_of_notMem hcmp h hpasses hk, Option.bind_eq_bind, Option.bind_some] at hrun
  obtain ⟨items', halloc, hrun⟩ := Option.bind_eq_some_iff.mp hrun
  obtain ⟨list', hadd, hrun⟩ := Option.bind_eq_some_iff.mp hrun
  obtain ⟨⟨err, tree'⟩, htree, -⟩ := Option.bind_eq_some_iff.mp hrun
  refine ⟨(alloc_eq_some halloc).1, ?_, by rw [hadd]; rfl⟩
  cases hnode : om.tree.heap fresh.node with
  | none => rfl
  | some n =>
    have hsize := h.numNodes
    have hnew := h.locate_of_notMem hcmp hk
    rw [avltreeAddNode_used h.tree (by omega : _ < passes) hnew hnode] at htree
    cases htree

/-- **An entry less**, in all of the structures. -/
theorem removeEntry_eq (hcmp : StrictTotal cmpfunc) (h : IsMap cmpfunc om t K (E₁ ++ e :: E₂))
    (hpasses : (E₁ ++ e :: E₂).length < passes) :
    ∃ om' t' K', removeEntry cmpfunc passes om e.key e.item e.listItem = some (e.value, om') ∧
      IsMap cmpfunc om' t' K' (E₁ ++ E₂) := by
  have hsize := h.numNodes
  have he : e ∈ E₁ ++ e :: E₂ := List.mem_append_right _ List.mem_cons_self
  obtain ⟨a, l, r, hfound, ha⟩ := h.locate_of_mem hcmp he
  obtain ⟨tree', K', hrunTree, htree'⟩ := avltreeDeleteNode_represents h.tree
    (by omega : _ < passes) hfound
  have hlen : (E₁.map Entry.inList ++ e.inList :: E₂.map Entry.inList).length < passes := by
    rwa [← List.map_cons, ← List.map_append, List.length_map]
  obtain ⟨list', hrunList, hlist'⟩ := linkedListRemoveItem_eq h.list_middle hlen
  have hload := h.loadItem he
  obtain ⟨items', hrunItems, hitems'⟩ := h.items_middle.free
  refine ⟨⟨tree', list', items'⟩, _, K', ?_, ?_, hitems', htree', h.sorted.deleteTree hfound, ?_⟩
  · rw [Entry.inList] at hrunList
    simp only [removeEntry, hrunTree, hrunList, hload, hrunItems, Option.bind_eq_bind,
      Option.bind_some]
    rfl
  · rwa [List.map_append]
  · have hperm := (pairs_deleteTree_perm hfound).symm.trans h.perm
    rw [ha, List.map_append, List.map_cons] at hperm
    rw [List.map_append]
    exact (hperm.trans List.perm_middle).cons_inv

theorem orderedMapRemoveItem_eq (hcmp : StrictTotal cmpfunc)
    (h : IsMap cmpfunc om t K (E₁ ++ e :: E₂)) (hpasses : (E₁ ++ e :: E₂).length < passes) :
    ∃ om' t' K', orderedMapRemoveItem cmpfunc passes om e.key = some (e.value, om') ∧
      IsMap cmpfunc om' t' K' (E₁ ++ E₂) := by
  have he : e ∈ E₁ ++ e :: E₂ := List.mem_append_right _ List.mem_cons_self
  obtain ⟨om', t', K', hrun, h'⟩ := removeEntry_eq hcmp h hpasses
  refine ⟨om', t', K', ?_, h'⟩
  simp only [orderedMapRemoveItem, lookup_of_mem hcmp h hpasses he, h.loadItem he,
    Option.bind_eq_bind, Option.bind_some, hrun]

theorem orderedMapRemoveItem_absent (hcmp : StrictTotal cmpfunc) (h : IsMap cmpfunc om t K E)
    (hpasses : E.length < passes) (hk : k ∉ E.map Entry.key) :
    orderedMapRemoveItem cmpfunc passes om k = some (none, om) := by
  rw [orderedMapRemoveItem, lookup_of_notMem hcmp h hpasses hk]
  rfl

/-- Removing at an end. -/
theorem removeEnd_eq (hcmp : StrictTotal cmpfunc) (h : IsMap cmpfunc om t K (E₁ ++ e :: E₂))
    (hpasses : (E₁ ++ e :: E₂).length < passes) :
    ∃ om' t' K', removeEnd cmpfunc passes om (some e.listItem) = some (e.value, om') ∧
      IsMap cmpfunc om' t' K' (E₁ ++ E₂) := by
  have he : e ∈ E₁ ++ e :: E₂ := List.mem_append_right _ List.mem_cons_self
  have hload := h.list_middle.load
  have hcount : om.list.count ≠ 0 := by
    rw [h.list.count, List.length_map, List.length_append, List.length_cons]
    omega
  obtain ⟨om', t', K', hrun, h'⟩ := removeEntry_eq hcmp h hpasses
  refine ⟨om', t', K', ?_, h'⟩
  rw [Entry.inList] at hload
  simp only [removeEnd, if_neg hcount, hload, h.loadItem he, Option.bind_eq_bind,
    Option.bind_some, guard, if_true, hrun]
  rfl

theorem removeEnd_empty (h : IsMap cmpfunc om t K []) (li : Option π) :
    removeEnd cmpfunc passes om li = some (none, om) :=
  if_pos h.list.count

theorem orderedMapRemoveHead_eq (hcmp : StrictTotal cmpfunc) (h : IsMap cmpfunc om t K (e :: E))
    (hpasses : (e :: E).length < passes) :
    ∃ om' t' K', orderedMapRemoveHead cmpfunc passes om = some (e.value, om') ∧
      IsMap cmpfunc om' t' K' E := by
  have hhead : om.list.head = some e.listItem := h.list.head
  rw [orderedMapRemoveHead, hhead]
  have hsplit : IsMap cmpfunc om t K ([] ++ e :: E) := h
  exact removeEnd_eq hcmp hsplit hpasses

theorem orderedMapRemoveTail_eq (hcmp : StrictTotal cmpfunc)
    (h : IsMap cmpfunc om t K (E ++ [e])) (hpasses : (E ++ [e]).length < passes) :
    ∃ om' t' K', orderedMapRemoveTail cmpfunc passes om = some (e.value, om') ∧
      IsMap cmpfunc om' t' K' E := by
  have htail : om.list.tail = some e.listItem := by
    rw [h.list.tail, List.map_append, List.map_singleton, lastOr_append]
    rfl
  obtain ⟨om', t', K', hrun, h'⟩ := removeEnd_eq hcmp h hpasses
  rw [List.append_nil] at h'
  exact ⟨om', t', K', by rw [orderedMapRemoveTail, htail, hrun], h'⟩

/-- **An entry moves to the head**, and the tree stays as it is. -/
theorem orderedMapMakeItemHead_eq (hcmp : StrictTotal cmpfunc)
    (h : IsMap cmpfunc om t K (E₁ ++ e :: E₂)) (hpasses : (E₁ ++ e :: E₂).length < passes) :
    ∃ om', orderedMapMakeItemHead cmpfunc passes om e.key = some (0, om') ∧
      IsMap cmpfunc om' t K (e :: (E₁ ++ E₂)) := by
  have he : e ∈ E₁ ++ e :: E₂ := List.mem_append_right _ List.mem_cons_self
  have hlen : (E₁.map Entry.inList ++ e.inList :: E₂.map Entry.inList).length < passes := by
    rwa [← List.map_cons, ← List.map_append, List.length_map]
  obtain ⟨list', hrun, hlist'⟩ := linkedListMakeItemHead_eq h.list_middle hlen
  have hperm : (E₁ ++ e :: E₂).Perm (e :: (E₁ ++ E₂)) := List.perm_middle
  refine ⟨⟨om.tree, list', om.items⟩, ?_, ?_, ?_, h.tree, h.sorted,
    h.perm.trans (hperm.map Entry.inTree)⟩
  · rw [Entry.inList] at hrun
    simp only [orderedMapMakeItemHead, lookup_of_mem hcmp h hpasses he, h.loadItem he,
      Option.bind_eq_bind, Option.bind_some, hrun]
    rfl
  · rwa [List.map_cons, List.map_append]
  · exact h.items.congr (Multiset.coe_eq_coe.mpr (hperm.map Entry.inItems))

theorem orderedMapMakeItemHead_absent (hcmp : StrictTotal cmpfunc) (h : IsMap cmpfunc om t K E)
    (hpasses : E.length < passes) (hk : k ∉ E.map Entry.key) :
    orderedMapMakeItemHead cmpfunc passes om k = some (-1, om) := by
  rw [orderedMapMakeItemHead, lookup_of_notMem hcmp h hpasses hk]
  rfl

end Functions

end HdfStream.Maps
