/-
# The ordered map

`ordered_map.c`: a linked list of map items, for the order, and an AVL tree in which a key leads to
its map item.  A map item knows its list item, so that an entry that is found in the tree can be
taken out of the list.

What `malloc` returns is an argument.  Where an assertion fails, or a pointer leads nowhere, a
function has no result.
-/
import HdfStream.Maps.AvlTree
import HdfStream.Maps.LinkedList

namespace HdfStream.Maps

open Cells

variable {π κ ν : Type} [DecidableEq π]

/-! ## 1. The map -/

/-- `struct ordered_map_item`.  A value is a pointer, and may be null. -/
structure OrderedMapItem (π κ ν : Type) where
  key : κ
  value : Option ν
  listItem : π

/-- `struct ordered_map`, with its map items. -/
structure OrderedMap (π κ ν : Type) where
  tree : AvlTree π κ π
  list : LinkedList π π
  items : π → Option (OrderedMapItem π κ ν)

/-- What `malloc` returns for a new entry. -/
structure Fresh (π : Type) where
  item : π
  listItem : π
  node : π

def orderedMapNew (passes : Nat) : Option (OrderedMap π κ ν) := do
  let list ← linkedListNew passes
  return { tree := avltreeNew, list := list, items := fun _ => none }

def orderedMapSize (om : OrderedMap π κ ν) : Int := om.list.count

/-- `ordered_map_iterate`. -/
def orderedMapIterate (om : OrderedMap π κ ν) (omi : Option π) : Option (Option π) :=
  match omi with
  | none =>
    match om.list.head with
    | none => some none
    | some li => do return some (← om.list.heap li).data
  | some omi => do
    let item ← om.items omi
    match (← om.list.heap item.listItem).next with
    | none => some none
    | some li => do return some (← om.list.heap li).data

/-- The loop of the callers of `ordered_map_iterate`, and the entries that they see. -/
def iterateFrom (om : OrderedMap π κ ν) : Nat → Option π → Option (List (κ × Option ν))
  | 0, _ => none
  | passes + 1, omi => do
    match ← orderedMapIterate om omi with
    | none => some []
    | some omi => do
      let item ← om.items omi
      let rest ← iterateFrom om passes (some omi)
      return (item.key, item.value) :: rest

section Keys

variable (cmpfunc : κ → κ → Int) (passes : Nat) (om : OrderedMap π κ ν)

/-! ## 2. Adding -/

/-- `ordered_map_add_item_tail` and `ordered_map_add_item_head`, but for the end of the list. -/
def addItem (addToList : LinkedList π π → π → π → Option (LinkedList π π)) (fresh : Fresh π)
    (key : κ) (value : Option ν) : Option (Int × OrderedMap π κ ν) := do
  match ← avltreeLookup cmpfunc passes om.tree key with
  | some _ => some (-1, om)
  | none => do
    let items ← alloc om.items fresh.item
      { key := key, value := value, listItem := fresh.listItem }
    let list ← addToList om.list fresh.listItem fresh.item
    let (err, tree) ← avltreeAddNode cmpfunc passes om.tree fresh.node key fresh.item
    guard (err = 0)
    return (err, { tree := tree, list := list, items := items })

def orderedMapAddItemTail (fresh : Fresh π) (key : κ) (value : Option ν) :
    Option (Int × OrderedMap π κ ν) :=
  addItem cmpfunc passes om (linkedListAddItemTail passes) fresh key value

def orderedMapAddItemHead (fresh : Fresh π) (key : κ) (value : Option ν) :
    Option (Int × OrderedMap π κ ν) :=
  addItem cmpfunc passes om (linkedListAddItemHead passes) fresh key value

/-! ## 3. Removing -/

/-- What the functions that remove an entry end with.  The value is the one that the map item had
before: the tree and the list leave the map items alone. -/
def removeEntry (key : κ) (omi : π) (li : π) : Option (Option ν × OrderedMap π κ ν) := do
  let (_, tree) ← avltreeDeleteNode cmpfunc passes om.tree key
  let (_, list) ← linkedListRemoveItem passes om.list li
  let item ← om.items omi
  let items ← free om.items omi
  return (item.value, { tree := tree, list := list, items := items })

def orderedMapRemoveItem (key : κ) : Option (Option ν × OrderedMap π κ ν) := do
  match ← avltreeLookup cmpfunc passes om.tree key with
  | none => some (none, om)
  | some _ => do
    let omi ← ← avltreeLookup cmpfunc passes om.tree key
    let item ← om.items omi
    removeEntry cmpfunc passes om key omi item.listItem

/-- `ordered_map_remove_head` and `ordered_map_remove_tail`, but for the list item. -/
def removeEnd (li : Option π) : Option (Option ν × OrderedMap π κ ν) :=
  if om.list.count = 0 then some (none, om)
  else do
    let li ← li
    let omi := (← om.list.heap li).data
    let item ← om.items omi
    guard (item.listItem = li)
    removeEntry cmpfunc passes om item.key omi li

def orderedMapRemoveHead : Option (Option ν × OrderedMap π κ ν) :=
  removeEnd cmpfunc passes om om.list.head

def orderedMapRemoveTail : Option (Option ν × OrderedMap π κ ν) :=
  removeEnd cmpfunc passes om om.list.tail

/-! ## 4. Looking up -/

def orderedMapLookup (key : κ) : Option (Option ν) := do
  match ← avltreeLookup cmpfunc passes om.tree key with
  | none => some none
  | some omi => do return (← om.items omi).value

def orderedMapMakeItemHead (key : κ) : Option (Int × OrderedMap π κ ν) := do
  match ← avltreeLookup cmpfunc passes om.tree key with
  | none => some (-1, om)
  | some omi => do
    let list ← linkedListMakeItemHead passes om.list (← om.items omi).listItem
    return (0, { om with list := list })

end Keys

end HdfStream.Maps
