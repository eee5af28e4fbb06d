/-
# The linked list

`linked_list.c`: a doubly linked list with its head, its tail and the number of its items.  The
assertions and the checks of the list after every operation are those of a debug build; where one
fails, the operation has no result.

`IsList list L` says that the list in the heap has the items `L`, in this order, and nothing else.
Every operation does on the heap what it says on lists, and no check fails.
-/
import HdfStream.Lib.DoublyLinked

namespace HdfStream.Maps

open Cells DoublyLinked

variable {π δ : Type} [DecidableEq π]

/-! ## 1. The operations -/

/-- `struct list_item`. -/
abbrev ListItem (π δ : Type) := Item π δ

/-- `struct linked_list`, with its items. -/
structure LinkedList (π δ : Type) where
  heap : π → Option (ListItem π δ)
  head : Option π
  tail : Option π
  count : Int

/-- The loop of `linked_list_check`. -/
def checkFrom (list : LinkedList π δ) : Nat → Option π → Option π → Int → Option Unit
  | 0, _, _, _ => none
  | _ + 1, none, _, nrItems => guard (nrItems = list.count)
  | passes + 1, some thisItem, prevItem, nrItems => do
    let this ← list.heap thisItem
    if some thisItem = list.head then guard (this.prev = none)
    else do
      let prev ← list.heap (← prevItem)
      guard (prev.next = some thisItem)
      guard (this.prev = prevItem)
    checkFrom list passes this.next (some thisItem) (nrItems + 1)

/-- `linked_list_check`. -/
def linkedListCheck (passes : Nat) (list : LinkedList π δ) : Option (LinkedList π δ) := do
  checkFrom list passes list.head none 0
  return list

def linkedListNew (passes : Nat) : Option (LinkedList π δ) :=
  linkedListCheck passes { heap := fun _ => none, head := none, tail := none, count := 0 }

def linkedListAddItemHead (passes : Nat) (list : LinkedList π δ) (fresh : π) (data : δ) :
    Option (LinkedList π δ) := do
  let heap ← alloc list.heap fresh { prev := none, next := list.head, data := data }
  let heap ← storeIf heap list.head (Item.setPrev (some fresh))
  linkedListCheck passes {
    heap := heap
    head := some fresh
    tail := if list.head = none then some fresh else list.tail
    count := list.count + 1 }

def linkedListAddItemTail (passes : Nat) (list : LinkedList π δ) (fresh : π) (data : δ) :
    Option (LinkedList π δ) := do
  let heap ← alloc list.heap fresh { prev := none, next := none, data := data }
  if list.count = 0 then
    linkedListCheck passes {
      heap := heap, head := some fresh, tail := some fresh, count := list.count + 1 }
  else do
    let heap ← store heap fresh (Item.setPrev list.tail)
    let heap ← store heap (← list.tail) (Item.setNext (some fresh))
    linkedListCheck passes {
      heap := heap, head := list.head, tail := some fresh, count := list.count + 1 }

def linkedListMakeItemHead (passes : Nat) (list : LinkedList π δ) (item : π) :
    Option (LinkedList π δ) :=
  if some item = list.head then some list
  else do
    let old ← list.heap item
    let tail ←
      if list.tail = some item then do
        guard (old.prev ≠ none)
        some old.prev
      else some list.tail
    let heap ← store list.heap item (Item.setPrev none)
    let heap ← store heap item (Item.setNext list.head)
    let heap ← storeIf heap list.head (Item.setPrev (some item))
    let heap ← storeIf heap old.prev (Item.setNext old.next)
    let heap ← storeIf heap old.next (Item.setPrev old.prev)
    linkedListCheck passes { heap := heap, head := some item, tail := tail, count := list.count }

def linkedListRemoveHead (passes : Nat) (list : LinkedList π δ) :
    Option (δ × LinkedList π δ) := do
  guard (list.count > 0)
  let item ← list.head
  let old ← list.heap item
  if list.count = 1 then do
    let heap ← free list.heap item
    let list ← linkedListCheck passes {
      heap := heap, head := none, tail := none, count := list.count - 1 }
    return (old.data, list)
  else do
    let heap ← store list.heap (← old.next) (Item.setPrev none)
    let heap ← free heap item
    let list ← linkedListCheck passes {
      heap := heap, head := old.next, tail := list.tail, count := list.count - 1 }
    return (old.data, list)

def linkedListRemoveItem (passes : Nat) (list : LinkedList π δ) (item : π) :
    Option (δ × LinkedList π δ) := do
  let list ← linkedListMakeItemHead passes list item
  linkedListRemoveHead passes list

/-! ## 2. The list in the heap -/

/-- The items of the list. -/
structure IsList (list : LinkedList π δ) (L : List (π × δ)) : Prop where
  cells : Exactly list.heap (cells none L none)
  head : list.head = firstOr none L
  tail : list.tail = lastOr none L
  count : list.count = L.length

namespace IsList

variable {list : LinkedList π δ} {L L' : List (π × δ)} {e : π × δ}

omit [DecidableEq π] in
theorem nodup (h : IsList list L) : (L.map Prod.fst).Nodup := by
  have hnodup := h.cells.nodup
  rwa [addrs_cells, Multiset.coe_nodup] at hnodup

omit [DecidableEq π] in
/-- An item, with its neighbours. -/
theorem load (h : IsList list (L ++ e :: L')) :
    list.heap e.1 = some ⟨lastOr none L, firstOr none L', e.2⟩ := by
  have hcells := h.cells
  rw [cells_middle] at hcells
  exact hcells.load

omit [DecidableEq π] in
/-- The head of a list is its first item only. -/
theorem ne_head (h : IsList list (L ++ e :: L')) (hL : L ≠ []) : some e.1 ≠ list.head := by
  rw [h.head]
  cases L with
  | nil => exact absurd rfl hL
  | cons f L =>
    have hnodup := h.nodup
    rw [List.cons_append, List.map_cons, List.nodup_cons, List.map_append, List.map_cons] at hnodup
    intro heq
    rw [← Option.some.inj heq] at hnodup
    exact hnodup.1 (List.mem_append_right _ List.mem_cons_self)

end IsList

omit [DecidableEq π] in
theorem isList_new :
    IsList ({ heap := fun _ => none, head := none, tail := none, count := 0 } : LinkedList π δ)
      [] where
  cells := exactly_empty
  head := rfl
  tail := rfl
  count := rfl

/-! ## 3. What the operations do -/

section Operations

variable {list : LinkedList π δ} {L L' : List (π × δ)} {e : π × δ} {fresh : π} {data : δ}
  {passes : Nat}

/-- The check, from an item on. -/
theorem checkFrom_eq (h : IsList list (L ++ L')) {fuel : Nat} (hfuel : L'.length < fuel) :
    checkFrom list fuel (firstOr none L') (lastOr none L) L.length = some () := by
  induction L' generalizing L fuel with
  | nil =>
    obtain ⟨fuel, rfl⟩ := Nat.exists_eq_succ_of_ne_zero (Nat.ne_zero_of_lt hfuel)
    have hcount := h.count
    rw [List.append_nil] at hcount
    rw [firstOr, checkFrom, hcount]
    exact if_pos rfl
  | cons e L' ih =>
    obtain ⟨fuel, rfl⟩ := Nat.exists_eq_succ_of_ne_zero (Nat.ne_zero_of_lt hfuel)
    have hthis := h.load
    -- the rest of the list, behind this item
    have hlist : IsList list ((L ++ [e]) ++ L') := by
      rw [List.append_assoc]
      exact h
    have hrest := ih hlist (Nat.lt_of_succ_lt_succ hfuel)
    rw [lastOr_append, List.length_append, List.length_singleton, Nat.cast_add] at hrest
    rcases List.eq_nil_or_concat L with rfl | ⟨L, f, rfl⟩
    · have hhead : some e.1 = list.head := h.head.symm
      rw [firstOr, checkFrom, hthis, Option.bind_eq_bind, Option.bind_some, if_pos hhead]
      exact hrest
    · rw [List.concat_eq_append] at h hthis hrest ⊢
      have hprev : list.heap f.1 = some ⟨lastOr none L, some e.1, f.2⟩ := by
        rw [List.append_assoc] at h
        exact h.load
      have hne := h.ne_head (by simp)
      rw [lastOr_append] at hthis ⊢
      rw [firstOr, checkFrom, hthis, Option.bind_eq_bind, Option.bind_some, if_neg hne]
      simp only [Option.bind_eq_bind, Option.bind_some, hprev, guard, if_true]
      exact hrest

/-- **The check passes** on every list. -/
theorem linkedListCheck_eq (h : IsList list L) (hpasses : L.length < passes) :
    linkedListCheck passes list = some list := by
  have hloop := checkFrom_eq (L := []) h hpasses
  rw [← h.head] at hloop
  rw [linkedListCheck, show (0 : Int) = ((([] : List (π × δ)).length : Nat) : Int) from rfl]
  exact congrArg (fun r => r.bind fun _ => some list) hloop

theorem linkedListNew_eq (hpasses : 0 < passes) :
    ∃ list, linkedListNew passes = some (list : LinkedList π δ) ∧ IsList list [] :=
  ⟨_, linkedListCheck_eq isList_new hpasses, isList_new⟩

theorem linkedListAddItemHead_eq (h : IsList list L) (hfresh : list.heap fresh = none)
    (hpasses : L.length + 1 < passes) :
    ∃ list', linkedListAddItemHead passes list fresh data = some list' ∧
      IsList list' ((fresh, data) :: L) := by
  obtain ⟨m₁, hrun₁, h₁⟩ := h.cells.alloc hfresh ⟨none, list.head, data⟩
  rw [add_comm] at h₁
  obtain ⟨m₂, hrun₂, h₂⟩ := store_prev h₁ (some fresh)
  have hlist : IsList ⟨m₂, some fresh, if list.head = none then some fresh else list.tail,
      list.count + 1⟩ ((fresh, data) :: L) := by
    refine ⟨?_, rfl, ?_, ?_⟩
    · rw [add_comm, h.head] at h₂
      exact h₂
    · rw [h.head, h.tail]
      cases L with
      | nil => rfl
      | cons f L => rfl
    · rw [h.count, List.length_cons, Nat.cast_add]
      rfl
  refine ⟨_, ?_, hlist⟩
  rw [← h.head] at hrun₂
  simp only [linkedListAddItemHead, hrun₁, Option.bind_eq_bind, Option.bind_some, hrun₂]
  exact linkedListCheck_eq hlist hpasses

theorem linkedListAddItemTail_eq (h : IsList list L) (hfresh : list.heap fresh = none)
    (hpasses : L.length + 1 < passes) :
    ∃ list', linkedListAddItemTail passes list fresh data = some list' ∧
      IsList list' (L ++ [(fresh, data)]) := by
  obtain ⟨m₁, hrun₁, h₁⟩ := h.cells.alloc hfresh ⟨none, none, data⟩
  have hcount : list.count + 1 = ((L ++ [(fresh, data)]).length : Int) := by
    rw [h.count, List.length_append, List.length_singleton, Nat.cast_add]
    rfl
  simp only [linkedListAddItemTail, hrun₁, Option.bind_eq_bind, Option.bind_some]
  rcases List.eq_nil_or_concat L with rfl | ⟨L, e, rfl⟩
  · -- the only item
    have hlist : IsList ⟨m₁, some fresh, some fresh, list.count + 1⟩ ([] ++ [(fresh, data)]) :=
      ⟨h₁, rfl, rfl, hcount⟩
    refine ⟨_, ?_, hlist⟩
    have hzero : list.count = 0 := h.count
    rw [if_pos hzero]
    exact linkedListCheck_eq hlist hpasses
  · rw [List.concat_eq_append] at h h₁ hcount hpasses ⊢
    have hne : list.count ≠ 0 := by
      rw [h.count, List.length_append, List.length_singleton]
      omega
    have htail : list.tail = some e.1 := by rw [h.tail, lastOr_append]
    obtain ⟨m₂, hrun₂, h₂⟩ := h₁.store (Item.setPrev list.tail)
    rw [add_comm] at h₂
    obtain ⟨m₃, hrun₃, h₃⟩ := store_next h₂ (some fresh)
    rw [lastOr_append] at hrun₃
    have hlist : IsList ⟨m₃, list.head, some fresh, list.count + 1⟩
        ((L ++ [e]) ++ [(fresh, data)]) := by
      refine ⟨?_, ?_, ?_, hcount⟩
      · rw [cells_append _ (L ++ [e])]
        rw [htail] at h₃
        rw [lastOr_append]
        exact h₃
      · rw [h.head, firstOr_append, firstOr_append, firstOr_append]
        cases L <;> rfl
      · rw [lastOr_append]
    refine ⟨_, ?_, hlist⟩
    rw [storeIf] at hrun₃
    rw [htail] at hrun₂ ⊢
    simp only [if_neg hne, hrun₂, Option.bind_some, hrun₃]
    exact linkedListCheck_eq hlist (by rwa [List.length_append])

/-- `malloc` does not return an address that is in use. -/
theorem linkedListAddItemHead_fresh {list' : LinkedList π δ}
    (h : linkedListAddItemHead passes list fresh data = some list') : list.heap fresh = none := by
  obtain ⟨heap, halloc, -⟩ := Option.bind_eq_some_iff.mp h
  exact (alloc_eq_some halloc).1

theorem linkedListAddItemTail_fresh {list' : LinkedList π δ}
    (h : linkedListAddItemTail passes list fresh data = some list') : list.heap fresh = none := by
  obtain ⟨heap, halloc, -⟩ := Option.bind_eq_some_iff.mp h
  exact (alloc_eq_some halloc).1

/-- **Moving an item to the head.** -/
theorem linkedListMakeItemHead_eq (h : IsList list (L ++ e :: L'))
    (hpasses : (L ++ e :: L').length < passes) :
    ∃ list', linkedListMakeItemHead passes list e.1 = some list' ∧
      IsList list' (e :: (L ++ L')) := by
  rcases L with _ | ⟨f, L⟩
  · exact ⟨list, if_pos h.head.symm, h⟩
  · have hne := h.ne_head (List.cons_ne_nil f L)
    have hload := h.load
    have hlast := lastOr_removed h.nodup
    have hhead : list.head = firstOr none (f :: L) := h.head
    -- the item points to the head
    have h₀ := h.cells
    rw [cells_middle] at h₀
    obtain ⟨m₁, hrun₁, h₁⟩ := h₀.store (Item.setPrev none)
    obtain ⟨m₂, hrun₂, h₂⟩ := h₁.store (Item.setNext list.head)
    have h₂' : Exactly m₂ (cells none (f :: L) (some e.1) +
        ({(e.1, ⟨none, list.head, e.2⟩)} + cells (some e.1) L' none)) := by
      rw [add_left_comm]
      exact h₂
    obtain ⟨m₃, hrun₃, h₃⟩ := store_prev h₂' (some e.1)
    -- its neighbours get each other
    obtain ⟨m₄, hrun₄, h₄⟩ := store_next h₃ (firstOr none L')
    have h₄' : Exactly m₄ (cells (some e.1) L' none + ({(e.1, ⟨none, list.head, e.2⟩)} +
        cells (some e.1) (f :: L) (firstOr none L'))) := h₄.congr (by abel)
    obtain ⟨m₅, hrun₅, h₅⟩ := store_prev h₄' (lastOr none (f :: L))
    have hlist : IsList ⟨m₅, some e.1, lastOr none (f :: L ++ L'), list.count⟩
        (e :: (f :: L ++ L')) := by
      refine ⟨?_, rfl, ?_, ?_⟩
      · rw [cells, cells_append, ← add_assoc, add_comm]
        rw [hhead] at h₅
        exact h₅
      · rfl
      · rw [h.count]
        simp only [List.length_append, List.length_cons]
        omega
    refine ⟨_, ?_, hlist⟩
    have hold : lastOr none (f :: L) ≠ none := by
      rcases List.eq_nil_or_concat (f :: L) with hnil | ⟨L₀, g, heq⟩
      · cases hnil
      · rw [heq, List.concat_eq_append, lastOr_append]
        exact fun hnone => by cases hnone
    have hlen : (e :: (f :: L ++ L')).length < passes := by
      simp only [List.length_append, List.length_cons] at hpasses ⊢
      omega
    have hcheck := linkedListCheck_eq hlist hlen
    rw [← hhead] at hrun₃
    rw [← h.tail] at hlast
    simp only [linkedListMakeItemHead, if_neg hne, hload, Option.bind_eq_bind, Option.bind_some,
      hrun₁, hrun₂, hrun₃, hrun₄, hrun₅]
    by_cases htail : list.tail = some e.1
    · rw [if_pos htail.symm] at hlast
      rw [if_pos htail, guard, if_pos hold]
      rw [← hlast] at hcheck ⊢
      exact hcheck
    · rw [if_neg (Ne.symm htail)] at hlast
      rw [if_neg htail]
      rw [← hlast] at hcheck ⊢
      exact hcheck

/-- The data of the head, which is removed. -/
theorem linkedListRemoveHead_eq (h : IsList list (e :: L)) (hpasses : L.length < passes) :
    ∃ list', linkedListRemoveHead passes list = some (e.2, list') ∧ IsList list' L := by
  have hload : list.heap e.1 = some ⟨none, firstOr none L, e.2⟩ := h.load (L := [])
  have hhead : list.head = some e.1 := h.head
  have hcells := h.cells
  rw [cells] at hcells
  have hcount := h.count
  rw [List.length_cons, Nat.cast_add, Nat.cast_one] at hcount
  have hcount' : list.count - 1 = L.length := by omega
  have hpos : list.count > 0 := by omega
  simp only [linkedListRemoveHead, guard, if_pos hpos, hhead, hload, Option.bind_eq_bind,
    Option.bind_some]
  cases L with
  | nil =>
    -- the only item
    obtain ⟨m₁, hrun₁, h₁⟩ := hcells.free
    have hlist : IsList ⟨m₁, none, none, list.count - 1⟩ ([] : List (π × δ)) :=
      ⟨h₁, rfl, rfl, hcount'⟩
    refine ⟨_, ?_, hlist⟩
    have hone : list.count = 1 := hcount
    simp only [pure, if_pos hone, hrun₁, Option.bind_some, linkedListCheck_eq hlist hpasses]
  | cons f L =>
    have hmany : list.count ≠ 1 := by
      rw [hcount, List.length_cons]
      omega
    obtain ⟨m₁, hrun₁, h₁⟩ := store_prev (hcells.congr (add_comm _ _)) none
    obtain ⟨m₂, hrun₂, h₂⟩ := (h₁.congr (add_comm _ _)).free
    have hlist : IsList ⟨m₂, some f.1, list.tail, list.count - 1⟩ (f :: L) :=
      ⟨h₂, rfl, h.tail, hcount'⟩
    refine ⟨_, ?_, hlist⟩
    rw [firstOr, storeIf] at hrun₁
    simp only [pure, if_neg hmany, firstOr, hrun₁, hrun₂, Option.bind_some,
      linkedListCheck_eq hlist hpasses]

/-- **Removing an item** from anywhere. -/
theorem linkedListRemoveItem_eq (h : IsList list (L ++ e :: L'))
    (hpasses : (L ++ e :: L').length < passes) :
    ∃ list', linkedListRemoveItem passes list e.1 = some (e.2, list') ∧ IsList list' (L ++ L') := by
  obtain ⟨list₁, hrun₁, h₁⟩ := linkedListMakeItemHead_eq h hpasses
  have hlen : (L ++ L').length < passes := by
    rw [List.length_append, List.length_cons] at hpasses
    rw [List.length_append]
    omega
  obtain ⟨list₂, hrun₂, h₂⟩ := linkedListRemoveHead_eq h₁ hlen
  refine ⟨list₂, ?_, h₂⟩
  rw [linkedListRemoveItem, hrun₁, Option.bind_eq_bind, Option.bind_some, hrun₂]

end Operations

end HdfStream.Maps
