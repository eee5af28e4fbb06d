/-
# Doubly linked lists

The cells of a segment of a doubly linked list in a heap: `cells b L a` when the item before the
first one is `b`, and the one after the last one `a`.  A list that is put together from segments
is the sum of theirs, with the neighbours of each at its ends (`cells_append`).

Two writes occur when segments get other neighbours: the first item of a segment gets another
`prev` (`relinkPrev`), and the last one another `next` (`relinkNext`).
-/
import HdfStream.Lib.Cells

namespace DoublyLinked

open Cells

variable {π δ : Type*}

/-- What an item holds. -/
structure Item (π δ : Type*) where
  prev : Option π
  next : Option π
  data : δ

def Item.setPrev (b : Option π) (i : Item π δ) : Item π δ := { i with prev := b }

def Item.setNext (a : Option π) (i : Item π δ) : Item π δ := { i with next := a }

/-! ## 1. Segments -/

/-- The first item of a segment, or what is after it. -/
def firstOr (a : Option π) : List (π × δ) → Option π
  | [] => a
  | e :: _ => some e.1

/-- The last item of a segment, or what is before it. -/
def lastOr (b : Option π) : List (π × δ) → Option π
  | [] => b
  | e :: L => lastOr (some e.1) L

/-- The cells of a segment between `b` and `a`. -/
def cells (b : Option π) (L : List (π × δ)) (a : Option π) : Multiset (π × Item π δ) :=
  match L with
  | [] => 0
  | e :: L => {(e.1, ⟨b, firstOr a L, e.2⟩)} + cells (some e.1) L a

@[simp] theorem lastOr_append (b : Option π) (L : List (π × δ)) (e : π × δ) :
    lastOr b (L ++ [e]) = some e.1 := by
  induction L generalizing b with
  | nil => rfl
  | cons e' L ih => exact ih (some e'.1)

theorem firstOr_append (a : Option π) (L L' : List (π × δ)) :
    firstOr a (L ++ L') = firstOr (firstOr a L') L := by
  cases L <;> rfl

theorem firstOr_eq [DecidableEq π] (a : Option π) (L : List (π × δ)) :
    (if firstOr none L = none then a else firstOr none L) = firstOr a L := by
  cases L with
  | nil => exact if_pos rfl
  | cons e L => exact if_neg fun h => by cases h

/-- **The cells of a list of two segments.** -/
theorem cells_append (b : Option π) (L L' : List (π × δ)) (a : Option π) :
    cells b (L ++ L') a = cells b L (firstOr a L') + cells (lastOr b L) L' a := by
  induction L generalizing b with
  | nil => rw [List.nil_append, cells, zero_add, lastOr]
  | cons e L ih =>
    rw [List.cons_append, cells, cells, ih, firstOr_append, lastOr, add_assoc]

/-- The cells around an item. -/
theorem cells_middle (b : Option π) (L L' : List (π × δ)) (e : π × δ) (a : Option π) :
    cells b (L ++ e :: L') a =
      {(e.1, ⟨lastOr b L, firstOr a L', e.2⟩)} +
        (cells b L (some e.1) + cells (some e.1) L' a) := by
  rw [cells_append, firstOr, cells]
  abel

theorem addrs_cells (b : Option π) (L : List (π × δ)) (a : Option π) :
    addrs (cells b L a) = (L.map Prod.fst : List π) := by
  induction L generalizing b with
  | nil => rfl
  | cons e L ih =>
    rw [cells, addrs_add, addrs_singleton, ih, List.map_cons, ← Multiset.cons_coe,
      ← Multiset.singleton_add]

theorem lastOr_append_cons (b : Option π) (L L' : List (π × δ)) (e : π × δ) :
    lastOr b (L ++ e :: L') = lastOr (some e.1) L' := by
  induction L generalizing b with
  | nil => rfl
  | cons e' L ih => exact ih (some e'.1)

theorem lastOr_append_eq (b : Option π) (L L' : List (π × δ)) :
    lastOr b (L ++ L') = lastOr (lastOr b L) L' := by
  induction L generalizing b with
  | nil => rfl
  | cons e L ih => exact ih (some e.1)

theorem mem_of_firstOr {L : List (π × δ)} {p : π} (h : firstOr none L = some p) :
    p ∈ L.map Prod.fst := by
  cases L with
  | nil => cases h
  | cons e L =>
    cases h
    exact List.mem_cons_self

theorem mem_of_lastOr {L : List (π × δ)} {p : π} (h : lastOr none L = some p) :
    p ∈ L.map Prod.fst := by
  rcases List.eq_nil_or_concat L with rfl | ⟨L, e, rfl⟩
  · cases h
  · rw [List.concat_eq_append, lastOr_append] at h
    cases h
    rw [List.concat_eq_append, List.map_append]
    exact List.mem_append_right _ List.mem_cons_self

section Removal

variable [DecidableEq π] {L L' : List (π × δ)} {e : π × δ}

/-- The first item, after an item is taken out. -/
theorem firstOr_removed (h : ((L ++ e :: L').map Prod.fst).Nodup) :
    (if some e.1 = firstOr none (L ++ e :: L') then firstOr none L'
      else firstOr none (L ++ e :: L')) = firstOr none (L ++ L') := by
  cases L with
  | nil => exact if_pos rfl
  | cons e' L =>
    rw [List.cons_append, firstOr, List.cons_append, firstOr]
    refine if_neg fun heq => ?_
    rw [List.cons_append, List.map_cons, List.nodup_cons, List.map_append, List.map_cons] at h
    rw [← Option.some.inj heq] at h
    exact h.1 (List.mem_append_right _ List.mem_cons_self)

/-- The last item, after an item is taken out. -/
theorem lastOr_removed (h : ((L ++ e :: L').map Prod.fst).Nodup) :
    (if some e.1 = lastOr none (L ++ e :: L') then lastOr none L
      else lastOr none (L ++ e :: L')) = lastOr none (L ++ L') := by
  rw [lastOr_append_cons, lastOr_append_eq]
  rcases List.eq_nil_or_concat L' with rfl | ⟨L', e', rfl⟩
  · exact if_pos rfl
  · rw [List.concat_eq_append, lastOr_append, lastOr_append]
    refine if_neg fun heq => ?_
    rw [List.concat_eq_append, List.map_append, List.map_cons, List.map_append] at h
    have hnotMem := (List.nodup_cons.mp (List.nodup_append.mp h).2.1).1
    refine hnotMem (List.mem_append_right _ ?_)
    rw [Option.some.inj heq]
    exact List.mem_cons_self

end Removal

/-! ## 2. Other neighbours -/

section Writes

variable [DecidableEq π] {m : π → Option (Item π δ)} {R : Multiset (π × Item π δ)}
  {b a : Option π} {L : List (π × δ)}

/-- **Another item before a segment.** -/
theorem relinkPrev (h : Exactly m (cells b L a + R)) (b' : Option π) :
    Exactly (modifyIf m (firstOr none L) (Item.setPrev b')) (cells b' L a + R) := by
  cases L with
  | nil => exact h
  | cons e L =>
    rw [cells, add_assoc] at h ⊢
    exact h.modify _

/-- **Another item after a segment.** -/
theorem relinkNext (h : Exactly m (cells b L a + R)) (a' : Option π) :
    Exactly (modifyIf m (lastOr none L) (Item.setNext a')) (cells b L a' + R) := by
  rcases List.eq_nil_or_concat L with rfl | ⟨L, e, rfl⟩
  · exact h
  · rw [List.concat_eq_append, cells_append] at h ⊢
    rw [lastOr_append]
    have hfront : ∀ x, cells b L (firstOr x [e]) + cells (lastOr b L) [e] x + R =
        {(e.1, ⟨lastOr b L, x, e.2⟩)} + (cells b L (some e.1) + R) := by
      intro x
      rw [cells, cells, firstOr, firstOr]
      abel
    rw [hfront] at h ⊢
    exact h.modify _

/-- The write that gives a segment another item before it. -/
theorem store_prev (h : Exactly m (cells b L a + R)) (b' : Option π) :
    ∃ m', storeIf m (firstOr none L) (Item.setPrev b') = some m' ∧
      Exactly m' (cells b' L a + R) := by
  refine ⟨_, storeIf_eq (fun p hp => ?_) _, relinkPrev h b'⟩
  rw [← h.mem_iff, addrs_add, addrs_cells]
  exact Multiset.mem_add.mpr (Or.inl (mem_of_firstOr hp))

/-- The write that gives a segment another item after it. -/
theorem store_next (h : Exactly m (cells b L a + R)) (a' : Option π) :
    ∃ m', storeIf m (lastOr none L) (Item.setNext a') = some m' ∧
      Exactly m' (cells b L a' + R) := by
  refine ⟨_, storeIf_eq (fun p hp => ?_) _, relinkNext h a'⟩
  rw [← h.mem_iff, addrs_add, addrs_cells]
  exact Multiset.mem_add.mpr (Or.inl (mem_of_lastOr hp))

end Writes

end DoublyLinked
