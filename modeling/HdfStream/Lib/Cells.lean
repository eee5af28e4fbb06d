/-
# What a heap holds

A heap maps the addresses in use to their contents.  A collection of cells, addresses with
contents, says what a heap holds: `Holds` of a part of it, `Exactly` of all of it.  A collection
is a multiset, so that a part that a program works on can be written beside the rest, whatever the
rest is.

An operation at an address reads or changes one cell and no other.  A view shows a part of every
cell: several structures that use the same cells through different fields have a view each, and an
operation changes the views whose fields it writes.
-/
import Mathlib.Algebra.Order.Group.Multiset
import Mathlib.Tactic.Abel

namespace Cells

variable {π β γ δ : Type*}

/-! ## 1. The collections of cells -/

/-- The addresses of a collection. -/
def addrs (S : Multiset (π × β)) : Multiset π := S.map Prod.fst

@[simp] theorem addrs_zero : addrs (0 : Multiset (π × β)) = 0 := rfl

@[simp] theorem addrs_singleton (e : π × β) : addrs {e} = {e.1} := Multiset.map_singleton _ _

@[simp] theorem addrs_add (S T : Multiset (π × β)) : addrs (S + T) = addrs S + addrs T :=
  Multiset.map_add _ _ _

/-- The cells have their contents in the heap. -/
def Holds (m : π → Option β) (S : Multiset (π × β)) : Prop := ∀ e ∈ S, m e.1 = some e.2

/-- The cells are at different addresses, and they are all of the heap. -/
structure Exactly (m : π → Option β) (S : Multiset (π × β)) : Prop where
  holds : Holds m S
  nodup : (addrs S).Nodup
  inUse : ∀ p x, m p = some x → p ∈ addrs S

theorem Holds.left {m : π → Option β} {S T : Multiset (π × β)} (h : Holds m (S + T)) :
    Holds m S := fun e he => h e (Multiset.mem_add.mpr (Or.inl he))

theorem Holds.right {m : π → Option β} {S T : Multiset (π × β)} (h : Holds m (S + T)) :
    Holds m T := fun e he => h e (Multiset.mem_add.mpr (Or.inr he))

theorem Holds.load {m : π → Option β} {S : Multiset (π × β)} {p : π} {x : β}
    (h : Holds m ({(p, x)} + S)) : m p = some x :=
  h (p, x) (Multiset.mem_add.mpr (Or.inl (Multiset.mem_singleton_self _)))

namespace Exactly

variable {m : π → Option β} {S : Multiset (π × β)} {p : π} {x : β}

theorem congr {T : Multiset (π × β)} (h : Exactly m S) (hS : S = T) : Exactly m T := hS ▸ h

theorem load (h : Exactly m ({(p, x)} + S)) : m p = some x := h.holds.load

/-- The address of a cell is not the address of another one. -/
theorem notMem (h : Exactly m ({(p, x)} + S)) : p ∉ addrs S := by
  intro hp
  have hnodup := h.nodup
  rw [addrs_add, addrs_singleton, Multiset.nodup_add] at hnodup
  exact Multiset.disjoint_left.mp hnodup.2.2 (Multiset.mem_singleton_self p) hp

theorem mem_iff (h : Exactly m S) : p ∈ addrs S ↔ (m p).isSome := by
  constructor
  · intro hp
    obtain ⟨e, he, rfl⟩ := Multiset.mem_map.mp hp
    rw [h.holds e he]
    rfl
  · intro hp
    obtain ⟨y, hy⟩ := Option.isSome_iff_exists.mp hp
    exact h.inUse p y hy

end Exactly

theorem exactly_empty : Exactly (fun _ => none : π → Option β) 0 where
  holds := fun _ he => absurd he (Multiset.notMem_zero _)
  nodup := Multiset.nodup_zero
  inUse := fun _ _ h => by cases h

/-- Two structures that use all cells of a heap have the same addresses. -/
theorem addrs_eq {m : π → Option β} {m' : π → Option γ} {S : Multiset (π × β)}
    {T : Multiset (π × γ)} (h : Exactly m S) (h' : Exactly m' T)
    (hm : ∀ p, (m p).isSome = (m' p).isSome) : addrs S = addrs T := by
  refine (Multiset.Nodup.ext h.nodup h'.nodup).mpr fun p => ?_
  rw [h.mem_iff, h'.mem_iff, hm]

/-! ## 2. Operations -/

section Operations

variable [DecidableEq π]

/-- New contents for an address, as a function of the old ones. -/
def modify (m : π → Option β) (p : π) (f : β → β) : π → Option β :=
  Function.update m p ((m p).map f)

/-- The same at the end of a pointer, if it is not null. -/
def modifyIf (m : π → Option β) (p : Option π) (f : β → β) : π → Option β :=
  match p with
  | none => m
  | some p => modify m p f

/-- A write through a pointer; it fails where nothing is. -/
def store (m : π → Option β) (p : π) (f : β → β) : Option (π → Option β) :=
  (m p).map fun _ => modify m p f

/-- A write through a pointer, if it is not null. -/
def storeIf (m : π → Option β) (p : Option π) (f : β → β) : Option (π → Option β) :=
  match p with
  | none => some m
  | some p => store m p f

/-- An address is not in use any more; it fails where nothing is. -/
def free (m : π → Option β) (p : π) : Option (π → Option β) :=
  (m p).map fun _ => Function.update m p none

/-- Contents for an address that is not in use. -/
def alloc (m : π → Option β) (p : π) (x : β) : Option (π → Option β) :=
  match m p with
  | none => some (Function.update m p (some x))
  | some _ => none

theorem modify_self (m : π → Option β) (p : π) (f : β → β) : modify m p f p = (m p).map f :=
  Function.update_self _ _ _

theorem modify_of_ne {p q : π} (h : q ≠ p) (m : π → Option β) (f : β → β) :
    modify m p f q = m q :=
  Function.update_of_ne h _ _

theorem store_eq {m : π → Option β} {p : π} {x : β} (h : m p = some x) (f : β → β) :
    store m p f = some (modify m p f) := by
  rw [store, h, Option.map_some]

theorem storeIf_eq {m : π → Option β} {p : Option π} (h : ∀ q, p = some q → (m q).isSome)
    (f : β → β) : storeIf m p f = some (modifyIf m p f) := by
  cases p with
  | none => rfl
  | some p =>
    obtain ⟨x, hx⟩ := Option.isSome_iff_exists.mp (h p rfl)
    exact store_eq hx f

theorem free_eq {m : π → Option β} {p : π} {x : β} (h : m p = some x) :
    free m p = some (Function.update m p none) := by
  rw [free, h, Option.map_some]

theorem alloc_eq {m : π → Option β} {p : π} (h : m p = none) (x : β) :
    alloc m p x = some (Function.update m p (some x)) := by
  rw [alloc, h]

theorem alloc_eq_some {m m' : π → Option β} {p : π} {x : β} (h : alloc m p x = some m') :
    m p = none ∧ m' = Function.update m p (some x) := by
  rw [alloc] at h
  split at h
  · rename_i hp
    exact ⟨hp, (Option.some.inj h).symm⟩
  · cases h

namespace Exactly

variable {m : π → Option β} {S : Multiset (π × β)} {p : π} {x : β}

/-- A change of one cell. -/
theorem modify (h : Exactly m ({(p, x)} + S)) (f : β → β) :
    Exactly (modify m p f) ({(p, f x)} + S) where
  holds := by
    intro e he
    rcases Multiset.mem_add.mp he with hself | hrest
    · obtain rfl := Multiset.mem_singleton.mp hself
      rw [modify_self, h.load, Option.map_some]
    · have hne : e.1 ≠ p := by
        rintro rfl
        exact h.notMem (Multiset.mem_map_of_mem _ hrest)
      rw [modify_of_ne hne]
      exact h.holds.right e hrest
  nodup := by
    have hnodup := h.nodup
    rwa [addrs_add, addrs_singleton] at hnodup ⊢
  inUse := by
    intro q y hq
    rw [addrs_add, addrs_singleton]
    by_cases hne : q = p
    · exact Multiset.mem_add.mpr (Or.inl (Multiset.mem_singleton.mpr hne))
    · rw [modify_of_ne hne] at hq
      have hmem := h.inUse q y hq
      rwa [addrs_add, addrs_singleton] at hmem

/-- A new cell. -/
theorem insert (h : Exactly m S) (hp : m p = none) (x : β) :
    Exactly (Function.update m p (some x)) ({(p, x)} + S) where
  holds := by
    intro e he
    rcases Multiset.mem_add.mp he with hself | hrest
    · obtain rfl := Multiset.mem_singleton.mp hself
      exact Function.update_self _ _ _
    · have hne : e.1 ≠ p := by
        rintro rfl
        rw [h.holds e hrest] at hp
        cases hp
      rw [Function.update_of_ne hne]
      exact h.holds e hrest
  nodup := by
    rw [addrs_add, addrs_singleton, Multiset.singleton_add, Multiset.nodup_cons]
    refine ⟨fun hmem => ?_, h.nodup⟩
    rw [h.mem_iff, hp] at hmem
    cases hmem
  inUse := by
    intro q y hq
    rw [addrs_add, addrs_singleton]
    by_cases hne : q = p
    · exact Multiset.mem_add.mpr (Or.inl (Multiset.mem_singleton.mpr hne))
    · rw [Function.update_of_ne hne] at hq
      exact Multiset.mem_add.mpr (Or.inr (h.inUse q y hq))

/-- A cell less. -/
theorem erase (h : Exactly m ({(p, x)} + S)) : Exactly (Function.update m p none) S where
  holds := by
    intro e he
    have hne : e.1 ≠ p := by
      rintro rfl
      exact h.notMem (Multiset.mem_map_of_mem _ he)
    rw [Function.update_of_ne hne]
    exact h.holds.right e he
  nodup := by
    have hnodup := h.nodup
    rw [addrs_add, addrs_singleton, Multiset.singleton_add, Multiset.nodup_cons] at hnodup
    exact hnodup.2
  inUse := by
    intro q y hq
    by_cases hne : q = p
    · rw [hne, Function.update_self] at hq
      cases hq
    · rw [Function.update_of_ne hne] at hq
      have hmem := h.inUse q y hq
      rw [addrs_add, addrs_singleton, Multiset.singleton_add, Multiset.mem_cons] at hmem
      exact hmem.resolve_left hne

/-- A write through a pointer to a cell. -/
theorem store (h : Exactly m ({(p, x)} + S)) (f : β → β) :
    ∃ m', Cells.store m p f = some m' ∧ Exactly m' ({(p, f x)} + S) :=
  ⟨_, store_eq h.load f, h.modify f⟩

/-- Memory for a new cell. -/
theorem alloc (h : Exactly m S) (hp : m p = none) (x : β) :
    ∃ m', Cells.alloc m p x = some m' ∧ Exactly m' ({(p, x)} + S) :=
  ⟨_, alloc_eq hp x, h.insert hp x⟩

/-- The memory of a cell is free. -/
theorem free (h : Exactly m ({(p, x)} + S)) : ∃ m', Cells.free m p = some m' ∧ Exactly m' S :=
  ⟨_, free_eq h.load, h.erase⟩

end Exactly

end Operations

/-! ## 3. Views -/

/-- A part of the contents of every cell. -/
def view (g : β → γ) (m : π → Option β) : π → Option γ := fun p => (m p).map g

theorem view_isSome (g : β → γ) (m : π → Option β) (p : π) :
    (view g m p).isSome = (m p).isSome := Option.isSome_map

theorem view_eq_none (g : β → γ) {m : π → Option β} {p : π} (h : m p = none) :
    view g m p = none := by
  rw [view, h, Option.map_none]

/-- What a view shows is there. -/
theorem exists_of_view {g : β → γ} {m : π → Option β} {p : π} {y : γ} (h : view g m p = some y) :
    ∃ x, m p = some x ∧ g x = y := Option.map_eq_some_iff.mp h

theorem view_update [DecidableEq π] (g : β → γ) (m : π → Option β) (p : π) (x : Option β) :
    view g (Function.update m p x) = Function.update (view g m) p (x.map g) := by
  funext q
  by_cases h : q = p
  · rw [h, view, Function.update_self, Function.update_self]
  · rw [view, Function.update_of_ne h, Function.update_of_ne h, view]

/-- A write to what the view shows. -/
theorem view_modify [DecidableEq π] {g : β → γ} {f : β → β} {f' : γ → γ}
    (hf : ∀ x, g (f x) = f' (g x)) (m : π → Option β) (p : π) :
    view g (modify m p f) = modify (view g m) p f' := by
  rw [modify, modify, view_update, Option.map_map, view, Option.map_map]
  congr 2
  funext x
  exact hf x

theorem view_modifyIf [DecidableEq π] {g : β → γ} {f : β → β} {f' : γ → γ}
    (hf : ∀ x, g (f x) = f' (g x)) (m : π → Option β) (p : Option π) :
    view g (modifyIf m p f) = modifyIf (view g m) p f' := by
  cases p with
  | none => rfl
  | some p => exact view_modify hf m p

/-- A write to what it does not show. -/
theorem view_modify_same [DecidableEq π] {g : β → γ} {f : β → β} (hf : ∀ x, g (f x) = g x)
    (m : π → Option β) (p : π) : view g (modify m p f) = view g m := by
  rw [modify, view_update, Option.map_map]
  refine Function.update_eq_self_iff.mpr ?_
  rw [view]
  congr 1
  funext x
  exact hf x

theorem view_modifyIf_same [DecidableEq π] {g : β → γ} {f : β → β} (hf : ∀ x, g (f x) = g x)
    (m : π → Option β) (p : Option π) : view g (modifyIf m p f) = view g m := by
  cases p with
  | none => rfl
  | some p => exact view_modify_same hf m p

end Cells
