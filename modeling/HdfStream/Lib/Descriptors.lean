/-
# Descriptor tables: which numbers refer to which objects

A process refers to the objects of the system (ends of pipes, files) by numbers.  `open`, `pipe`
and `dup2` put an object at a number, `close` takes the number away, and `fork` copies the whole
table.  Every process may hold an object under any number of numbers, and an end of a pipe is gone
when nobody holds it any more.

The file gives the tables as finite maps and one predicate about them: `Lists t P l` says that the
entries of `t` for objects with `P` are exactly those of the list `l`.  A proof about a program
that opens and closes its own descriptors then computes with the list, while the other entries of
the table, which other code opens and closes at the same time, stay out of sight.
-/
import Mathlib.Data.Finmap

/-- The descriptor table of a process. -/
abbrev DescriptorTable (ο : Type*) := Finmap fun _ : ℕ => ο

namespace DescriptorTable

variable {ο : Type*} {t : DescriptorTable ο} {P : ο → Prop} {l l' : List (ℕ × ο)} {fd fd' : ℕ}
  {o o' : ο}

/-! ## 1. Tables -/

/-- Some number refers to the object. -/
def Holds (t : DescriptorTable ο) (o : ο) : Prop := ∃ fd ∈ t.keys, t.lookup fd = some o

instance [DecidableEq ο] : Decidable (t.Holds o) :=
  inferInstanceAs (Decidable (∃ fd ∈ t.keys, t.lookup fd = some o))

theorem holds_iff : t.Holds o ↔ ∃ fd, t.lookup fd = some o := by
  constructor
  · rintro ⟨fd, -, h⟩
    exact ⟨fd, h⟩
  · rintro ⟨fd, h⟩
    exact ⟨fd, Finmap.mem_keys.mpr (Finmap.mem_iff.mpr ⟨o, h⟩), h⟩

@[simp] theorem not_holds_empty : ¬ (∅ : DescriptorTable ο).Holds o := by
  rw [holds_iff]
  rintro ⟨fd, h⟩
  rw [Finmap.lookup_empty] at h
  cases h

theorem lookup_insert_iff :
    Finmap.lookup fd' (Finmap.insert fd o t) = some o' ↔
      (fd' = fd ∧ o = o') ∨ (fd' ≠ fd ∧ t.lookup fd' = some o') := by
  by_cases hfd : fd' = fd
  · subst hfd
    simp [Finmap.lookup_insert]
  · simp [Finmap.lookup_insert_of_ne _ hfd, hfd]

theorem lookup_erase_iff :
    Finmap.lookup fd' (Finmap.erase fd t) = some o' ↔ fd' ≠ fd ∧ t.lookup fd' = some o' := by
  by_cases hfd : fd' = fd
  · subst hfd
    simp [Finmap.lookup_erase]
  · simp [Finmap.lookup_erase_ne hfd, hfd]

theorem Holds.of_insert (h : DescriptorTable.Holds (Finmap.insert fd o t) o') :
    o = o' ∨ t.Holds o' := by
  obtain ⟨fd', h⟩ := holds_iff.mp h
  rcases lookup_insert_iff.mp h with ⟨-, rfl⟩ | ⟨-, h⟩
  · exact .inl rfl
  · exact .inr (holds_iff.mpr ⟨fd', h⟩)

theorem Holds.of_erase (h : DescriptorTable.Holds (Finmap.erase fd t) o') : t.Holds o' := by
  obtain ⟨fd', h⟩ := holds_iff.mp h
  exact holds_iff.mpr ⟨fd', (lookup_erase_iff.mp h).2⟩

/-- `dup2(old, new)`: `new` refers to the object of `old`.  If `old` is not open the call fails. -/
def dup2 (t : DescriptorTable ο) (old new : ℕ) : DescriptorTable ο :=
  match t.lookup old with
  | none => t
  | some o => t.insert new o

theorem dup2_of_lookup {new : ℕ} (h : t.lookup fd = some o) : t.dup2 fd new = t.insert new o := by
  unfold dup2
  rw [h]

theorem Holds.of_dup2 {new : ℕ} (h : (t.dup2 fd new).Holds o) : t.Holds o := by
  unfold dup2 at h
  split at h
  · exact h
  · rename_i o' ho'
    rcases h.of_insert with rfl | h
    · exact holds_iff.mpr ⟨fd, ho'⟩
    · exact h

/-! ## 2. The entries of a class of objects -/

/-- The entries for objects with `P` are those of the list. -/
def Lists (t : DescriptorTable ο) (P : ο → Prop) (l : List (ℕ × ο)) : Prop :=
  ∀ fd o, P o → (t.lookup fd = some o ↔ (fd, o) ∈ l)

theorem Lists.lookup (h : t.Lists P l) (hmem : (fd, o) ∈ l) (ho : P o) :
    t.lookup fd = some o :=
  (h fd o ho).mpr hmem

theorem Lists.holds_iff (h : t.Lists P l) (ho : P o) : t.Holds o ↔ ∃ fd, (fd, o) ∈ l := by
  rw [DescriptorTable.holds_iff]
  exact exists_congr fun fd => h fd o ho

theorem lists_empty : (∅ : DescriptorTable ο).Lists P [] := by
  intro fd o _
  simp [Finmap.lookup_empty]

/-- Only the entries of the list matter, not their order. -/
theorem Lists.congr (h : t.Lists P l) (hl : ∀ e, P e.2 → (e ∈ l ↔ e ∈ l')) : t.Lists P l' :=
  fun fd o ho => (h fd o ho).trans (hl (fd, o) ho)

/-- Two objects are not under one number. -/
theorem Lists.ne (h : t.Lists P l) (hmem : (fd, o) ∈ l) (hmem' : (fd', o') ∈ l) (ho : P o)
    (ho' : P o') (hne : o ≠ o') : fd ≠ fd' := by
  rintro rfl
  have h₁ := h.lookup hmem ho
  rw [h.lookup hmem' ho', Option.some.injEq] at h₁
  exact hne h₁.symm

/-- A number that refers to something else is not in the list. -/
theorem Lists.ne_of_lookup (h : t.Lists P l) (hmem : (fd, o) ∈ l) (ho : P o)
    (hfd' : t.lookup fd' = some o') (ho' : ¬ P o') : fd ≠ fd' := by
  rintro rfl
  rw [h.lookup hmem ho, Option.some.injEq] at hfd'
  exact ho' (hfd' ▸ ho)

/-- A free number is not in the list. -/
theorem Lists.ne_of_free (h : t.Lists P l) (hmem : (fd, o) ∈ l) (ho : P o)
    (hfree : t.lookup fd' = none) : fd ≠ fd' := by
  rintro rfl
  rw [h.lookup hmem ho] at hfree
  cases hfree

/-- An object of the class at a number that is not in the list. -/
theorem Lists.insert (h : t.Lists P l) (hnew : ∀ e ∈ l, P e.2 → e.1 ≠ fd) :
    DescriptorTable.Lists (Finmap.insert fd o t) P ((fd, o) :: l) := by
  intro fd' o' ho'
  rw [lookup_insert_iff, h fd' o' ho', List.mem_cons, Prod.mk.injEq]
  constructor
  · rintro (⟨rfl, rfl⟩ | ⟨-, hmem⟩)
    · exact .inl ⟨rfl, rfl⟩
    · exact .inr hmem
  · rintro (⟨rfl, rfl⟩ | hmem)
    · exact .inl ⟨rfl, rfl⟩
    · exact .inr ⟨hnew _ hmem ho', hmem⟩

/-- An object of the class at a free number. -/
theorem Lists.insert_free (h : t.Lists P l) (hfree : t.lookup fd = none) :
    DescriptorTable.Lists (Finmap.insert fd o t) P ((fd, o) :: l) :=
  h.insert fun _ hmem ho => h.ne_of_free hmem ho hfree

/-- Another object at a free number. -/
theorem Lists.insert_other (h : t.Lists P l) (hfree : t.lookup fd = none) (ho : ¬ P o) :
    DescriptorTable.Lists (Finmap.insert fd o t) P l := by
  refine (h.insert_free hfree).congr fun e he => ?_
  rw [List.mem_cons, or_iff_right]
  rintro rfl
  exact ho he

theorem Lists.erase (h : t.Lists P l) (fd : ℕ) :
    DescriptorTable.Lists (Finmap.erase fd t) P (l.filter fun e => e.1 ≠ fd) := by
  intro fd' o' ho'
  rw [lookup_erase_iff, h fd' o' ho', List.mem_filter]
  simp [and_comm]

/-- A number that refers to another object is closed. -/
theorem Lists.erase_other (h : t.Lists P l) (hfd : t.lookup fd = some o) (ho : ¬ P o) :
    DescriptorTable.Lists (Finmap.erase fd t) P l := by
  refine (h.erase fd).congr fun e he => ?_
  rw [List.mem_filter, and_iff_left_of_imp]
  intro hmem
  exact decide_eq_true (h.ne_of_lookup hmem he hfd ho)

end DescriptorTable
