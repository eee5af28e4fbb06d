/-
# Lists with separators

`Separated sep s pieces` says that `s` consists of the pieces, with one separator between each two
and none inside a piece.  Such pieces are what a split at the separator finds (`separated_iff`), so
a parser that splits accepts a list with separators and nothing else.
-/
import Mathlib.Data.List.Basic

variable {α : Type*} {sep : α} {s : List α} {pieces : List (List α)}

/-- `s` consists of the pieces, with `sep` between them. -/
structure Separated (sep : α) (s : List α) (pieces : List (List α)) : Prop where
  ne_nil : pieces ≠ []
  free : ∀ p ∈ pieces, sep ∉ p
  eq : s = [sep].intercalate pieces

theorem notMem_of_mem_splitOn [BEq α] [LawfulBEq α] (sep : α) (s : List α) : ∀ p ∈ s.splitOn sep,
    sep ∉ p := by
  induction s with
  | nil =>
    intro p hp
    rw [List.splitOn_nil, List.mem_singleton] at hp
    rw [hp]
    exact List.not_mem_nil
  | cons c s ih =>
    intro p hp
    rw [List.splitOn_cons_eq_if_modifyHead] at hp
    split at hp
    · rcases List.mem_cons.mp hp with rfl | hp
      · exact List.not_mem_nil
      · exact ih p hp
    · rename_i hc
      obtain ⟨first, rest, hsplit⟩ := List.exists_cons_of_ne_nil (List.splitOn_ne_nil sep s)
      rw [hsplit] at hp ih
      rcases List.mem_cons.mp hp with rfl | hp
      · rw [List.mem_cons, not_or]
        exact ⟨fun h => hc (beq_iff_eq.mpr h.symm), ih first List.mem_cons_self⟩
      · exact ih p (List.mem_cons_of_mem _ hp)

/-- **The pieces are what a split finds.** -/
theorem separated_iff [BEq α] [LawfulBEq α] : Separated sep s pieces ↔ s.splitOn sep = pieces := by
  constructor
  · rintro ⟨hne, hfree, rfl⟩
    exact List.splitOn_intercalate sep hfree hne
  · rintro rfl
    exact ⟨List.splitOn_ne_nil sep s, notMem_of_mem_splitOn sep s,
      (List.intercalate_splitOn sep).symm⟩

/-- One piece. -/
theorem separated_singleton {p : List α} : Separated sep s [p] ↔ s = p ∧ sep ∉ p := by
  constructor
  · rintro ⟨_, hfree, rfl⟩
    exact ⟨List.intercalate_singleton, hfree p List.mem_cons_self⟩
  · rintro ⟨rfl, hfree⟩
    exact ⟨List.cons_ne_nil _ _, fun p hp => List.mem_singleton.mp hp ▸ hfree,
      List.intercalate_singleton.symm⟩

/-- Two pieces. -/
theorem separated_pair {p q : List α} :
    Separated sep s [p, q] ↔ s = p ++ sep :: q ∧ sep ∉ p ∧ sep ∉ q := by
  have heq : [sep].intercalate [p, q] = p ++ sep :: q := by
    rw [List.intercalate_cons_cons, List.intercalate_singleton, List.append_assoc]
    rfl
  constructor
  · rintro ⟨_, hfree, rfl⟩
    exact ⟨heq, hfree p List.mem_cons_self, hfree q (List.mem_cons_of_mem _ List.mem_cons_self)⟩
  · rintro ⟨rfl, hp, hq⟩
    refine ⟨List.cons_ne_nil _ _, fun r hr => ?_, heq.symm⟩
    rcases List.mem_cons.mp hr with rfl | hr
    · exact hp
    · exact List.mem_singleton.mp hr ▸ hq

/-- An element of no piece, and not the separator. -/
theorem notMem_intercalate {c : α} (hne : c ≠ sep) (h : ∀ p ∈ pieces, c ∉ p) :
    c ∉ [sep].intercalate pieces := by
  induction pieces with
  | nil => exact List.not_mem_nil
  | cons p pieces ih =>
    have hp := h p List.mem_cons_self
    have hrest := ih fun q hq => h q (List.mem_cons_of_mem _ hq)
    rcases pieces with _ | ⟨q, pieces⟩
    · rw [List.intercalate_singleton]
      exact hp
    · rw [List.intercalate_cons_cons, List.mem_append, List.mem_append, not_or, not_or]
      exact ⟨⟨hp, fun hsep => hne (List.mem_singleton.mp hsep)⟩, hrest⟩
