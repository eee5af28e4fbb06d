/-
# Cutting a list into pieces

`pieces n l` cuts a list into pieces of `n` elements, the last of which may be shorter.  `Cut` says
what there is to know about them.
-/
import Mathlib.Data.List.Basic

namespace Pieces

variable {α : Type*}

/-- The pieces of at most `n` elements. -/
def pieces (n : Nat) (l : List α) : List (List α) :=
  if _h : l = [] ∨ n = 0 then [] else l.take n :: pieces n (l.drop n)
termination_by l.length
decreasing_by
  rw [not_or] at _h
  rw [List.length_drop]
  have := List.length_pos_of_ne_nil _h.1
  omega

@[simp] theorem pieces_nil (n : Nat) : pieces n ([] : List α) = [] := by
  rw [pieces, dif_pos (.inl rfl)]

theorem pieces_of_ne_nil {n : Nat} {l : List α} (hn : 0 < n) (hl : l ≠ []) :
    pieces n l = l.take n :: pieces n (l.drop n) := by
  rw [pieces, dif_neg]
  rintro (hnil | hzero)
  · exact hl hnil
  · omega

/-- A list cut into pieces of `n` elements, without a rest: no piece is empty, and all but the last
are full. -/
structure Cut (n : Nat) (l : List α) (ps : List (List α)) : Prop where
  flatten : ps.flatten = l
  count : ps.length = (l.length + n - 1) / n
  ne_nil : ∀ p ∈ ps, p ≠ []
  le : ∀ p ∈ ps, p.length ≤ n
  full : ∀ p ∈ ps.dropLast, p.length = n

/-- **`pieces` cuts the list.** -/
theorem pieces_cut {n : Nat} (hn : 0 < n) (l : List α) : Cut n l (pieces n l) := by
  induction l using pieces.induct n with
  | case1 l h =>
    have hnil : l = [] := h.resolve_right (Nat.ne_of_gt hn)
    subst hnil
    rw [pieces_nil]
    constructor
    · rfl
    · rw [List.length_nil, List.length_nil, Nat.zero_add, Nat.div_eq_of_lt (by omega)]
    · exact fun p hp => by cases hp
    · exact fun p hp => by cases hp
    · exact fun p hp => by cases hp
  | case2 l h ih =>
    obtain ⟨hnil, _⟩ := not_or.mp h
    have hpos := List.length_pos_of_ne_nil hnil
    rw [pieces_of_ne_nil hn hnil]
    constructor
    · rw [List.flatten_cons, ih.flatten, List.take_append_drop]
    · rw [List.length_cons, ih.count, List.length_drop]
      rcases Nat.lt_or_ge l.length n with hlt | hge
      · have hone : (l.length + n - 1) / n = 1 := Nat.div_eq_of_lt_le (by omega) (by omega)
        rw [hone, Nat.sub_eq_zero_of_le (Nat.le_of_lt hlt), Nat.zero_add,
          Nat.div_eq_of_lt (by omega)]
      · have hsplit : l.length + n - 1 = l.length - n + n - 1 + n := by omega
        rw [hsplit, Nat.add_div_right _ hn]
    · intro p hp
      rcases List.mem_cons.mp hp with rfl | hp
      · exact fun htake => (List.take_eq_nil_iff.mp htake).elim (Nat.ne_of_gt hn) hnil
      · exact ih.ne_nil p hp
    · intro p hp
      rcases List.mem_cons.mp hp with rfl | hp
      · exact List.length_take_le _ _
      · exact ih.le p hp
    · intro p hp
      rcases Decidable.em (l.drop n = []) with hlast | hmore
      · rw [hlast, pieces_nil] at hp
        cases hp
      · have hne : pieces n (l.drop n) ≠ [] := by
          rw [pieces_of_ne_nil hn hmore]
          exact List.cons_ne_nil _ _
        rw [List.dropLast_cons_of_ne_nil hne] at hp
        rcases List.mem_cons.mp hp with rfl | hp
        · rw [List.length_take]
          have := List.length_pos_of_ne_nil hmore
          rw [List.length_drop] at this
          omega
        · exact ih.full p hp

end Pieces
