/-
# Height-balanced trees

In a balanced tree the heights of the two subtrees of every node differ by at most one.  What is
around a place has the same property for every subtree of a given height there
(`BalancedAround`), so that a tree is balanced exactly if the subtree at a place is, and what is
around it is balanced for its height (`balanced_plug`).
-/
import HdfStream.Lib.Zipper
import Mathlib.Algebra.Ring.Nat

namespace Zipper

variable {α : Type*}

/-- Two heights that differ by at most one. -/
def Close (m n : Nat) : Prop := m ≤ n + 1 ∧ n ≤ m + 1

instance (m n : Nat) : Decidable (Close m n) := inferInstanceAs (Decidable (_ ∧ _))

/-- The heights of the subtrees of every node are close. -/
def Balanced : BinaryTree α → Prop
  | .nil => True
  | .node _ l r => Close l.height r.height ∧ Balanced l ∧ Balanced r

/-- The ancestors are balanced if a tree of height `n` is at the place. -/
def BalancedAround : Nat → List (Frame α) → Prop
  | _, [] => True
  | n, f :: path =>
    Close n f.sibling.height ∧ Balanced f.sibling ∧
      BalancedAround (max n f.sibling.height + 1) path

/-- The height of the tree with a tree of height `n` at the place. -/
def heightAround : Nat → List (Frame α) → Nat
  | n, [] => n
  | n, f :: path => heightAround (max n f.sibling.height + 1) path

instance decidableBalanced : (t : BinaryTree α) → Decidable (Balanced t)
  | .nil => .isTrue trivial
  | .node _ l r =>
    have := decidableBalanced l
    have := decidableBalanced r
    inferInstanceAs (Decidable (Close l.height r.height ∧ Balanced l ∧ Balanced r))

theorem height_join (d : Dir) (a : α) (t u : BinaryTree α) :
    (join d a t u).height = max t.height u.height + 1 := by
  cases d with
  | left => rfl
  | right => rw [join, BinaryTree.height, Nat.max_comm]

theorem height_fill (f : Frame α) (t : BinaryTree α) :
    (f.fill t).height = max t.height f.sibling.height + 1 := height_join _ _ _ _

theorem balanced_join (d : Dir) (a : α) (t u : BinaryTree α) :
    Balanced (join d a t u) ↔ Close t.height u.height ∧ Balanced t ∧ Balanced u := by
  cases d with
  | left => exact Iff.rfl
  | right =>
    rw [join, Balanced, and_comm (a := Balanced u)]
    exact and_congr_left' And.comm

theorem height_plug (t : BinaryTree α) (path : List (Frame α)) :
    (plug t path).height = heightAround t.height path := by
  induction path generalizing t with
  | nil => rfl
  | cons f path ih => rw [plug, ih, height_fill, heightAround]

/-- **Balance around a place.** -/
theorem balanced_plug (t : BinaryTree α) (path : List (Frame α)) :
    Balanced (plug t path) ↔ Balanced t ∧ BalancedAround t.height path := by
  induction path generalizing t with
  | nil => exact (and_true _).symm ▸ Iff.rfl
  | cons f path ih =>
    rw [plug, ih, height_fill, Frame.fill, balanced_join, BalancedAround]
    constructor
    · rintro ⟨⟨hclose, ht, hs⟩, hpath⟩
      exact ⟨ht, hclose, hs, hpath⟩
    · rintro ⟨ht, hclose, hs, hpath⟩
      exact ⟨⟨hclose, ht, hs⟩, hpath⟩

theorem balancedAround_append (n : Nat) (path path' : List (Frame α)) :
    BalancedAround n (path ++ path') ↔
      BalancedAround n path ∧ BalancedAround (heightAround n path) path' := by
  induction path generalizing n with
  | nil => exact (true_and _).symm ▸ Iff.rfl
  | cons f path ih =>
    rw [List.cons_append, BalancedAround, BalancedAround, heightAround, ih, and_assoc, and_assoc]

end Zipper
