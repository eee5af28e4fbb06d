/-
# Places in binary search trees

A search compares the key that is wanted with the values on its way.  Its outcome at a value is
`test`: negative if the key belongs to the left, positive if it belongs to the right, and 0 if it
is the key of the value.  `Ordered test L` says that the outcomes along a list are first positive
and then negative, as they are for a list of increasing keys.

`locate` gives the place of a key: the node that has it, or the empty place where it would be.  In
an ordered tree all values before the place are less than the key, and all values after it are
greater (`locate_before`, `locate_after`).  `farthest` gives the last node on a side.
-/
import HdfStream.Lib.Zipper

namespace Zipper

variable {α : Type*}

/-! ## 1. The place of a key -/

section Locate

variable (test : α → Int)

/-- The search for a key. -/
def locate : BinaryTree α → List (Frame α) → BinaryTree α × List (Frame α)
  | .nil, path => (.nil, path)
  | .node a l r, path =>
    if test a < 0 then locate l (⟨.left, a, r⟩ :: path)
    else if test a > 0 then locate r (⟨.right, a, l⟩ :: path)
    else (.node a l r, path)

/-- The search only goes about in the tree. -/
theorem plug_locate (t : BinaryTree α) (path : List (Frame α)) :
    plug (locate test t path).1 (locate test t path).2 = plug t path := by
  induction t generalizing path with
  | nil => rfl
  | node a l r ihl ihr =>
    rw [locate]
    split
    · exact ihl _
    · split
      · exact ihr _
      · rfl

/-- What the search finds has the key. -/
theorem locate_node {t l r : BinaryTree α} {a : α} {path path' : List (Frame α)}
    (h : locate test t path = (.node a l r, path')) : test a = 0 := by
  induction t generalizing path with
  | nil => cases h
  | node b l' r' ihl ihr =>
    rw [locate] at h
    split at h
    · exact ihl h
    · split at h
      · exact ihr h
      · cases h
        omega

/-- The outcomes along the path of a search. -/
def Guides (path : List (Frame α)) : Prop :=
  ∀ f ∈ path, (f.dir = .left → test f.value < 0) ∧ (f.dir = .right → test f.value > 0)

theorem guides_locate {t : BinaryTree α} {path : List (Frame α)} (h : Guides test path) :
    Guides test (locate test t path).2 := by
  induction t generalizing path with
  | nil => exact h
  | node a l r ihl ihr =>
    rw [locate]
    split
    · rename_i hlt
      exact ihl (List.forall_mem_cons.mpr
        ⟨⟨fun _ => hlt, fun hd => by cases hd⟩, h⟩)
    · split
      · rename_i hgt
        exact ihr (List.forall_mem_cons.mpr
          ⟨⟨fun hd => (by cases hd), fun _ => hgt⟩, h⟩)
      · exact h

/-- First greater outcomes, then smaller ones. -/
def Ordered (L : List α) : Prop := L.Pairwise fun a b => test a ≤ 0 → test b < 0

variable {test}

theorem Ordered.sublist {L L' : List α} (h : Ordered test L) (hL : L'.Sublist L) :
    Ordered test L' := List.Pairwise.sublist hL h

/-- **What is before the place of a key is less.** -/
theorem Ordered.before {t : BinaryTree α} {path : List (Frame α)}
    (h : Ordered test (inorder (plug t path))) (hpath : Guides test path) :
    ∀ a ∈ before path, test a > 0 := by
  induction path generalizing t with
  | nil => exact fun a ha => absurd ha List.not_mem_nil
  | cons f path ih =>
    have hrest := ih h fun g hg => hpath g (List.mem_cons_of_mem _ hg)
    obtain ⟨d, b, s⟩ := f
    cases d with
    | left => exact hrest
    | right =>
      have hb : test b > 0 := (hpath _ List.mem_cons_self).2 rfl
      intro a ha
      rcases List.mem_append.mp ha with ha | ha
      · exact hrest a ha
      · rcases List.mem_append.mp ha with ha | ha
        · -- on the left of an ancestor that is less
          have hsub : (inorder s ++ [b]).Sublist (inorder (plug t (⟨.right, b, s⟩ :: path))) := by
            rw [plug, inorder_plug, Frame.fill, join, inorder]
            refine List.Sublist.trans ?_ (List.sublist_append_left _ _)
            refine List.Sublist.trans ?_ (List.sublist_append_right _ _)
            exact List.Sublist.append_left (List.singleton_sublist.mpr List.mem_cons_self) _
          have hpair := (h.sublist hsub)
          have hab := (List.pairwise_append.mp hpair).2.2 a ha b (List.mem_singleton_self b)
          omega
        · rw [List.mem_singleton.mp ha]
          exact hb

/-- **What is after the place of a key is greater.** -/
theorem Ordered.after {t : BinaryTree α} {path : List (Frame α)}
    (h : Ordered test (inorder (plug t path))) (hpath : Guides test path) :
    ∀ a ∈ after path, test a < 0 := by
  induction path generalizing t with
  | nil => exact fun a ha => absurd ha List.not_mem_nil
  | cons f path ih =>
    have hrest := ih h fun g hg => hpath g (List.mem_cons_of_mem _ hg)
    obtain ⟨d, b, s⟩ := f
    cases d with
    | right => exact hrest
    | left =>
      have hb : test b < 0 := (hpath _ List.mem_cons_self).1 rfl
      intro a ha
      rcases List.mem_append.mp ha with ha | ha
      · rcases List.mem_cons.mp ha with rfl | ha
        · exact hb
        · -- on the right of an ancestor that is greater
          have hsub : (b :: inorder s).Sublist (inorder (plug t (⟨.left, b, s⟩ :: path))) := by
            rw [plug, inorder_plug, Frame.fill, join, inorder]
            refine List.Sublist.trans ?_ (List.sublist_append_left _ _)
            refine List.Sublist.trans ?_ (List.sublist_append_right _ _)
            exact List.sublist_append_right _ _
          exact List.rel_of_pairwise_cons (h.sublist hsub) ha (Int.le_of_lt hb)
      · exact hrest a ha

end Locate

/-! ## 2. The last node on a side -/

/-- Induction along one side of a tree. -/
theorem join_induction (d : Dir) {P : BinaryTree α → Prop} (hnil : P .nil)
    (hjoin : ∀ a t u, P t → P (join d a t u)) (t : BinaryTree α) : P t := by
  induction t with
  | nil => exact hnil
  | node a l r ihl ihr =>
    cases d with
    | left => exact hjoin a l r ihl
    | right => exact hjoin a r l ihr

/-- The place of the last node on the left. -/
def farthestLeft : BinaryTree α → List (Frame α) → BinaryTree α × List (Frame α)
  | .nil, path => (.nil, path)
  | .node a .nil r, path => (.node a .nil r, path)
  | .node a (.node b l' r') r, path => farthestLeft (.node b l' r') (⟨.left, a, r⟩ :: path)

/-- The place of the last node on the right. -/
def farthestRight : BinaryTree α → List (Frame α) → BinaryTree α × List (Frame α)
  | .nil, path => (.nil, path)
  | .node a l .nil, path => (.node a l .nil, path)
  | .node a l (.node b l' r'), path => farthestRight (.node b l' r') (⟨.right, a, l⟩ :: path)

/-- The place of the last node on a side. -/
def farthest : Dir → BinaryTree α → List (Frame α) → BinaryTree α × List (Frame α)
  | .left => farthestLeft
  | .right => farthestRight

theorem farthest_join_nil (d : Dir) (a : α) (u : BinaryTree α) (path : List (Frame α)) :
    farthest d (join d a .nil u) path = (join d a .nil u, path) := by
  cases d <;> rfl

theorem farthest_join_join (d : Dir) (a b : α) (t u s : BinaryTree α) (path : List (Frame α)) :
    farthest d (join d a (join d b t u) s) path = farthest d (join d b t u)
      (⟨d, a, s⟩ :: path) := by
  cases d <;> rfl

/-- A tree is empty, or a node seen from a side. -/
theorem eq_nil_or_join (d : Dir) (t : BinaryTree α) : t = .nil ∨ ∃ a u s, t = join d a u s := by
  cases t with
  | nil => exact Or.inl rfl
  | node a l r =>
    obtain ⟨u, s, h⟩ := exists_join d a l r
    exact Or.inr ⟨a, u, s, h⟩

/-- **The last node on a side** has nothing on that side, and the path to it goes to that side. -/
theorem farthest_spec (d : Dir) (t : BinaryTree α) (ht : t ≠ .nil) :
    ∃ a u q, (∀ path, farthest d t path = (join d a .nil u, q ++ path)) ∧
      plug (join d a .nil u) q = t ∧ ∀ f ∈ q, f.dir = d := by
  induction t using join_induction d with
  | hnil => exact absurd rfl ht
  | hjoin a t u ih =>
    rcases eq_nil_or_join d t with rfl | ⟨b, t', u', rfl⟩
    · exact ⟨a, u, [], farthest_join_nil d a u, rfl, fun f hf => absurd hf List.not_mem_nil⟩
    · obtain ⟨c, v, q, hfar, hplug, hdir⟩ := ih (by cases d <;> exact fun h => by cases h)
      refine ⟨c, v, q ++ [⟨d, a, u⟩], fun path => ?_, ?_, ?_⟩
      · rw [farthest_join_join, hfar, List.append_assoc, List.singleton_append]
      · rw [plug_append, hplug]
        rfl
      · intro f hf
        rcases List.mem_append.mp hf with hf | hf
        · exact hdir f hf
        · rw [List.mem_singleton.mp hf]

end Zipper
