/-
# Search trees

With a comparison function of a strict total order, a tree whose keys increase from left to right
is a search tree: a key is found exactly if it is there, with its value.  Adding a key adds its
pair, and deleting one takes its pair out; both keep the order.
-/
import HdfStream.Maps.Updates

namespace HdfStream.Maps

open Zipper

variable {π κ ν : Type}

/-! ## 1. The order of the keys -/

/-- A comparison function of a strict total order. -/
structure StrictTotal (cmpfunc : κ → κ → Int) : Prop where
  eq_zero : ∀ j k, cmpfunc j k = 0 ↔ j = k
  gt_iff : ∀ j k, cmpfunc j k > 0 ↔ cmpfunc k j < 0
  trans : ∀ i j k, cmpfunc i j < 0 → cmpfunc j k < 0 → cmpfunc i k < 0

theorem strictTotal_minus : StrictTotal minus where
  eq_zero := fun _ _ => Int.sub_eq_zero
  gt_iff := fun _ _ => by
    rw [minus, minus]
    omega
  trans := fun _ _ _ hij hjk => by
    rw [minus] at hij hjk ⊢
    omega

/-- The keys of a tree with their values, from left to right. -/
def pairs (t : BinaryTree (π × κ × ν)) : List (κ × ν) := (inorder t).map Prod.snd

/-- The keys increase. -/
def Sorted (cmpfunc : κ → κ → Int) (D : List (κ × ν)) : Prop :=
  D.Pairwise fun a b => cmpfunc a.1 b.1 < 0

section Keys

variable {cmpfunc : κ → κ → Int} {t : BinaryTree (π × κ × ν)} {k : κ} {v : ν}

/-- The outcomes of a search. -/
theorem Sorted.ordered (hcmp : StrictTotal cmpfunc) (h : Sorted cmpfunc (pairs t)) (k : κ) :
    Ordered (against cmpfunc k) (inorder t) := by
  refine (List.pairwise_map.mp h).imp fun {a b} hab hle => ?_
  rw [against] at hle ⊢
  rcases Int.lt_or_eq_of_le hle with hlt | heq
  · exact hcmp.trans k a.2.1 b.2.1 hlt hab
  · rw [(hcmp.eq_zero _ _).mp heq]
    exact hab

/-- The keys are different. -/
theorem Sorted.nodup_keys (hcmp : StrictTotal cmpfunc) {D : List (κ × ν)}
    (h : Sorted cmpfunc D) : (D.map Prod.fst).Nodup := by
  refine List.pairwise_map.mpr (h.imp fun {a b} hab heq => ?_)
  rw [heq, (hcmp.eq_zero _ _).mpr rfl] at hab
  exact absurd hab (Int.lt_irrefl 0)

/-- Two pairs of one key are the same. -/
theorem Sorted.eq_of_key (hcmp : StrictTotal cmpfunc) {D : List (κ × ν)} (h : Sorted cmpfunc D)
    {a b : κ × ν} (ha : a ∈ D) (hb : b ∈ D) (hkey : a.1 = b.1) : a = b :=
  List.inj_on_of_nodup_map (h.nodup_keys hcmp) ha hb hkey

/-! ## 2. Looking up -/

/-- The pairs around a place. -/
theorem pairs_place (cmpfunc : κ → κ → Int) (t : BinaryTree (π × κ × ν)) (k : κ) :
    pairs t = (before (locate (against cmpfunc k) t []).2).map Prod.snd ++
      pairs (locate (against cmpfunc k) t []).1 ++
        (after (locate (against cmpfunc k) t []).2).map Prod.snd := by
  have hplug := plug_locate (against cmpfunc k) t []
  rw [plug] at hplug
  rw [pairs, ← hplug, inorder_plug, List.map_append, List.map_append, hplug]
  rfl

/-- What is before the place of a key has less keys. -/
theorem Sorted.before_lt (hcmp : StrictTotal cmpfunc) (h : Sorted cmpfunc (pairs t)) :
    ∀ a ∈ (before (locate (against cmpfunc k) t []).2).map Prod.snd, cmpfunc a.1 k < 0 := by
  have hord := h.ordered hcmp k
  rw [show t = plug t [] from rfl, ← plug_locate (against cmpfunc k) t []] at hord
  intro a ha
  obtain ⟨e, he, rfl⟩ := List.mem_map.mp ha
  exact (hcmp.gt_iff _ _).mp (hord.before (guides_locate _ fun f hf => absurd hf List.not_mem_nil) e
    he)

/-- What is after the place of a key has greater keys. -/
theorem Sorted.after_gt (hcmp : StrictTotal cmpfunc) (h : Sorted cmpfunc (pairs t)) :
    ∀ a ∈ (after (locate (against cmpfunc k) t []).2).map Prod.snd, cmpfunc k a.1 < 0 := by
  have hord := h.ordered hcmp k
  rw [show t = plug t [] from rfl, ← plug_locate (against cmpfunc k) t []] at hord
  intro a ha
  obtain ⟨e, he, rfl⟩ := List.mem_map.mp ha
  exact hord.after (guides_locate _ fun f hf => absurd hf List.not_mem_nil) e he

/-- A key without a place of its own is not there. -/
theorem Sorted.notMem (hcmp : StrictTotal cmpfunc) (h : Sorted cmpfunc (pairs t))
    (hnew : (locate (against cmpfunc k) t []).1 = .nil) : k ∉ (pairs t).map Prod.fst := by
  rw [pairs_place cmpfunc t k, hnew]
  intro hmem
  obtain ⟨a, ha, rfl⟩ := List.mem_map.mp hmem
  have hzero := (hcmp.eq_zero a.1 a.1).mpr rfl
  rw [pairs, inorder, List.map_nil, List.append_nil] at ha
  rcases List.mem_append.mp ha with ha | ha
  · have hlt := h.before_lt hcmp a ha
    omega
  · have hgt := h.after_gt hcmp a ha
    omega

/-- A key with a place is there. -/
theorem pair_of_locate (hcmp : StrictTotal cmpfunc) {e : π × κ × ν} {l r : BinaryTree (π × κ × ν)}
    (hfound : (locate (against cmpfunc k) t []).1 = .node e l r) : e.2.1 = k ∧ e.2 ∈ pairs t := by
  constructor
  · have hplace : locate (against cmpfunc k) t [] = (.node e l r, _) := Prod.ext hfound rfl
    have htest := locate_node (against cmpfunc k) hplace
    exact ((hcmp.eq_zero _ _).mp htest).symm
  · rw [pairs_place cmpfunc t k, hfound]
    refine List.mem_append_left _ (List.mem_append_right _ (List.mem_map_of_mem ?_))
    exact List.mem_append_right _ List.mem_cons_self

/-- **Looking up** gives the value of a key, if it is there. -/
theorem lookupTree_eq_some (hcmp : StrictTotal cmpfunc) (h : Sorted cmpfunc (pairs t)) :
    lookupTree cmpfunc k t = some v ↔ (k, v) ∈ pairs t := by
  rw [lookupTree]
  cases hfound : (locate (against cmpfunc k) t []).1 with
  | nil =>
    refine iff_of_false (fun hnone => by cases hnone) fun hmem => ?_
    exact h.notMem hcmp hfound (List.mem_map_of_mem hmem)
  | node e l r =>
    obtain ⟨hkey, hmem⟩ := pair_of_locate hcmp hfound
    rw [Option.some.injEq]
    constructor
    · rintro rfl
      rwa [← hkey]
    · intro hv
      exact congrArg Prod.snd (h.eq_of_key hcmp hmem hv hkey)

theorem lookupTree_eq_none (hcmp : StrictTotal cmpfunc) (h : Sorted cmpfunc (pairs t)) :
    lookupTree cmpfunc k t = none ↔ k ∉ (pairs t).map Prod.fst := by
  constructor
  · intro hnone hmem
    obtain ⟨a, ha, rfl⟩ := List.mem_map.mp hmem
    rw [(lookupTree_eq_some hcmp h).mpr ha] at hnone
    cases hnone
  · intro hmem
    by_contra hne
    obtain ⟨v, hv⟩ := Option.ne_none_iff_exists'.mp hne
    exact hmem (List.mem_map_of_mem ((lookupTree_eq_some hcmp h).mp hv))

end Keys

/-! ## 3. Adding and deleting -/

section Updates

variable {cmpfunc : κ → κ → Int} {t : BinaryTree (π × κ × ν)} {k : κ} {v : ν} {p : π}

/-- The pairs, after a key is added. -/
theorem pairs_addTree :
    pairs (addTree cmpfunc p k v t) =
      (before (locate (against cmpfunc k) t []).2).map Prod.snd ++ [(k, v)] ++
        (after (locate (against cmpfunc k) t []).2).map Prod.snd := by
  rw [pairs, addTree, inorder_rebuild, inorder_plug, List.map_append, List.map_append]
  rfl

theorem pairs_addTree_perm (hnew : (locate (against cmpfunc k) t []).1 = .nil) :
    (pairs (addTree cmpfunc p k v t)).Perm ((k, v) :: pairs t) := by
  rw [pairs_addTree, pairs_place cmpfunc t k, hnew, List.append_assoc, pairs, inorder,
    List.map_nil, List.append_nil]
  exact List.perm_middle

/-- **A new key** gets the place that the order gives it. -/
theorem Sorted.addTree (hcmp : StrictTotal cmpfunc) (h : Sorted cmpfunc (pairs t))
    (hnew : (locate (against cmpfunc k) t []).1 = .nil) :
    Sorted cmpfunc (pairs (addTree cmpfunc p k v t)) := by
  have hbefore := h.before_lt (k := k) hcmp
  have hafter := h.after_gt (k := k) hcmp
  rw [pairs_place cmpfunc t k, hnew, pairs, inorder, List.map_nil,
    List.append_nil] at h
  obtain ⟨hl, hr, hlr⟩ := List.pairwise_append.mp h
  rw [pairs_addTree, List.append_assoc, List.singleton_append]
  refine List.pairwise_append.mpr ⟨hl, List.pairwise_cons.mpr ⟨hafter, hr⟩, ?_⟩
  intro a ha b hb
  rcases List.mem_cons.mp hb with rfl | hb
  · exact hbefore a ha
  · exact hlr a ha b hb

/-- The pairs, after a key is deleted. -/
theorem pairs_deleteTree {e : π × κ × ν} {l r : BinaryTree (π × κ × ν)}
    (hfound : (locate (against cmpfunc k) t []).1 = .node e l r) :
    pairs (deleteTree cmpfunc k t) =
      (before (locate (against cmpfunc k) t []).2).map Prod.snd ++ (pairs l ++ pairs r) ++
        (after (locate (against cmpfunc k) t []).2).map Prod.snd := by
  rw [pairs, deleteTree, hfound, inorder_deleteAt, inorder_plug, List.map_append, List.map_append,
    inorder_removal, List.map_append]
  rfl

theorem pairs_deleteTree_perm {e : π × κ × ν} {l r : BinaryTree (π × κ × ν)}
    (hfound : (locate (against cmpfunc k) t []).1 = .node e l r) :
    (pairs t).Perm (e.2 :: pairs (deleteTree cmpfunc k t)) := by
  have hnode : pairs (.node e l r) = pairs l ++ e.2 :: pairs r := by
    rw [pairs, inorder, List.map_append, List.map_cons]
    rfl
  rw [pairs_deleteTree hfound, pairs_place cmpfunc t k, hfound, hnode]
  simp only [List.append_assoc, List.cons_append]
  rw [← List.append_assoc, ← List.append_assoc (List.map _ _)]
  exact List.perm_middle

/-- **The order stays** when a key is deleted. -/
theorem Sorted.deleteTree (h : Sorted cmpfunc (pairs t)) {e : π × κ × ν}
    {l r : BinaryTree (π × κ × ν)} (hfound : (locate (against cmpfunc k) t []).1 = .node e l r) :
    Sorted cmpfunc (pairs (deleteTree cmpfunc k t)) := by
  refine h.sublist ?_
  rw [pairs_deleteTree hfound, pairs_place cmpfunc t k, hfound]
  refine List.Sublist.append_right (List.Sublist.append_left ?_ _) _
  rw [pairs, pairs, pairs, inorder, List.map_append, List.map_cons]
  exact List.Sublist.append_left (List.sublist_cons_self _ _) _

end Updates

end HdfStream.Maps
