/-
# Trees with named children

A tree whose nodes carry data and whose children have names, in order (`LinkedMap`).

* `walk p t ks` goes from child to child along the names `ks`, as long as the data of the
  children satisfies `p`;
* `prune p t` deletes every child whose data does not satisfy `p`, with all that is below it,
  so that a walk in the pruned tree is a walk with `p` in the tree (`walk_prune`);
* `gather f t` lists what `f` finds in the nodes, with the names of the way there (`mem_gather`).
-/
import HdfStream.Lib.LinkedMap

/-- A tree with named children. -/
inductive Trie (κ α : Type*) where
  | node (val : α) (children : List (κ × Trie κ α))

namespace Trie

open LinkedMap

variable {κ α β : Type*}

/-- The data of the root. -/
def val : Trie κ α → α
  | node a _ => a

/-- The children of the root. -/
def children : Trie κ α → List (κ × Trie κ α)
  | node _ cs => cs

@[simp] theorem val_node (a : α) (cs : List (κ × Trie κ α)) : (node a cs).val = a := rfl

@[simp] theorem children_node (a : α) (cs : List (κ × Trie κ α)) : (node a cs).children = cs := rfl

mutual

/-- Induction over the tree: what holds of a node if it holds of its children holds. -/
theorem induction {P : Trie κ α → Prop} (h : ∀ a cs, (∀ c ∈ cs, P c.2) → P (node a cs)) :
    ∀ t, P t
  | node a cs => h a cs (induction_children h cs)

theorem induction_children {P : Trie κ α → Prop}
    (h : ∀ a cs, (∀ c ∈ cs, P c.2) → P (node a cs)) :
    ∀ cs : List (κ × Trie κ α), ∀ c ∈ cs, P c.2
  | [], c, hc => by cases hc
  | (k, t) :: cs, c, hc => by
    rcases List.mem_cons.mp hc with rfl | hc
    · exact induction h t
    · exact induction_children h cs c hc

end

/-! ## 1. A property of every node -/

/-- `P` holds of every subtree. -/
inductive All (P : Trie κ α → Prop) : Trie κ α → Prop where
  | node {a : α} {cs : List (κ × Trie κ α)} (h : P (node a cs)) (hcs : ∀ c ∈ cs, All P c.2) :
      All P (node a cs)

theorem All.root {P : Trie κ α → Prop} {t : Trie κ α} (h : All P t) : P t := by
  cases h with
  | node h _ => exact h

theorem All.child {P : Trie κ α → Prop} {t : Trie κ α} (h : All P t) {c : κ × Trie κ α}
    (hc : c ∈ t.children) : All P c.2 := by
  cases h with
  | node _ hcs => exact hcs c hc

theorem All.imp {P Q : Trie κ α → Prop} (hPQ : ∀ t, P t → Q t) {t : Trie κ α} (h : All P t) :
    All Q t := by
  induction h with
  | node h _ ih => exact .node (hPQ _ h) ih

/-! ## 2. Pruning and gathering -/

mutual

/-- Deletes every node below the root that does not satisfy `p`. -/
def prune (p : α → Bool) : Trie κ α → Trie κ α
  | node a cs => node a (pruneChildren p cs)

/-- `prune` on a list of children. -/
def pruneChildren (p : α → Bool) : List (κ × Trie κ α) → List (κ × Trie κ α)
  | [] => []
  | (k, t) :: cs => if p t.val then (k, prune p t) :: pruneChildren p cs else pruneChildren p cs

end

@[simp] theorem val_prune (p : α → Bool) (t : Trie κ α) : (prune p t).val = t.val := by
  cases t with
  | node a cs => rfl

theorem children_prune (p : α → Bool) (t : Trie κ α) :
    (prune p t).children = pruneChildren p t.children := by
  cases t with
  | node a cs => rfl

theorem pruneChildren_eq (p : α → Bool) (cs : List (κ × Trie κ α)) :
    pruneChildren p cs = (cs.filter fun c => p c.2.val).map fun c => (c.1, prune p c.2) := by
  induction cs with
  | nil => rfl
  | cons c cs ih =>
    obtain ⟨k, t⟩ := c
    rw [pruneChildren]
    by_cases hp : p t.val = true
    · simp only [hp, if_true, List.filter_cons, List.map_cons, ih]
    · simp only [hp, if_false, List.filter_cons, ih, Bool.false_eq_true]

mutual

/-- What `f` finds in the nodes, root first, with the names of the way to the node. -/
def gather (f : α → List β) : Trie κ α → List (List κ × β)
  | node a cs => (f a).map (fun b => ([], b)) ++ gatherChildren f cs

/-- `gather` on a list of children. -/
def gatherChildren (f : α → List β) : List (κ × Trie κ α) → List (List κ × β)
  | [] => []
  | (k, t) :: cs => (gather f t).map (fun x => (k :: x.1, x.2)) ++ gatherChildren f cs

end

theorem gather_eq (f : α → List β) (t : Trie κ α) :
    gather f t = (f t.val).map (fun b => ([], b)) ++ gatherChildren f t.children := by
  cases t with
  | node a cs => rw [gather, val_node, children_node]

theorem mem_gatherChildren {f : α → List β} {cs : List (κ × Trie κ α)} {x : List κ × β} :
    x ∈ gatherChildren f cs ↔ ∃ c ∈ cs, ∃ y ∈ gather f c.2, x = (c.1 :: y.1, y.2) := by
  induction cs with
  | nil => simp only [gatherChildren, List.not_mem_nil, false_and, exists_false]
  | cons c cs ih =>
    obtain ⟨k, t⟩ := c
    rw [gatherChildren, List.mem_append, ih, List.exists_mem_cons_iff, List.mem_map]
    simp only [eq_comm]

/-! ## 3. Walking -/

variable [DecidableEq κ]

/-- The children of the root have different names. -/
def UniqueNames (t : Trie κ α) : Prop := (keys t.children).Nodup

/-- The subtree at `ks`, if there is one and every node on the way satisfies `p`. -/
def walk (p : α → Bool) (t : Trie κ α) : List κ → Option (Trie κ α)
  | [] => some t
  | k :: ks =>
    match get t.children k with
    | some c => if p c.val then walk p c ks else none
    | none => none

@[simp] theorem walk_nil (p : α → Bool) (t : Trie κ α) : walk p t [] = some t := rfl

theorem walk_cons_eq_some {p : α → Bool} {t s : Trie κ α} {k : κ} {ks : List κ} :
    walk p t (k :: ks) = some s ↔
      ∃ c, get t.children k = some c ∧ p c.val = true ∧ walk p c ks = some s := by
  rw [walk]
  cases get t.children k with
  | none => simp only [reduceCtorEq, false_and, exists_false]
  | some c =>
    by_cases hp : p c.val = true
    · simp only [hp, if_true, Option.some.injEq, exists_eq_left', true_and]
    · simp only [hp, if_false, Option.some.injEq, exists_eq_left', false_and, reduceCtorEq,
        Bool.false_eq_true]

/-- Walks compose. -/
theorem walk_append {p : α → Bool} {t s : Trie κ α} {ks ls : List κ} :
    walk p t (ks ++ ls) = some s ↔ ∃ r, walk p t ks = some r ∧ walk p r ls = some s := by
  induction ks generalizing t with
  | nil => simp only [List.nil_append, walk_nil, Option.some.injEq, exists_eq_left']
  | cons k ks ih =>
    rw [List.cons_append, walk_cons_eq_some]
    constructor
    · rintro ⟨c, hc, hp, hw⟩
      obtain ⟨r, hr, hs⟩ := ih.mp hw
      exact ⟨r, walk_cons_eq_some.mpr ⟨c, hc, hp, hr⟩, hs⟩
    · rintro ⟨r, hr, hs⟩
      obtain ⟨c, hc, hp, hw⟩ := walk_cons_eq_some.mp hr
      exact ⟨c, hc, hp, ih.mpr ⟨r, hw, hs⟩⟩

theorem walk_mono {p q : α → Bool} (hpq : ∀ a, p a = true → q a = true) {t s : Trie κ α}
    {ks : List κ} (h : walk p t ks = some s) : walk q t ks = some s := by
  induction ks generalizing t with
  | nil => exact h
  | cons k ks ih =>
    obtain ⟨c, hc, hp, hw⟩ := walk_cons_eq_some.mp h
    exact walk_cons_eq_some.mpr ⟨c, hc, hpq _ hp, ih hw⟩

/-- A walk with a condition: the walk without it, and the condition at every node on the way. -/
theorem walk_eq_some_iff {p : α → Bool} {t s : Trie κ α} {ks : List κ} :
    walk p t ks = some s ↔ walk (fun _ => true) t ks = some s ∧
      ∀ ls r, ls <+: ks → ls ≠ [] → walk (fun _ => true) t ls = some r → p r.val = true := by
  induction ks generalizing t with
  | nil =>
    refine ⟨fun h => ⟨h, fun ls r hls hne _ => ?_⟩, fun h => h.1⟩
    exact absurd (List.prefix_nil.mp hls) hne
  | cons k ks ih =>
    constructor
    · intro h
      refine ⟨walk_mono (fun _ _ => rfl) h, fun ls r hls hne hr => ?_⟩
      obtain ⟨c, hc, hp, hw⟩ := walk_cons_eq_some.mp h
      cases ls with
      | nil => exact absurd rfl hne
      | cons j ls =>
        obtain ⟨hj, hls'⟩ := List.cons_prefix_cons.mp hls
        subst hj
        obtain ⟨c', hc', _, hr⟩ := walk_cons_eq_some.mp hr
        have hcc := Option.some.inj (hc.symm.trans hc')
        subst hcc
        cases ls with
        | nil =>
          cases hr
          exact hp
        | cons l ls => exact (ih.mp hw).2 _ r hls' (List.cons_ne_nil _ _) hr
    · rintro ⟨h, hall⟩
      obtain ⟨c, hc, _, hw⟩ := walk_cons_eq_some.mp h
      refine walk_cons_eq_some.mpr ⟨c, hc, ?_, ih.mpr ⟨hw, fun ls r hls hne hr => ?_⟩⟩
      · exact hall [k] c (List.cons_prefix_cons.mpr ⟨rfl, List.nil_prefix⟩) (List.cons_ne_nil _ _)
          (walk_cons_eq_some.mpr ⟨c, hc, rfl, rfl⟩)
      · exact hall (k :: ls) r (List.cons_prefix_cons.mpr ⟨rfl, hls⟩) (List.cons_ne_nil _ _)
          (walk_cons_eq_some.mpr ⟨c, hc, rfl, hr⟩)

theorem All.walk {P : Trie κ α → Prop} {t s : Trie κ α} (h : All P t) {p : α → Bool} {ks : List κ}
    (hw : walk p t ks = some s) : All P s := by
  induction ks generalizing t with
  | nil =>
    cases hw
    exact h
  | cons k ks ih =>
    obtain ⟨c, hc, _, hw⟩ := walk_cons_eq_some.mp hw
    exact ih (h.child (mem_of_get hc)) hw

/-! ## 4. Walks in the pruned tree -/

omit [DecidableEq κ] in
theorem All.prune {P : Trie κ α → Prop} {p : α → Bool} (hP : ∀ t, P t → P (prune p t))
    {t : Trie κ α} (h : All P t) : All P (prune p t) := by
  induction h with
  | @node a cs h hcs ih =>
    refine .node (hP _ h) fun c hc => ?_
    rw [pruneChildren_eq] at hc
    obtain ⟨c', hc', rfl⟩ := List.mem_map.mp hc
    exact ih c' (List.mem_of_mem_filter hc')

theorem get_pruneChildren {p : α → Bool} {cs : List (κ × Trie κ α)} (hcs : (keys cs).Nodup)
    (k : κ) :
    get (pruneChildren p cs) k = ((get cs k).filter fun t => p t.val).map (prune p) := by
  induction cs with
  | nil => rfl
  | cons c cs ih =>
    obtain ⟨j, t⟩ := c
    obtain ⟨hnotin, hcs⟩ := List.nodup_cons.mp hcs
    rw [pruneChildren]
    by_cases hj : j = k
    · subst hj
      rw [get_cons_self, Option.filter_some]
      by_cases hp : p t.val = true
      · rw [if_pos hp, if_pos hp, get_cons_self, Option.map_some]
      · rw [if_neg hp, if_neg hp, ih hcs, get_eq_none_iff.mpr hnotin]
        rfl
    · rw [get_cons_ne hj, ← ih hcs]
      split
      · exact get_cons_ne hj _ _
      · rfl

/-- **A walk in the pruned tree** is a walk with the condition in the tree. -/
theorem walk_prune {p : α → Bool} {t : Trie κ α} (ht : All UniqueNames t) (ks : List κ) :
    walk (fun _ => true) (prune p t) ks = (walk p t ks).map (prune p) := by
  induction ks generalizing t with
  | nil => rfl
  | cons k ks ih =>
    rw [walk, walk, children_prune, get_pruneChildren ht.root]
    cases hc : get t.children k with
    | none => rfl
    | some c =>
      rw [Option.filter_some]
      by_cases hp : p c.val = true
      · simp only [hp, if_true, Option.map_some]
        exact ih (ht.child (mem_of_get hc))
      · simp only [hp, if_false, Option.map_none, Bool.false_eq_true]

/-- **`gather` finds what a walk finds.** -/
theorem mem_gather {f : α → List β} {t : Trie κ α} (ht : All UniqueNames t) {ks : List κ} {b : β} :
    (ks, b) ∈ gather f t ↔ ∃ s, walk (fun _ => true) t ks = some s ∧ b ∈ f s.val := by
  induction ks generalizing t with
  | nil =>
    rw [gather_eq, List.mem_append, mem_gatherChildren]
    simp only [List.mem_map, Prod.mk.injEq, true_and, exists_eq_right, walk_nil,
      Option.some.injEq, exists_eq_left', or_iff_left_iff_imp]
    rintro ⟨c, _, y, _, hnil, _⟩
    cases hnil
  | cons k ks ih =>
    rw [gather_eq, List.mem_append, mem_gatherChildren]
    constructor
    · rintro (hroot | ⟨c, hc, y, hy, heq⟩)
      · obtain ⟨b', _, heq⟩ := List.mem_map.mp hroot
        cases heq
      · obtain ⟨y1, y2⟩ := y
        cases heq
        obtain ⟨s, hs, hb⟩ := (ih (ht.child hc)).mp hy
        exact ⟨s, walk_cons_eq_some.mpr ⟨c.2, get_of_mem ht.root hc, rfl, hs⟩, hb⟩
    · rintro ⟨s, hw, hb⟩
      obtain ⟨c, hc, _, hw⟩ := walk_cons_eq_some.mp hw
      have hmem := mem_of_get hc
      exact .inr ⟨(k, c), hmem, (ks, b), (ih (ht.child hmem)).mpr ⟨s, hw, hb⟩, rfl⟩

omit [DecidableEq κ] in
/-- What `gather` finds is told apart by the way to it, if it is so in every node. -/
theorem nodup_gather {f : α → List β} {g : β → κ} {t : Trie κ α} (ht : All UniqueNames t)
    (hf : All (fun s => ((f s.val).map g).Nodup) t) :
    ((gather f t).map fun x => (x.1, g x.2)).Nodup := by
  induction t using induction with
  | h a cs ih =>
    have hchildren : ∀ cs' : List (κ × Trie κ α), cs'.Sublist cs →
        ((gatherChildren f cs').map fun x => (x.1, g x.2)).Nodup := by
      intro cs'
      induction cs' with
      | nil => exact fun _ => List.nodup_nil
      | cons c cs' ihcs =>
        obtain ⟨k, s⟩ := c
        intro hsub
        have hc : (k, s) ∈ cs := hsub.subset List.mem_cons_self
        have hkeys : (keys ((k, s) :: cs')).Nodup := ht.root.sublist (hsub.map _)
        rw [gatherChildren, List.map_append, List.nodup_append, List.map_map]
        refine ⟨?_, ihcs ((List.sublist_cons_self _ _).trans hsub), ?_⟩
        · have hs := ih (k, s) hc (ht.child hc) (hf.child hc)
          have hinj : Function.Injective fun x : List κ × κ => (k :: x.1, x.2) := fun x y h => by
            simpa only [Prod.mk.injEq, List.cons.injEq, true_and, Prod.ext_iff] using h
          have hmap := hs.map hinj
          rwa [List.map_map] at hmap
        · -- the names after different children differ at once
          rintro x hx y hy rfl
          obtain ⟨u, _, hu⟩ := List.mem_map.mp hx
          obtain ⟨v, hv, hv'⟩ := List.mem_map.mp hy
          obtain ⟨c', hc', w, _, rfl⟩ := mem_gatherChildren.mp hv
          rw [← hu] at hv'
          have hk : c'.1 = k := by
            simpa using congrArg (fun z : List κ × κ => z.1.head?) hv'
          exact (List.nodup_cons.mp hkeys).1 (hk ▸ List.mem_map.mpr ⟨c', hc', rfl⟩)
    rw [gather, List.map_append, List.nodup_append, List.map_map]
    refine ⟨?_, hchildren cs (List.Sublist.refl cs), ?_⟩
    · have hroot := hf.root
      have hinj : Function.Injective fun k : κ => (([] : List κ), k) := fun x y h =>
        (Prod.mk.inj h).2
      have hmap := hroot.map hinj
      rwa [List.map_map] at hmap
    · rintro x hx y hy rfl
      obtain ⟨u, _, hu⟩ := List.mem_map.mp hx
      obtain ⟨v, hv, hv'⟩ := List.mem_map.mp hy
      obtain ⟨c, _, w, _, rfl⟩ := mem_gatherChildren.mp hv
      rw [← hu] at hv'
      cases (Prod.mk.inj hv').1

end Trie
