/-
# Does the tree stay balanced?

Adding a key keeps the tree balanced: the subtree that has grown leans to one side, and a node that
is out of balance is put right by a rotation.

Deleting a key may not.  A node is taken out below the node of the key, but `rebalance` begins
above the parent of the node of the key, and a rotation is left out when the higher child is
itself balanced.  `survives` goes up from the place where a node is taken out, as long as the
subtree is lower than before: an ancestor that leans away from the place gets out of balance, and
is put right only if the loop comes there and its higher child leans to a side.  The tree stays
balanced exactly if this does not fail (`balanced_deleteTree_iff`).
-/
import HdfStream.Lib.HeightBalanced
import HdfStream.Maps.AvlRuns

namespace HdfStream.Maps

open Cells Zipper LinkedTree

/-! ## 1. One rotation -/

section Trees

variable {α : Type*}

/-- How far a tree leans to a side. -/
def leaning (d : Dir) (t : BinaryTree α) : Int :=
  match d with
  | .left => -tilt t
  | .right => tilt t

theorem leaning_join (d : Dir) (a : α) (t u : BinaryTree α) :
    leaning d (join d a t u) = (t.height : Int) - u.height := by
  cases d with
  | left => exact Int.neg_sub _ _
  | right => rfl

theorem leaning_eq_zero (d : Dir) (t : BinaryTree α) : leaning d t = 0 ↔ tilt t = 0 := by
  cases d with
  | left => exact Int.neg_eq_zero
  | right => exact Iff.rfl

/-- A node that is in balance is left as it is. -/
theorem balanceAt_of_close {d : Dir} {a : α} {t u : BinaryTree α} (h : Close t.height u.height) :
    balanceAt (join d a t u) = join d a t u := by
  obtain ⟨htu, hut⟩ := h
  have hlean := leaning_join d a t u
  cases d with
  | left =>
    rw [leaning] at hlean
    rw [join] at hlean ⊢
    rw [balanceAt, if_neg (by omega), if_neg (by omega)]
  | right =>
    rw [leaning] at hlean
    rw [join] at hlean ⊢
    rw [balanceAt, if_neg (by omega), if_neg (by omega)]

/-- The subtree on a side is too high. -/
theorem balanceAt_heavy {d : Dir} {a : α} {t u : BinaryTree α} (h : t.height = u.height + 2) :
    balanceAt (join d a t u) =
      if leaning d t = 1 then Zipper.rotate d.opp (join d a t u)
      else if leaning d t = -1 then Zipper.rotate d.opp (join d a (Zipper.rotate d t) u)
      else join d a t u := by
  have hlean := leaning_join d a t u
  cases d with
  | left =>
    rw [leaning] at hlean ⊢
    rw [join] at hlean ⊢
    rw [balanceAt, if_neg (by omega), if_pos (by omega)]
    refine ite_congr (propext ⟨fun hl => by omega, fun hl => by omega⟩) (fun _ => rfl) fun _ => ?_
    exact ite_congr (propext ⟨fun hl => by omega, fun hl => by omega⟩) (fun _ => rfl) fun _ => rfl
  | right =>
    rw [leaning] at hlean ⊢
    rw [join] at hlean ⊢
    rw [balanceAt, if_pos (by omega)]
    rfl

/-- It leans outward: a single rotation. -/
theorem balanceAt_outward {d : Dir} {a b : α} {x y u : BinaryTree α}
    (h : (join d b x y).height = u.height + 2) (hxy : x.height = y.height + 1) :
    balanceAt (join d a (join d b x y) u) = join d b x (join d a y u) := by
  rw [balanceAt_heavy h, if_pos (by rw [leaning_join]; omega)]
  cases d <;> rfl

/-- It leans inward: a double rotation. -/
theorem balanceAt_inward {d : Dir} {a b c : α} {x y z u : BinaryTree α}
    (h : (join d b x (join d c y z)).height = u.height + 2)
    (hxy : (join d c y z).height = x.height + 1) :
    balanceAt (join d a (join d b x (join d c y z)) u) =
      join d c (join d b x y) (join d a z u) := by
  rw [balanceAt_heavy h, if_neg (by rw [leaning_join]; omega),
    if_pos (by rw [leaning_join]; omega)]
  cases d <;> rfl

/-- It leans to no side: the code does nothing. -/
theorem balanceAt_even {d : Dir} {a : α} {t u : BinaryTree α} (h : t.height = u.height + 2)
    (heven : tilt t = 0) : balanceAt (join d a t u) = join d a t u := by
  have hlean := (leaning_eq_zero d t).mpr heven
  rw [balanceAt_heavy h, hlean, if_neg (by omega), if_neg (by omega)]

/-- **A rotation puts a node right** whose higher child leans to a side, and the node gets the
height that the child has. -/
theorem balanceAt_restores {d : Dir} {a : α} {t u : BinaryTree α} (ht : Balanced t)
    (hu : Balanced u) (h : t.height = u.height + 2) (hlean : tilt t ≠ 0) :
    Balanced (balanceAt (join d a t u)) ∧ (balanceAt (join d a t u)).height = t.height := by
  rcases eq_nil_or_join d t with rfl | ⟨b, x, y, rfl⟩
  · exact absurd rfl hlean
  · obtain ⟨⟨hxy, hyx⟩, hx, hy⟩ := (balanced_join d b x y).mp ht
    have hne : x.height ≠ y.height := by
      intro heq
      have hzero := leaning_join d b x y
      rw [heq, Int.sub_self, leaning_eq_zero] at hzero
      exact hlean hzero
    have hheight := height_join d b x y
    by_cases houter : x.height = y.height + 1
    · rw [balanceAt_outward h houter, balanced_join, balanced_join, height_join d b x,
        height_join d a y u, Close, Close]
      refine ⟨⟨?_, hx, ?_, hy, hu⟩, ?_⟩ <;> omega
    · have hinner : y.height = x.height + 1 := by omega
      rcases eq_nil_or_join d y with rfl | ⟨c, y, z, rfl⟩
      · rw [BinaryTree.height] at hinner
        omega
      · obtain ⟨⟨hyz, hzy⟩, hy, hz⟩ := (balanced_join d c y z).mp hy
        have hheight' := height_join d c y z
        rw [balanceAt_inward h hinner, balanced_join, balanced_join, balanced_join,
          height_join d c (join d b x y), height_join d b x y, height_join d a z u, Close, Close,
          Close]
        refine ⟨⟨?_, ⟨?_, hx, hy⟩, ?_, hz, hu⟩, ?_⟩ <;> omega

/-! ## 2. Rebalancing what is balanced -/

/-- If the height at a place is as the ancestors expect it, nothing is changed. -/
theorem rebuild_of_balanced {t : BinaryTree α} {path : List (Frame α)}
    (h : BalancedAround t.height path) : rebuild t path = plug t path := by
  induction path generalizing t with
  | nil => rfl
  | cons f path ih =>
    obtain ⟨hclose, -, hpath⟩ := h
    have hbalance : balanceAt (f.fill t) = f.fill t := balanceAt_of_close hclose
    rw [rebuild, hbalance, plug]
    refine ih ?_
    rw [height_fill]
    exact hpath

/-! ## 3. Adding -/

/-- **A subtree has grown by one**, and it leans to a side or is a leaf. -/
theorem balanced_rebuild_grown {t : BinaryTree α} {path : List (Frame α)} {n : Nat}
    (ht : Balanced t) (hheight : t.height = n + 1) (hlean : tilt t ≠ 0 ∨ n = 0)
    (hpath : BalancedAround n path) : Balanced (rebuild t path) := by
  induction path generalizing t n with
  | nil => exact ht
  | cons f path ih =>
    obtain ⟨⟨hns, hsn⟩, hs, hpath⟩ := hpath
    rw [rebuild]
    by_cases hup : n = f.sibling.height + 1
    · -- the node gets out of balance, and a rotation restores its height
      have hlean' : tilt t ≠ 0 := hlean.resolve_right (by omega)
      obtain ⟨hbal, hh⟩ := balanceAt_restores (d := f.dir) (a := f.value) ht hs (by omega) hlean'
      have hpath' : BalancedAround (balanceAt (f.fill t)).height path := by
        rw [Frame.fill, hh, hheight]
        rwa [Nat.max_eq_left (by omega)] at hpath
      rw [rebuild_of_balanced hpath', balanced_plug]
      exact ⟨hbal, hpath'⟩
    · have hclose : Close t.height f.sibling.height := ⟨by omega, by omega⟩
      have hbal : Balanced (f.fill t) := (balanced_join _ _ _ _).mpr ⟨hclose, ht, hs⟩
      have hsame : balanceAt (f.fill t) = f.fill t := balanceAt_of_close hclose
      have hfill := height_fill f t
      rw [hsame]
      by_cases heven : n = f.sibling.height
      · -- the node leans to the subtree, and has grown too
        refine ih hbal (n := n + 1) (by omega) (Or.inl ?_) (by rwa [← heven, Nat.max_self] at hpath)
        have hleaning := leaning_join f.dir f.value t f.sibling
        rw [← Frame.fill] at hleaning
        intro hzero
        rw [(leaning_eq_zero f.dir _).mpr hzero] at hleaning
        omega
      · -- the node is even now, and as high as before
        have hpath' : BalancedAround (f.fill t).height path := by
          have hsame : (f.fill t).height = max n f.sibling.height + 1 := by omega
          rwa [hsame]
        rw [rebuild_of_balanced hpath', balanced_plug]
        exact ⟨hbal, hpath'⟩

/-! ## 4. Deleting -/

/-- Going up from a subtree that is one lower than before, of height `n` now, with `skip` ancestors
that the loop does not come to. -/
def survives : Nat → Nat → List (Frame α) → Bool
  | _, _, [] => true
  | skip, n, f :: path =>
    -- an ancestor that was even is as high as before
    if f.sibling.height = n + 1 then true
    -- one that leaned to the place is even now, and lower
    else if f.sibling.height = n then survives (skip - 1) (n + 1) path
    -- one that leaned away needs a rotation
    else decide (skip = 0) && (decide (tilt f.sibling ≠ 0) && survives 0 (n + 2) path)

/-- An unbalanced subtree of the old height stays as it is. -/
theorem not_balanced_rebuild {t : BinaryTree α} {path : List (Frame α)} (ht : ¬ Balanced t)
    (hpath : BalancedAround t.height path) : ¬ Balanced (rebuild t path) := by
  rw [rebuild_of_balanced hpath, balanced_plug]
  exact fun h => ht h.1

/-- An ancestor that leaned away from a subtree that has shrunk. -/
theorem not_balanced_fill {t : BinaryTree α} {f : Frame α}
    (h : f.sibling.height = t.height + 2) : ¬ Balanced (f.fill t) := by
  rw [Frame.fill, balanced_join]
  rintro ⟨⟨-, hle⟩, -⟩
  omega

/-- **A subtree has shrunk by one**, and the loop goes up from there. -/
theorem balanced_rebuild_shrunk {t : BinaryTree α} {path : List (Frame α)} (ht : Balanced t)
    (hpath : BalancedAround (t.height + 1) path) :
    Balanced (rebuild t path) ↔ survives 0 t.height path = true := by
  induction path generalizing t with
  | nil => exact ⟨fun _ => rfl, fun _ => ht⟩
  | cons f path ih =>
    obtain ⟨⟨hns, hsn⟩, hs, hpath⟩ := hpath
    have hfill := height_fill f t
    rw [rebuild, survives]
    by_cases heven : f.sibling.height = t.height + 1
    · -- the ancestor was even
      have hclose : Close t.height f.sibling.height := ⟨by omega, by omega⟩
      have hbal : Balanced (f.fill t) := (balanced_join _ _ _ _).mpr ⟨hclose, ht, hs⟩
      have hpath' : BalancedAround (f.fill t).height path := by
        have hsame : (f.fill t).height = max (t.height + 1) f.sibling.height + 1 := by omega
        rwa [hsame]
      have hid : balanceAt (f.fill t) = f.fill t := balanceAt_of_close hclose
      rw [if_pos heven, hid, rebuild_of_balanced hpath', balanced_plug]
      exact ⟨fun _ => rfl, fun _ => ⟨hbal, hpath'⟩⟩
    · rw [if_neg heven]
      by_cases hdown : f.sibling.height = t.height
      · -- it leaned to the place
        have hclose : Close t.height f.sibling.height := ⟨by omega, by omega⟩
        have hbal : Balanced (f.fill t) := (balanced_join _ _ _ _).mpr ⟨hclose, ht, hs⟩
        have hid : balanceAt (f.fill t) = f.fill t := balanceAt_of_close hclose
        have hheight : (f.fill t).height = t.height + 1 := by omega
        rw [if_pos hdown, hid, ← hheight]
        refine ih hbal ?_
        rw [hheight]
        rwa [Nat.max_eq_left (by omega)] at hpath
      · -- it leaned away, and needs a rotation
        have haway : f.sibling.height = t.height + 2 := by omega
        rw [if_neg hdown]
        rw [Nat.max_eq_right (by omega), haway] at hpath
        by_cases hlean : tilt f.sibling = 0
        · have hid : balanceAt (f.fill t) = f.fill t := by
            rw [Frame.fill, ← join_opp]
            exact balanceAt_even haway hlean
          rw [hid, hlean]
          refine ⟨fun hbal => absurd hbal ?_, fun h => by simp at h⟩
          refine not_balanced_rebuild (not_balanced_fill haway) ?_
          have hsame : (f.fill t).height = t.height + 2 + 1 := by omega
          rwa [hsame]
        · have hrest := balanceAt_restores (d := f.dir.opp) (a := f.value) hs ht haway hlean
          rw [join_opp, ← Frame.fill] at hrest
          obtain ⟨hbal, hheight⟩ := hrest
          have hih := ih hbal (by rw [hheight, haway]; exact hpath)
          rw [hih, hheight, haway]
          simp [hlean]

/-- **The same, with ancestors that the loop does not come to.** -/
theorem balanced_rebuild_skipped {t : BinaryTree α} {path path' : List (Frame α)}
    (ht : Balanced t) (hpath : BalancedAround (t.height + 1) (path ++ path')) :
    Balanced (rebuild (plug t path) path') ↔
      survives path.length t.height (path ++ path') = true := by
  induction path generalizing t with
  | nil => exact balanced_rebuild_shrunk ht hpath
  | cons f path ih =>
    obtain ⟨⟨hns, hsn⟩, hs, hpath⟩ := hpath
    have hfill := height_fill f t
    rw [plug, List.cons_append, survives]
    by_cases heven : f.sibling.height = t.height + 1
    · have hclose : Close t.height f.sibling.height := ⟨by omega, by omega⟩
      have hbal : Balanced (f.fill t) := (balanced_join _ _ _ _).mpr ⟨hclose, ht, hs⟩
      have hpath₁ : BalancedAround (f.fill t).height (path ++ path') := by
        have hsame : (f.fill t).height = max (t.height + 1) f.sibling.height + 1 := by omega
        rwa [hsame]
      have hpath₂ := (balancedAround_append _ path path').mp hpath₁
      rw [← height_plug] at hpath₂
      rw [if_pos heven, rebuild_of_balanced hpath₂.2, balanced_plug, balanced_plug]
      exact ⟨fun _ => rfl, fun _ => ⟨⟨hbal, hpath₂.1⟩, hpath₂.2⟩⟩
    · rw [if_neg heven]
      by_cases hdown : f.sibling.height = t.height
      · have hclose : Close t.height f.sibling.height := ⟨by omega, by omega⟩
        have hbal : Balanced (f.fill t) := (balanced_join _ _ _ _).mpr ⟨hclose, ht, hs⟩
        have hheight : (f.fill t).height = t.height + 1 := by omega
        rw [if_pos hdown, ← hheight]
        refine ih hbal ?_
        rw [hheight]
        rwa [Nat.max_eq_left (by omega)] at hpath
      · -- it leaned away, and stays out of balance
        have haway : f.sibling.height = t.height + 2 := by omega
        rw [if_neg hdown]
        refine ⟨fun hbal => absurd hbal ?_, fun h => by simp at h⟩
        have hpath₁ : BalancedAround (f.fill t).height (path ++ path') := by
          have hsame : (f.fill t).height = max (t.height + 1) f.sibling.height + 1 := by omega
          rwa [hsame]
        have hpath₂ := (balancedAround_append _ path path').mp hpath₁
        rw [← height_plug] at hpath₂
        refine not_balanced_rebuild ?_ hpath₂.2
        rw [balanced_plug]
        exact fun h => not_balanced_fill haway h.1

end Trees

/-! ## 5. The updates -/

section Updates

variable {π κ ν : Type} {cmpfunc : κ → κ → Int} {k : κ} {t l r : BinaryTree (π × κ × ν)}
  {e : π × κ × ν} {path : List (Frame (π × κ × ν))}

/-- The place where a node is taken out is one lower than before. -/
theorem balanced_removal (h : Balanced (plug (.node e l r) path)) :
    Balanced (removal (.node e l r)).1 ∧
      BalancedAround ((removal (.node e l r)).1.height + 1)
        ((removal (.node e l r)).2 ++ path) := by
  rcases leaf_or_join e l r with ⟨rfl, rfl⟩ | ⟨d, c, s, hjoin, hc, hd⟩
  · exact ⟨trivial, ((balanced_plug _ _).mp h).2⟩
  · obtain ⟨m, u, q, hrem, -, hplug, -⟩ := removal_spec (e := e) hc hd
    have hold : plug (join d e c s) path = plug (join d.opp m .nil u) (q ++ ⟨d, e, s⟩ :: path) := by
      rw [plug_append, hplug]
      rfl
    rw [hjoin, hold, balanced_plug, balanced_join, height_join, BinaryTree.height, Nat.zero_max,
      balancedAround_append] at h
    rw [hjoin, hrem, List.append_assoc, List.singleton_append, balancedAround_append]
    exact ⟨h.1.2.2, h.2⟩

/-- **When a deletion keeps the balance.**  A condition on the tree before: the place where a node
is taken out, and the way up from there. -/
def deleteSurvives (cmpfunc : κ → κ → Int) (k : κ) (t : BinaryTree (π × κ × ν)) : Bool :=
  match locate (against cmpfunc k) t [] with
  | (.nil, _) => true
  | (.node e l r, path) =>
    let place := removal (.node e l r)
    survives (place.2 ++ path.take 1).length place.1.height (place.2 ++ path)

theorem deleteAt_eq (path : List (Frame (π × κ × ν))) :
    deleteAt t path =
      rebuild (plug (removal t).1 ((removal t).2 ++ path.take 1)) (path.drop 1) := by
  cases path with
  | nil => rw [List.take_nil, List.append_nil]; rfl
  | cons f path =>
    rw [List.take_succ_cons, List.take_zero, plug_append]
    rfl

/-- **Deleting** a key that is there. -/
theorem balanced_deleteTree_iff (h : Balanced t)
    (hfound : (locate (against cmpfunc k) t []).1 ≠ .nil) :
    Balanced (deleteTree cmpfunc k t) ↔ deleteSurvives cmpfunc k t = true := by
  have hplug := plug_locate (against cmpfunc k) t []
  rw [deleteTree, deleteSurvives]
  cases hloc : locate (against cmpfunc k) t [] with
  | mk n path =>
    rw [hloc] at hplug hfound
    cases n with
    | nil => exact absurd rfl hfound
    | node e l r =>
      have hbal : Balanced (plug (.node e l r) path) := by
        rw [show plug (.node e l r) path = t from hplug]
        exact h
      obtain ⟨hu, hq⟩ := balanced_removal hbal
      dsimp only
      rw [deleteAt_eq, balanced_rebuild_skipped hu, List.append_assoc, List.take_append_drop]
      rw [List.append_assoc, List.take_append_drop]
      exact hq

/-- **Adding** a key that is not there. -/
theorem balanced_addTree {p : π} {v : ν} (h : Balanced t)
    (hnew : (locate (against cmpfunc k) t []).1 = .nil) :
    Balanced (addTree cmpfunc p k v t) := by
  have hplug := plug_locate (against cmpfunc k) t []
  rw [hnew] at hplug
  have hbal : Balanced (plug .nil (locate (against cmpfunc k) t []).2) := by
    rw [hplug]
    exact h
  refine balanced_rebuild_grown (n := 0) ?_ rfl (Or.inr rfl) ((balanced_plug _ _).mp hbal).2
  exact ⟨⟨Nat.zero_le _, Nat.zero_le _⟩, trivial, trivial⟩

end Updates

/-! ## 6. Runs -/

section Runs

variable {π κ ν : Type} {cmpfunc : κ → κ → Int} {passes : Nat}

/-- The tree in the heap is balanced. -/
def TreeBalanced (tree : AvlTree π κ ν) : Prop :=
  ∃ t K, Represents tree t K ∧ Balanced t

/-- The call keeps the tree balanced: it adds a key, or the deletion survives. -/
def KeepsBalance (cmpfunc : κ → κ → Int) (tree : AvlTree π κ ν) : Call π κ ν → Prop
  | .addNode .. => True
  | .deleteNode key => ∀ t K, Represents tree t K → deleteSurvives cmpfunc key t = true

theorem treeBalanced_iff {tree : AvlTree π κ ν} {t : BinaryTree (π × κ × ν)} {K : List (π × Unit)}
    (h : Represents tree t K) : TreeBalanced tree ↔ Balanced t := by
  constructor
  · rintro ⟨t', K', h', hbal⟩
    rw [h.unique h']
    exact hbal
  · exact fun hbal => ⟨t, K, h, hbal⟩

variable [DecidableEq π]

/-- One call, from a balanced tree. -/
theorem exec_balanced_iff {tree tree' : AvlTree π κ ν} {t : BinaryTree (π × κ × ν)}
    {K : List (π × Unit)} {c : Call π κ ν} (h : Represents tree t K)
    (hpasses : t.numNodes + 1 < passes) (hexec : exec cmpfunc passes tree c = some tree')
    (hbal : TreeBalanced tree) : TreeBalanced tree' ↔ KeepsBalance cmpfunc tree c := by
  obtain ⟨K', h'⟩ := exec_represents h hpasses hexec
  rw [treeBalanced_iff h] at hbal
  rw [treeBalanced_iff h']
  cases c with
  | addNode p k v =>
    rw [Call.onTree, KeepsBalance, iff_true]
    cases hnew : (locate (against cmpfunc k) t []).1 with
    | nil => exact balanced_addTree hbal hnew
    | node e l r => exact hbal
  | deleteNode k =>
    have hkeeps : KeepsBalance cmpfunc tree (.deleteNode k : Call π κ ν) ↔
        deleteSurvives cmpfunc k t = true :=
      ⟨fun hall => hall t K h, fun hs t' K' h' => by rwa [← h.unique h']⟩
    rw [hkeeps, Call.onTree]
    cases hfound : (locate (against cmpfunc k) t []).1 with
    | nil =>
      refine ⟨fun _ => ?_, fun _ => hbal⟩
      rw [deleteSurvives]
      split
      · rfl
      · rename_i hloc
        rw [hloc] at hfound
        cases hfound
    | node e l r =>
      exact balanced_deleteTree_iff hbal (by rw [hfound]; exact fun hnil => by cases hnil)

/-- **When the tree stays balanced.**  In every run from the empty tree, the tree is balanced
throughout if and only if every call keeps it balanced: every deletion survives. -/
theorem treeBalanced_throughout_iff {calls : List (Call π κ ν)} {tree : AvlTree π κ ν}
    (hrun : (avlMachine π κ ν cmpfunc passes).run calls = some tree)
    (hpasses : calls.length + 1 < passes) :
    (avlMachine π κ ν cmpfunc passes).Throughout TreeBalanced calls ↔
      (avlMachine π κ ν cmpfunc passes).StepsMeet (KeepsBalance cmpfunc) calls := by
  refine Machine.throughout_iff_stepsMeet hrun ⟨.nil, [], represents_new, trivial⟩ ?_
  intro calls₁ c calls₂ tree₁ tree₂ hcalls hrun₁ hexec hbal
  rw [hcalls, List.length_append, List.length_cons] at hpasses
  obtain ⟨hsize, K, h⟩ := run_represents calls₁ tree₁ hrun₁ (by omega)
  exact exec_balanced_iff h (by omega) hexec hbal

/-- The keys 2, 1, 3 and 4 are added, and 4 is deleted again. -/
def deleteHigher : List (Call Nat Int Unit) :=
  [.addNode 0 2 (), .addNode 1 1 (), .addNode 2 3 (), .addNode 3 4 (), .deleteNode 4]

theorem treeBalanced_throughout_iff_deleteHigher :
    ∃ tree, (avlMachine Nat Int Unit minus 7).run deleteHigher = some tree ∧
      ((avlMachine Nat Int Unit minus 7).Throughout TreeBalanced deleteHigher ↔
        (avlMachine Nat Int Unit minus 7).StepsMeet (KeepsBalance minus) deleteHigher) := by
  obtain ⟨tree, hrun⟩ := Option.isSome_iff_exists.mp
    (by decide : ((avlMachine Nat Int Unit minus 7).run deleteHigher).isSome)
  exact ⟨tree, hrun, treeBalanced_throughout_iff hrun (by decide)⟩

/-- The keys 2, 1, 3 and 4 are added, and 1 is deleted, a child of the root: nothing is rebalanced,
and the root has no left subtree and a right one of height 2. -/
def deleteLower : List (Call Nat Int Unit) :=
  [.addNode 0 2 (), .addNode 1 1 (), .addNode 2 3 (), .addNode 3 4 (), .deleteNode 1]

theorem deleteLower_not_treeBalanced :
    ∃ tree, (avlMachine Nat Int Unit minus 7).run deleteLower = some tree ∧
      ¬ TreeBalanced tree := by
  obtain ⟨tree, hrun⟩ := Option.isSome_iff_exists.mp
    (by decide : ((avlMachine Nat Int Unit minus 7).run deleteLower).isSome)
  obtain ⟨-, K, h⟩ := run_represents deleteLower tree hrun (by decide)
  refine ⟨tree, hrun, ?_⟩
  rw [treeBalanced_iff h]
  decide

end Runs

end HdfStream.Maps
