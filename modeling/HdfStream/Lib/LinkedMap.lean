/-
# Maps that remember the order of insertion

A map as the list of its entries, oldest first.  `put` replaces the value of a key that is
there and appends a new key at the end.
-/
import Mathlib.Data.List.Nodup

namespace LinkedMap

variable {κ ν : Type*} [DecidableEq κ]

/-- The keys, oldest first. -/
def keys (m : List (κ × ν)) : List κ := m.map Prod.fst

/-- The value of a key. -/
def get (m : List (κ × ν)) (k : κ) : Option ν := m.lookup k

/-- Sets the value of a key. -/
def put : List (κ × ν) → κ → ν → List (κ × ν)
  | [], k, v => [(k, v)]
  | (k', v') :: m, k, v => if k' = k then (k', v) :: m else (k', v') :: put m k v

/-! ## 1. Reading -/

theorem get_cons_self (k : κ) (v : ν) (m : List (κ × ν)) : get ((k, v) :: m) k = some v :=
  List.lookup_cons_self

theorem get_cons_ne {k k' : κ} (h : k' ≠ k) (v : ν) (m : List (κ × ν)) :
    get ((k', v) :: m) k = get m k := by
  rw [get, List.lookup_cons, beq_false_of_ne (Ne.symm h)]
  rfl

theorem mem_of_get {m : List (κ × ν)} {k : κ} {v : ν} (h : get m k = some v) :
    (k, v) ∈ m := by
  obtain ⟨l₁, l₂, rfl, _⟩ := List.lookup_eq_some_iff.mp h
  exact List.mem_append_right _ List.mem_cons_self

theorem get_of_mem {m : List (κ × ν)} (hm : (keys m).Nodup) {k : κ} {v : ν}
    (h : (k, v) ∈ m) : get m k = some v := by
  induction m with
  | nil => cases h
  | cons e m ih =>
    obtain ⟨k', v'⟩ := e
    obtain ⟨hnotin, hm⟩ := List.nodup_cons.mp hm
    rcases List.mem_cons.mp h with heq | hmem
    · cases heq
      exact get_cons_self k v m
    · have hkey : k ∈ keys m := List.mem_map.mpr ⟨(k, v), hmem, rfl⟩
      have hk : k' ≠ k := fun hk => hnotin (hk ▸ hkey)
      rw [get_cons_ne hk]
      exact ih hm hmem

/-- In a map an entry is what its key is mapped to. -/
theorem mem_iff_get {m : List (κ × ν)} (hm : (keys m).Nodup) {k : κ} {v : ν} :
    (k, v) ∈ m ↔ get m k = some v :=
  ⟨get_of_mem hm, mem_of_get⟩

theorem get_eq_none_iff {m : List (κ × ν)} {k : κ} : get m k = none ↔ k ∉ keys m := by
  rw [get, List.lookup_eq_none_iff, keys, List.mem_map]
  constructor
  · rintro h ⟨e, he, rfl⟩
    exact absurd rfl (bne_iff_ne.mp (h e he))
  · intro h e he
    exact bne_iff_ne.mpr fun heq => h ⟨e, he, heq.symm⟩

theorem get_isSome_iff {m : List (κ × ν)} {k : κ} : (get m k).isSome ↔ k ∈ keys m := by
  rw [Option.isSome_iff_ne_none, ne_eq, get_eq_none_iff, not_not]

/-! ## 2. Writing -/

theorem get_put_self (m : List (κ × ν)) (k : κ) (v : ν) : get (put m k v) k = some v := by
  induction m with
  | nil => exact get_cons_self k v []
  | cons e m ih =>
    obtain ⟨k', v'⟩ := e
    by_cases hk : k' = k
    · subst hk
      rw [put, if_pos rfl, get_cons_self]
    · rw [put, if_neg hk, get_cons_ne hk, ih]

theorem get_put_ne (m : List (κ × ν)) {k j : κ} (h : k ≠ j) (v : ν) :
    get (put m k v) j = get m j := by
  induction m with
  | nil => exact get_cons_ne h v []
  | cons e m ih =>
    obtain ⟨k', v'⟩ := e
    by_cases hk : k' = k
    · subst hk
      rw [put, if_pos rfl, get_cons_ne h, get_cons_ne h]
    · rw [put, if_neg hk]
      by_cases hj : k' = j
      · subst hj
        rw [get_cons_self, get_cons_self]
      · rw [get_cons_ne hj, get_cons_ne hj, ih]

theorem put_of_notMem {m : List (κ × ν)} {k : κ} (h : k ∉ keys m) (v : ν) :
    put m k v = m ++ [(k, v)] := by
  induction m with
  | nil => rfl
  | cons e m ih =>
    obtain ⟨k', v'⟩ := e
    rw [keys, List.map_cons, List.mem_cons, not_or] at h
    rw [put, if_neg (Ne.symm h.1), ih h.2]
    rfl

theorem keys_put (m : List (κ × ν)) (k : κ) (v : ν) :
    keys (put m k v) = if k ∈ keys m then keys m else keys m ++ [k] := by
  induction m with
  | nil => rfl
  | cons e m ih =>
    obtain ⟨k', v'⟩ := e
    by_cases hk : k' = k
    · subst hk
      have hmem : k' ∈ keys ((k', v') :: m) := List.mem_cons_self
      rw [put, if_pos rfl, if_pos hmem]
      rfl
    · rw [put, if_neg hk]
      have hcons : keys ((k', v') :: put m k v) = k' :: keys (put m k v) := rfl
      have hcons' : keys ((k', v') :: m) = k' :: keys m := rfl
      rw [hcons, hcons', ih]
      simp only [List.mem_cons, Ne.symm hk, false_or]
      split <;> rfl

theorem mem_keys_put {m : List (κ × ν)} {k j : κ} {v : ν} :
    j ∈ keys (put m k v) ↔ j = k ∨ j ∈ keys m := by
  rw [keys_put]
  split
  · rename_i h
    exact ⟨.inr, fun hj => hj.elim (fun hjk => hjk ▸ h) id⟩
  · rw [List.mem_append, List.mem_singleton, or_comm]

theorem nodup_put {m : List (κ × ν)} (hm : (keys m).Nodup) (k : κ) (v : ν) :
    (keys (put m k v)).Nodup := by
  rw [keys_put]
  split
  · exact hm
  · rename_i h
    rw [← List.concat_eq_append]
    exact hm.concat h

/-- An entry after `put` is the new one or an old one. -/
theorem mem_put {m : List (κ × ν)} {k : κ} {v : ν} {e : κ × ν} (h : e ∈ put m k v) :
    e = (k, v) ∨ e ∈ m := by
  induction m with
  | nil => exact .inl (List.mem_singleton.mp h)
  | cons e' m ih =>
    obtain ⟨k', v'⟩ := e'
    by_cases hk : k' = k
    · subst hk
      rw [put, if_pos rfl] at h
      rcases List.mem_cons.mp h with rfl | hmem
      · exact .inl rfl
      · exact .inr (List.mem_cons_of_mem _ hmem)
    · rw [put, if_neg hk] at h
      rcases List.mem_cons.mp h with rfl | hmem
      · exact .inr List.mem_cons_self
      · rcases ih hmem with heq | hold
        · exact .inl heq
        · exact .inr (List.mem_cons_of_mem _ hold)

/-- Putting the entries of a list of new, distinct keys appends the list. -/
theorem foldl_put {m l : List (κ × ν)} (h : (keys (m ++ l)).Nodup) :
    l.foldl (fun acc e => put acc e.1 e.2) m = m ++ l := by
  induction l generalizing m with
  | nil => exact (List.append_nil m).symm
  | cons e l ih =>
    have hsplit : m ++ e :: l = m ++ [e] ++ l :=
      by simp only [List.append_assoc, List.singleton_append]
    have hnotin : e.1 ∉ keys m := by
      rw [keys, List.map_append, List.nodup_append] at h
      intro hmem
      exact h.2.2 e.1 hmem e.1 List.mem_cons_self rfl
    rw [List.foldl_cons, put_of_notMem hnotin, ih (hsplit ▸ h), hsplit]

/-- With one value for each key, the map has the entries that are put into it. -/
theorem get_foldl_put {value : κ → ν → Prop}
    (hvalue : ∀ k v v', value k v → value k v' → v = v') {l m : List (κ × ν)}
    (hl : ∀ e ∈ l, value e.1 e.2) (hm : ∀ k v, get m k = some v → value k v) {k : κ} {v : ν} :
    get (l.foldl (fun m e => put m e.1 e.2) m) k = some v ↔ (k, v) ∈ l ∨ get m k = some v := by
  induction l generalizing m with
  | nil => simp only [List.foldl_nil, List.not_mem_nil, false_or]
  | cons e l ih =>
    obtain ⟨key, val⟩ := e
    have hput : ∀ j w, get (put m key val) j = some w ↔
        (j, w) = (key, val) ∨ (j ≠ key ∧ get m j = some w) := by
      intro j w
      by_cases hj : key = j
      · subst hj
        rw [get_put_self]
        simp only [Option.some.injEq, Prod.mk.injEq, true_and, ne_eq, not_true_eq_false, false_and,
          or_false]
        exact eq_comm
      · rw [get_put_ne _ hj]
        simp only [Prod.mk.injEq, Ne.symm hj, false_and, false_or, ne_eq, not_false_eq_true,
          true_and]
    have hhead := hl (key, val) List.mem_cons_self
    have hm' : ∀ j w, get (put m key val) j = some w → value j w := by
      intro j w hget
      rcases (hput j w).mp hget with heq | ⟨_, hold⟩
      · cases heq
        exact hhead
      · exact hm j w hold
    rw [List.foldl_cons, ih (fun e he => hl e (List.mem_cons_of_mem _ he)) hm', hput,
      List.mem_cons]
    constructor
    · rintro (hmem | heq | ⟨_, hold⟩)
      · exact .inl (.inr hmem)
      · exact .inl (.inl heq)
      · exact .inr hold
    · rintro ((heq | hmem) | hold)
      · exact .inr (.inl heq)
      · exact .inl hmem
      · by_cases hk : k = key
        · subst hk
          rw [hvalue k v val (hm k v hold) hhead]
          exact .inr (.inl rfl)
        · exact .inr (.inr ⟨hk, hold⟩)

end LinkedMap
