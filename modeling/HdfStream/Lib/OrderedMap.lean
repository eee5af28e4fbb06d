/-
# Ordered maps as lists of entries

A map with an order is the list of its entries, from head to tail, with distinct keys.  An entry
is added at the head or at the tail and can be moved to the head; a value can be changed in place.

`Mirrors R m m'` says that the keys of `m` are the first keys of `m'`, with related values.  Two
maps that are used alike, of which one loses entries at its tail, stay so: every operation on both
keeps the relation, and a cut at the tail of the smaller one does.
-/
import HdfStream.Lib.LinkedMap

namespace OrderedMap

open LinkedMap

variable {κ ν ν' : Type*} [DecidableEq κ]

/-! ## 1. Operations -/

/-- Without a key. -/
def erase (m : List (κ × ν)) (k : κ) : List (κ × ν) := m.filter fun e => e.1 ≠ k

/-- A new key at the head. -/
def addHead (m : List (κ × ν)) (k : κ) (v : ν) : Option (List (κ × ν)) :=
  match get m k with
  | some _ => none
  | none => some ((k, v) :: m)

/-- A new key at the tail. -/
def addTail (m : List (κ × ν)) (k : κ) (v : ν) : Option (List (κ × ν)) :=
  match get m k with
  | some _ => none
  | none => some (m ++ [(k, v)])

/-- A key and its value are removed. -/
def remove (m : List (κ × ν)) (k : κ) : Option (ν × List (κ × ν)) :=
  (get m k).map fun v => (v, erase m k)

/-- The first entry is removed. -/
def removeHead : List (κ × ν) → Option (ν × List (κ × ν))
  | [] => none
  | (_, v) :: m => some (v, m)

/-- The last entry is removed. -/
def removeTail (m : List (κ × ν)) : Option (ν × List (κ × ν)) :=
  m.getLast?.map fun e => (e.2, m.dropLast)

/-- A key moves to the head. -/
def makeHead (m : List (κ × ν)) (k : κ) : Option (List (κ × ν)) :=
  (get m k).map fun v => (k, v) :: erase m k

/-- The value of a key changes in place. -/
def modify : List (κ × ν) → κ → (ν → ν) → List (κ × ν)
  | [], _, _ => []
  | (k', v) :: m, k, f => if k' = k then (k', f v) :: m else (k', v) :: modify m k f

/-! ## 2. Reading after an operation -/

theorem get_erase_self (m : List (κ × ν)) (k : κ) : get (erase m k) k = none := by
  rw [get_eq_none_iff, keys, List.mem_map]
  rintro ⟨e, he, rfl⟩
  exact of_decide_eq_true (List.mem_filter.mp he).2 rfl

theorem erase_cons_self (k : κ) (v : ν) (m : List (κ × ν)) :
    erase ((k, v) :: m) k = erase m k := by
  rw [erase, List.filter_cons_of_neg (by simp), erase]

theorem erase_cons_ne {k k' : κ} (h : k' ≠ k) (v : ν) (m : List (κ × ν)) :
    erase ((k', v) :: m) k = (k', v) :: erase m k := by
  rw [erase, List.filter_cons_of_pos (by simpa using h), erase]

/-- The entries around a key. -/
theorem erase_middle {m m' : List (κ × ν)} {k : κ} {v : ν}
    (h : (keys (m ++ (k, v) :: m')).Nodup) : erase (m ++ (k, v) :: m') k = m ++ m' := by
  rw [keys, List.map_append, List.map_cons] at h
  have hnotMem := (List.nodup_middle.mp h).notMem
  rw [erase, List.filter_append, List.filter_cons_of_neg (by simp), ← List.filter_append]
  refine List.filter_eq_self.mpr fun e he => decide_eq_true fun hk => ?_
  have hmem := List.mem_map_of_mem (f := Prod.fst) he
  rw [List.map_append, hk] at hmem
  exact hnotMem hmem

theorem erase_of_get_eq_none {m : List (κ × ν)} {k : κ} (h : get m k = none) : erase m k = m := by
  refine List.filter_eq_self.mpr fun e he => decide_eq_true fun hk => ?_
  rw [get_eq_none_iff] at h
  exact h (hk ▸ List.mem_map_of_mem he)

theorem keys_modify (m : List (κ × ν)) (k : κ) (f : ν → ν) : keys (modify m k f) = keys m := by
  induction m with
  | nil => rfl
  | cons e m ih =>
    obtain ⟨k', v⟩ := e
    rw [modify]
    split
    · rfl
    · exact congrArg (k' :: ·) ih

theorem makeHead_of_get {m : List (κ × ν)} {k : κ} {v : ν} (h : get m k = some v) :
    makeHead m k = some ((k, v) :: erase m k) := by
  rw [makeHead, h, Option.map_some]

theorem addHead_of_get {m : List (κ × ν)} {k : κ} (h : get m k = none) (v : ν) :
    addHead m k v = some ((k, v) :: m) := by
  rw [addHead, h]

omit [DecidableEq κ] in
theorem keys_cons (k : κ) (v : ν) (m : List (κ × ν)) : keys ((k, v) :: m) = k :: keys m := rfl

/-- What holds of all values after a change. -/
theorem forall_modify {P : ν → Prop} {m : List (κ × ν)} {k : κ} {f : ν → ν}
    (h : ∀ e ∈ m, P e.2) (hf : ∀ v, get m k = some v → P v → P (f v)) :
    ∀ e ∈ modify m k f, P e.2 := by
  induction m with
  | nil => exact h
  | cons e m ih =>
    obtain ⟨k', v⟩ := e
    have hv := h (k', v) List.mem_cons_self
    have hm := fun e he => h e (List.mem_cons_of_mem _ he)
    rw [modify]
    by_cases hk : k' = k
    · subst hk
      rw [if_pos rfl]
      exact List.forall_mem_cons.mpr ⟨hf v (get_cons_self _ _ _) hv, hm⟩
    · rw [if_neg hk]
      rw [get_cons_ne hk] at hf
      exact List.forall_mem_cons.mpr ⟨hv, ih hm hf⟩

theorem keys_erase (m : List (κ × ν)) (k : κ) :
    keys (erase m k) = (keys m).filter fun k' => k' ≠ k := by
  rw [keys, erase, keys, List.filter_map]
  rfl

omit [DecidableEq κ] in
theorem keys_take (m : List (κ × ν)) (n : Nat) : keys (m.take n) = (keys m).take n :=
  List.map_take

/-- What is not in a map is not in its beginning. -/
theorem get_take_eq_none {m : List (κ × ν)} {k : κ} (h : get m k = none) (n : Nat) :
    get (m.take n) k = none := by
  rw [get_eq_none_iff] at h ⊢
  rw [keys_take]
  exact fun hmem => h (List.mem_of_mem_take hmem)

theorem get_eq_none_of_keys {m : List (κ × ν)} {m' : List (κ × ν')} (h : keys m = keys m') {k : κ}
    (hk : get m k = none) : get m' k = none := by
  rw [get_eq_none_iff] at hk ⊢
  rwa [← h]

omit [DecidableEq κ] in
/-- Removing the tail leaves all but one of the entries. -/
theorem removeTail_eq_some {m n : List (κ × ν)} {v : ν} (h : removeTail m = some (v, n)) :
    n = m.take (m.length - 1) ∧ n.length + 1 = m.length := by
  obtain ⟨e, he, heq⟩ := Option.map_eq_some_iff.mp h
  cases heq
  have hne : m ≠ [] := by
    rintro rfl
    cases he
  have hpos := List.length_pos_of_ne_nil hne
  rw [List.dropLast_eq_take, List.length_take]
  exact ⟨rfl, by omega⟩

omit [DecidableEq κ] in
theorem removeTail_concat (m : List (κ × ν)) (k : κ) (v : ν) :
    removeTail (m ++ [(k, v)]) = some (v, m) := by
  rw [removeTail, List.getLast?_concat, List.dropLast_concat, Option.map_some]

omit [DecidableEq κ] in
theorem removeTail_eq_none {m : List (κ × ν)} (h : removeTail m = none) : m = [] :=
  List.getLast?_eq_none_iff.mp (Option.map_eq_none_iff.mp h)

/-! ## 3. A map that another one mirrors -/

/-- The keys of the first map are the first keys of the second, with related values. -/
inductive Mirrors (R : ν → ν' → Prop) : List (κ × ν) → List (κ × ν') → Prop where
  | nil (m' : List (κ × ν')) : Mirrors R [] m'
  | cons (k : κ) {v : ν} {v' : ν'} {m : List (κ × ν)} {m' : List (κ × ν')} (hv : R v v')
      (hm : Mirrors R m m') : Mirrors R ((k, v) :: m) ((k, v') :: m')

namespace Mirrors

variable {R : ν → ν' → Prop} {m : List (κ × ν)} {m' : List (κ × ν')} {k : κ}

omit [DecidableEq κ] in
theorem keys_isPrefix (h : Mirrors R m m') : keys m <+: keys m' := by
  induction h with
  | nil m' => exact List.nil_prefix
  | cons k hv hm ih => exact List.cons_prefix_cons.mpr ⟨rfl, ih⟩

omit [DecidableEq κ] in
theorem length_le (h : Mirrors R m m') : m.length ≤ m'.length := by
  have hle := h.keys_isPrefix.length_le
  rwa [keys, keys, List.length_map, List.length_map] at hle

theorem get (h : Mirrors R m m') {v : ν} (hv : LinkedMap.get m k = some v) :
    ∃ v', LinkedMap.get m' k = some v' ∧ R v v' := by
  induction h with
  | nil m' => cases hv
  | cons k' hR hm ih =>
    by_cases hk : k' = k
    · subst hk
      rw [get_cons_self] at hv
      cases hv
      exact ⟨_, get_cons_self _ _ _, hR⟩
    · rw [get_cons_ne hk] at hv
      obtain ⟨v', hv', hR'⟩ := ih hv
      exact ⟨v', by rw [get_cons_ne hk, hv'], hR'⟩

theorem erase (h : Mirrors R m m') (k : κ) :
    Mirrors R (OrderedMap.erase m k) (OrderedMap.erase m' k) := by
  induction h with
  | nil m' => exact .nil _
  | cons k' hv hm ih =>
    by_cases hk : k' = k
    · subst hk
      rw [erase_cons_self, erase_cons_self]
      exact ih
    · rw [erase_cons_ne hk, erase_cons_ne hk]
      exact .cons k' hv ih

/-- A key that is new in the first map and moves to the head of the second. -/
theorem addHead_makeHead (h : Mirrors R m m') (hk : LinkedMap.get m k = none) {v : ν} {v' : ν'}
    (hR : R v v') :
    Mirrors R ((k, v) :: m) ((k, v') :: OrderedMap.erase m' k) := by
  have herase := h.erase k
  rw [erase_of_get_eq_none hk] at herase
  exact .cons k hR herase

/-- Changing the related values of a key in both maps. -/
theorem modify (h : Mirrors R m m') (f : ν → ν) (f' : ν' → ν')
    (hf : ∀ v v', LinkedMap.get m k = some v → LinkedMap.get m' k = some v' → R v v' →
      R (f v) (f' v')) :
    Mirrors R (OrderedMap.modify m k f) (OrderedMap.modify m' k f') := by
  induction h with
  | nil m' => exact .nil _
  | cons k' hv hm ih =>
    rw [OrderedMap.modify, OrderedMap.modify]
    by_cases hk : k' = k
    · subst hk
      rw [if_pos rfl, if_pos rfl]
      exact .cons k' (hf _ _ (get_cons_self _ _ _) (get_cons_self _ _ _) hv) hm
    · rw [if_neg hk, if_neg hk]
      rw [get_cons_ne hk, get_cons_ne hk] at hf
      exact .cons k' hv (ih hf)

/-- Changing a value in the first map only. -/
theorem modify_left (h : Mirrors R m m') {f : ν → ν}
    (hf : ∀ v v', LinkedMap.get m k = some v → R v v' → R (f v) v') :
    Mirrors R (OrderedMap.modify m k f) m' := by
  induction h with
  | nil m' => exact .nil _
  | cons k' hv hm ih =>
    rw [OrderedMap.modify]
    by_cases hk : k' = k
    · subst hk
      rw [if_pos rfl]
      exact .cons k' (hf _ _ (get_cons_self _ _ _) hv) hm
    · rw [if_neg hk]
      rw [get_cons_ne hk] at hf
      exact .cons k' hv (ih hf)

/-- Changing a value in the second map only. -/
theorem modify_right (h : Mirrors R m m') (f' : ν' → ν')
    (hf : ∀ v v', LinkedMap.get m' k = some v' → R v v' → R v (f' v')) :
    Mirrors R m (OrderedMap.modify m' k f') := by
  induction h with
  | nil m' => exact .nil _
  | cons k' hv hm ih =>
    rw [OrderedMap.modify]
    by_cases hk : k' = k
    · subst hk
      rw [if_pos rfl]
      exact .cons k' (hf _ _ (get_cons_self _ _ _) hv) hm
    · rw [if_neg hk]
      rw [get_cons_ne hk] at hf
      exact .cons k' hv (ih hf)

omit [DecidableEq κ] in
theorem take (h : Mirrors R m m') (n : Nat) : Mirrors R (m.take n) (m'.take n) := by
  induction h generalizing n with
  | nil m' =>
    rw [List.take_nil]
    exact .nil _
  | cons k hv hm ih =>
    cases n with
    | zero => exact .nil _
    | succ n => exact .cons k hv (ih n)

omit [DecidableEq κ] in
/-- The smaller map loses entries at its tail. -/
theorem take_left (h : Mirrors R m m') (n : Nat) : Mirrors R (m.take n) m' := by
  induction h generalizing n with
  | nil m' =>
    rw [List.take_nil]
    exact .nil _
  | cons k hv hm ih =>
    cases n with
    | zero => exact .nil _
    | succ n => exact .cons k hv (ih n)

end Mirrors

/-! ## 4. A map in an order -/

/-- The values seen through a function that the change does not touch. -/
theorem map_modify {m : List (κ × ν)} {k : κ} {f : ν → ν} {g : ν → ν'} (hf : ∀ v, g (f v) = g v) :
    ((modify m k f).map fun e => g e.2) = m.map fun e => g e.2 := by
  induction m with
  | nil => rfl
  | cons e m ih =>
    obtain ⟨k', v⟩ := e
    rw [modify]
    by_cases hk : k' = k
    · rw [if_pos hk, List.map_cons, List.map_cons, hf]
    · rw [if_neg hk, List.map_cons, List.map_cons, ih]

/-- If in a list everything behind a chosen element is chosen too, then the chosen ones are as many
elements at the tail as there are. -/
theorem choose_tail {α : Type*} {R : α → α → Prop} {l : List α} (hl : l.Pairwise R) {p : α → Bool}
    (hp : ∀ a b, R a b → p a → p b) :
    (l.filter fun a => !p a) = l.take (l.length - l.countP p) ∧
      l.filter p = l.drop (l.length - l.countP p) := by
  induction hl with
  | nil => exact ⟨rfl, rfl⟩
  | cons ha hl ih =>
    rename_i a l
    have hle : l.countP p ≤ l.length := List.countP_le_length
    by_cases hpa : p a
    · -- all of the list is chosen
      have hall : ∀ b ∈ l, p b := fun b hb => hp a b (ha b hb) hpa
      have hcount : l.countP p = l.length := List.countP_eq_length.mpr hall
      rw [List.countP_cons_of_pos hpa, hcount, List.length_cons, Nat.sub_self]
      constructor
      · rw [List.take_zero, List.filter_eq_nil_iff]
        intro b hb
        rcases List.mem_cons.mp hb with rfl | hb
        · simp [hpa]
        · simp [hall b hb]
      · rw [List.drop_zero, List.filter_eq_self]
        exact List.forall_mem_cons.mpr ⟨hpa, hall⟩
    · have hsucc : (a :: l).length - l.countP p = l.length - l.countP p + 1 := by
        rw [List.length_cons]
        omega
      rw [List.countP_cons_of_neg hpa, hsucc, List.take_succ_cons, List.drop_succ_cons, ← ih.1,
        ← ih.2]
      constructor
      · exact List.filter_cons_of_pos (by simp [hpa])
      · exact List.filter_cons_of_neg hpa

end OrderedMap
