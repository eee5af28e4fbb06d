/-
# The ordered map is a list

Calls of the functions of the ordered map in any order, from `ordered_map_new` on.  `onList` says
what each of them does on a plain list of entries with distinct keys, and what it gives.  An entry
of the list has the address of its map item, which is how the callers of `ordered_map_iterate` name
an entry.

Every run on the pointers gives what the run on the list gives, and ends with structures that have
the entries of that list (`orderedMap_refines_list`).
-/
import HdfStream.Lib.Machine
import HdfStream.Lib.OrderedMap
import HdfStream.Maps.MapState

namespace HdfStream.Maps

open Cells Zipper LinkedMap

variable {π κ ν : Type}

/-! ## 1. Calls -/

/-- A call, with the addresses that `malloc` returns to it. -/
inductive MapCall (π κ ν : Type) where
  | addItemHead (fresh : Fresh π) (key : κ) (value : Option ν)
  | addItemTail (fresh : Fresh π) (key : κ) (value : Option ν)
  | removeItem (key : κ)
  | removeHead
  | removeTail
  | makeItemHead (key : κ)
  | lookup (key : κ)
  | size
  | iterate (omi : Option π)

/-- What a call gives: an `int`, a value or a map item. -/
inductive Result (π ν : Type) where
  | code (n : Int)
  | value (v : Option ν)
  | item (omi : Option π)
  deriving DecidableEq

section Exec

variable [DecidableEq π] (cmpfunc : κ → κ → Int) (passes : Nat)

/-- A call on the pointers. -/
def MapCall.exec (om : OrderedMap π κ ν) :
    MapCall π κ ν → Option (Result π ν × OrderedMap π κ ν)
  | .addItemHead fresh key value =>
    (orderedMapAddItemHead cmpfunc passes om fresh key value).map (Prod.map .code id)
  | .addItemTail fresh key value =>
    (orderedMapAddItemTail cmpfunc passes om fresh key value).map (Prod.map .code id)
  | .removeItem key => (orderedMapRemoveItem cmpfunc passes om key).map (Prod.map .value id)
  | .removeHead => (orderedMapRemoveHead cmpfunc passes om).map (Prod.map .value id)
  | .removeTail => (orderedMapRemoveTail cmpfunc passes om).map (Prod.map .value id)
  | .makeItemHead key => (orderedMapMakeItemHead cmpfunc passes om key).map (Prod.map .code id)
  | .lookup key => (orderedMapLookup cmpfunc passes om key).map fun v => (.value v, om)
  | .size => some (.code (orderedMapSize om), om)
  | .iterate omi => (orderedMapIterate om omi).map fun next => (.item next, om)

/-- Calls one after the other, with their results. -/
def mapMachine (om₀ : OrderedMap π κ ν) :
    Machine (OrderedMap π κ ν × List (Result π ν)) (MapCall π κ ν) where
  init := (om₀, [])
  exec := fun (om, results) c =>
    (c.exec cmpfunc passes om).map fun (r, om) => (om, results ++ [r])

end Exec

/-! ## 2. The same on a list -/

/-- The map item behind another one, or the first one. -/
def following [DecidableEq π] (m : List (κ × π × Option ν)) : Option π → Option π
  | none => m.head?.map fun e => e.2.1
  | some omi => (m.dropWhile fun e => e.2.1 ≠ omi).tail.head?.map fun e => e.2.1

/-- A call on a list of entries. -/
def MapCall.onList [DecidableEq π] [DecidableEq κ] (m : List (κ × π × Option ν)) :
    MapCall π κ ν → Result π ν × List (κ × π × Option ν)
  | .addItemHead fresh key value =>
    match OrderedMap.addHead m key (fresh.item, value) with
    | some m' => (.code 0, m')
    | none => (.code (-1), m)
  | .addItemTail fresh key value =>
    match OrderedMap.addTail m key (fresh.item, value) with
    | some m' => (.code 0, m')
    | none => (.code (-1), m)
  | .removeItem key =>
    match OrderedMap.remove m key with
    | some (e, m') => (.value e.2, m')
    | none => (.value none, m)
  | .removeHead =>
    match OrderedMap.removeHead m with
    | some (e, m') => (.value e.2, m')
    | none => (.value none, m)
  | .removeTail =>
    match OrderedMap.removeTail m with
    | some (e, m') => (.value e.2, m')
    | none => (.value none, m)
  | .makeItemHead key =>
    match OrderedMap.makeHead m key with
    | some m' => (.code 0, m')
    | none => (.code (-1), m)
  | .lookup key => (.value ((get m key).bind Prod.snd), m)
  | .size => (.code m.length, m)
  | .iterate omi => (.item (following m omi), m)

/-- Calls on a list, one after the other, with their results. -/
def runOnList [DecidableEq π] [DecidableEq κ] (calls : List (MapCall π κ ν)) :
    List (κ × π × Option ν) × List (Result π ν) :=
  calls.foldl (fun (m, results) c => ((c.onList m).2, results ++ [(c.onList m).1])) ([], [])

/-- The entry of the list. -/
def Entry.plain (e : Entry π κ ν) : κ × π × Option ν := (e.key, e.item, e.value)

theorem keys_plain (E : List (Entry π κ ν)) : keys (E.map Entry.plain) = E.map Entry.key :=
  List.map_map

section Steps

variable [DecidableEq π] [DecidableEq κ] {cmpfunc : κ → κ → Int} {om : OrderedMap π κ ν}
  {t : BinaryTree (π × κ × π)} {K : List (π × Unit)} {E E₁ E₂ : List (Entry π κ ν)}
  {e : Entry π κ ν} {k : κ} {passes : Nat}

omit [DecidableEq π] in
theorem get_plain_of_notMem (hk : k ∉ E.map Entry.key) : get (E.map Entry.plain) k = none := by
  rwa [get_eq_none_iff, keys_plain]

omit [DecidableEq π] in
theorem IsMap.get_plain (hcmp : StrictTotal cmpfunc) (h : IsMap cmpfunc om t K E) (he : e ∈ E) :
    get (E.map Entry.plain) e.key = some (e.item, e.value) := by
  refine get_of_mem ?_ (List.mem_map_of_mem (f := Entry.plain) he)
  rw [keys_plain]
  exact h.nodup_keys hcmp

omit [DecidableEq π] in
theorem IsMap.erase_plain (hcmp : StrictTotal cmpfunc)
    (h : IsMap cmpfunc om t K (E₁ ++ e :: E₂)) :
    OrderedMap.erase ((E₁ ++ e :: E₂).map Entry.plain) e.key = (E₁ ++ E₂).map Entry.plain := by
  have hnodup := h.nodup_keys hcmp
  rw [← keys_plain, List.map_append, List.map_cons] at hnodup
  rw [List.map_append, List.map_cons, List.map_append]
  exact OrderedMap.erase_middle hnodup

omit [DecidableEq κ] in
/-- The map item behind that of an entry. -/
theorem IsMap.following_plain (h : IsMap cmpfunc om t K (E₁ ++ e :: E₂)) :
    following ((E₁ ++ e :: E₂).map Entry.plain) (some e.item) = E₂.head?.map Entry.item := by
  have hnodup := h.nodup_items
  rw [List.map_append, List.map_cons] at hnodup
  have hnotMem := (List.nodup_middle.mp hnodup).notMem
  have hall : ∀ f ∈ E₁.map Entry.plain, decide (f.2.1 ≠ e.item) = true := by
    intro f hf
    obtain ⟨f, hmem, rfl⟩ := List.mem_map.mp hf
    refine decide_eq_true fun heq => hnotMem (List.mem_append_left _ ?_)
    rw [← heq]
    exact List.mem_map_of_mem (f := Entry.item) hmem
  rw [following, List.map_append, List.dropWhile_append_of_pos hall, List.map_cons,
    List.dropWhile_cons_of_neg (by simp [Entry.plain]), List.tail_cons, List.head?_map,
    Option.map_map]
  rfl

/-! ## 3. One call -/

/-- The addresses that `malloc` returns are not in use. -/
structure Fresh.FreeIn (fresh : Fresh π) (om : OrderedMap π κ ν) : Prop where
  item : om.items fresh.item = none
  listItem : om.list.heap fresh.listItem = none
  node : om.tree.heap fresh.node = none

/-- What a call needs: free addresses, for a key that is not there, and a map item to go on from. -/
def MapCall.Possible (om : OrderedMap π κ ν) (m : List (κ × π × Option ν)) :
    MapCall π κ ν → Prop
  | .addItemHead fresh key _ => get m key = none → fresh.FreeIn om
  | .addItemTail fresh key _ => get m key = none → fresh.FreeIn om
  | .iterate (some omi) => (om.items omi).isSome
  | _ => True

/-- The pointers do what the list does. -/
def Agrees (cmpfunc : κ → κ → Int) (run : Option (Result π ν × OrderedMap π κ ν))
    (out : Result π ν × List (κ × π × Option ν)) : Prop :=
  ∃ om' t' K' E', run = some (out.1, om') ∧ IsMap cmpfunc om' t' K' E' ∧
    E'.map Entry.plain = out.2

omit [DecidableEq κ] in
/-- An entry is added, or the key is there already. -/
theorem addItem_agrees {addToList : LinkedList π π → π → π → Option (LinkedList π π)}
    {fresh : Fresh π} {value : Option ν} (E' : List (Entry π κ ν))
    {out : Result π ν × List (κ × π × Option ν)} (hcmp : StrictTotal cmpfunc)
    (h : IsMap cmpfunc om t K E) (hpasses : E.length + 1 < passes)
    (hfree : k ∉ E.map Entry.key → fresh.FreeIn om)
    (hadd : fresh.FreeIn om → ∃ list', addToList om.list fresh.listItem fresh.item = some list' ∧
      IsList list' (E'.map Entry.inList))
    (hE' : E'.Perm (⟨k, value, fresh.item, fresh.listItem⟩ :: E))
    (hnew : k ∉ E.map Entry.key → out = (.code 0, E'.map Entry.plain))
    (hold : k ∈ E.map Entry.key → out = (.code (-1), E.map Entry.plain)) :
    Agrees cmpfunc
      ((addItem cmpfunc passes om addToList fresh k value).map (Prod.map .code id)) out := by
  by_cases hk : k ∈ E.map Entry.key
  · rw [hold hk]
    obtain ⟨e, he, rfl⟩ := List.mem_map.mp hk
    refine ⟨om, t, K, E, ?_, h, rfl⟩
    rw [addItem_exists hcmp h (by omega : _ < passes) he]
    rfl
  · rw [hnew hk]
    obtain ⟨list', hrunList, hlist'⟩ := hadd (hfree hk)
    obtain ⟨om', t', K', hrun, h'⟩ := addItem_eq hcmp h hpasses hk (hfree hk).item (hfree hk).node
      hrunList hlist' hE'
    refine ⟨om', t', K', E', ?_, h', rfl⟩
    rw [hrun]
    rfl

theorem addItemHead_agrees {fresh : Fresh π} {value : Option ν} (hcmp : StrictTotal cmpfunc)
    (h : IsMap cmpfunc om t K E) (hpasses : E.length + 1 < passes)
    (hfree : get (E.map Entry.plain) k = none → fresh.FreeIn om) :
    Agrees cmpfunc (MapCall.exec cmpfunc passes om (.addItemHead fresh k value))
      (MapCall.onList (E.map Entry.plain) (.addItemHead fresh k value)) := by
  refine addItem_agrees (⟨k, value, fresh.item, fresh.listItem⟩ :: E) hcmp h hpasses
    (fun hk => hfree (get_plain_of_notMem hk)) (fun hfree => ?_) (List.Perm.refl _) ?_ ?_
  · exact linkedListAddItemHead_eq h.list hfree.listItem (by rwa [List.length_map])
  · intro hk
    rw [MapCall.onList, OrderedMap.addHead, get_plain_of_notMem hk]
    rfl
  · intro hk
    obtain ⟨e, he, rfl⟩ := List.mem_map.mp hk
    rw [MapCall.onList, OrderedMap.addHead, h.get_plain hcmp he]

theorem addItemTail_agrees {fresh : Fresh π} {value : Option ν} (hcmp : StrictTotal cmpfunc)
    (h : IsMap cmpfunc om t K E) (hpasses : E.length + 1 < passes)
    (hfree : get (E.map Entry.plain) k = none → fresh.FreeIn om) :
    Agrees cmpfunc (MapCall.exec cmpfunc passes om (.addItemTail fresh k value))
      (MapCall.onList (E.map Entry.plain) (.addItemTail fresh k value)) := by
  refine addItem_agrees (E ++ [⟨k, value, fresh.item, fresh.listItem⟩]) hcmp h hpasses
    (fun hk => hfree (get_plain_of_notMem hk)) (fun hfree => ?_) (List.perm_append_singleton _ _)
    ?_ ?_
  · rw [List.map_append]
    exact linkedListAddItemTail_eq h.list hfree.listItem (by rwa [List.length_map])
  · intro hk
    rw [MapCall.onList, OrderedMap.addTail, get_plain_of_notMem hk, List.map_append]
    rfl
  · intro hk
    obtain ⟨e, he, rfl⟩ := List.mem_map.mp hk
    rw [MapCall.onList, OrderedMap.addTail, h.get_plain hcmp he]

theorem removeItem_agrees (hcmp : StrictTotal cmpfunc) (h : IsMap cmpfunc om t K E)
    (hpasses : E.length < passes) :
    Agrees cmpfunc (MapCall.exec cmpfunc passes om (.removeItem k))
      (MapCall.onList (E.map Entry.plain) (.removeItem k)) := by
  rw [MapCall.onList, OrderedMap.remove]
  by_cases hk : k ∈ E.map Entry.key
  · obtain ⟨e, he, rfl⟩ := List.mem_map.mp hk
    rw [h.get_plain hcmp he]
    obtain ⟨E₁, E₂, rfl⟩ := List.append_of_mem he
    obtain ⟨om', t', K', hrun, h'⟩ := orderedMapRemoveItem_eq hcmp h hpasses
    refine ⟨om', t', K', E₁ ++ E₂, ?_, h', (h.erase_plain hcmp).symm⟩
    rw [MapCall.exec, hrun]
    rfl
  · rw [get_plain_of_notMem hk]
    refine ⟨om, t, K, E, ?_, h, rfl⟩
    rw [MapCall.exec, orderedMapRemoveItem_absent hcmp h hpasses hk]
    rfl

theorem removeHead_agrees (hcmp : StrictTotal cmpfunc) (h : IsMap cmpfunc om t K E)
    (hpasses : E.length < passes) :
    Agrees cmpfunc (MapCall.exec cmpfunc passes om .removeHead)
      (MapCall.onList (E.map Entry.plain) .removeHead) := by
  cases E with
  | nil =>
    refine ⟨om, t, K, [], ?_, h, rfl⟩
    rw [MapCall.exec, orderedMapRemoveHead, removeEnd_empty h]
    rfl
  | cons e E =>
    obtain ⟨om', t', K', hrun, h'⟩ := orderedMapRemoveHead_eq hcmp h hpasses
    refine ⟨om', t', K', E, ?_, h', rfl⟩
    rw [MapCall.exec, hrun]
    rfl

theorem removeTail_agrees (hcmp : StrictTotal cmpfunc) (h : IsMap cmpfunc om t K E)
    (hpasses : E.length < passes) :
    Agrees cmpfunc (MapCall.exec cmpfunc passes om .removeTail)
      (MapCall.onList (E.map Entry.plain) .removeTail) := by
  rcases List.eq_nil_or_concat E with rfl | ⟨E, e, rfl⟩
  · refine ⟨om, t, K, [], ?_, h, rfl⟩
    rw [MapCall.exec, orderedMapRemoveTail, removeEnd_empty h]
    rfl
  · rw [List.concat_eq_append] at h hpasses ⊢
    obtain ⟨om', t', K', hrun, h'⟩ := orderedMapRemoveTail_eq hcmp h hpasses
    have hlist : OrderedMap.removeTail ((E ++ [e]).map Entry.plain) =
        some ((e.item, e.value), E.map Entry.plain) := by
      rw [List.map_append]
      exact OrderedMap.removeTail_concat _ _ _
    rw [MapCall.onList, hlist]
    refine ⟨om', t', K', E, ?_, h', rfl⟩
    rw [MapCall.exec, hrun]
    rfl

theorem makeItemHead_agrees (hcmp : StrictTotal cmpfunc) (h : IsMap cmpfunc om t K E)
    (hpasses : E.length < passes) :
    Agrees cmpfunc (MapCall.exec cmpfunc passes om (.makeItemHead k))
      (MapCall.onList (E.map Entry.plain) (.makeItemHead k)) := by
  rw [MapCall.onList, OrderedMap.makeHead]
  by_cases hk : k ∈ E.map Entry.key
  · obtain ⟨e, he, rfl⟩ := List.mem_map.mp hk
    rw [h.get_plain hcmp he]
    obtain ⟨E₁, E₂, rfl⟩ := List.append_of_mem he
    obtain ⟨om', hrun, h'⟩ := orderedMapMakeItemHead_eq hcmp h hpasses
    refine ⟨om', t, K, e :: (E₁ ++ E₂), ?_, h', ?_⟩
    · rw [MapCall.exec, hrun]
      rfl
    · rw [List.map_cons, ← h.erase_plain hcmp]
      rfl
  · rw [get_plain_of_notMem hk]
    refine ⟨om, t, K, E, ?_, h, rfl⟩
    rw [MapCall.exec, orderedMapMakeItemHead_absent hcmp h hpasses hk]
    rfl

theorem lookup_agrees (hcmp : StrictTotal cmpfunc) (h : IsMap cmpfunc om t K E)
    (hpasses : E.length < passes) :
    Agrees cmpfunc (MapCall.exec cmpfunc passes om (.lookup k))
      (MapCall.onList (E.map Entry.plain) (.lookup k)) := by
  refine ⟨om, t, K, E, ?_, h, rfl⟩
  rw [MapCall.onList, MapCall.exec]
  by_cases hk : k ∈ E.map Entry.key
  · obtain ⟨e, he, rfl⟩ := List.mem_map.mp hk
    rw [h.get_plain hcmp he, orderedMapLookup_eq hcmp h hpasses he]
    rfl
  · rw [get_plain_of_notMem hk, orderedMapLookup_absent hcmp h hpasses hk]
    rfl

theorem iterate_agrees {omi : Option π} (h : IsMap cmpfunc om t K E)
    (hpossible : (.iterate omi : MapCall π κ ν).Possible om (E.map Entry.plain)) :
    Agrees cmpfunc (MapCall.exec cmpfunc passes om (.iterate omi))
      (MapCall.onList (E.map Entry.plain) (.iterate omi)) := by
  refine ⟨om, t, K, E, ?_, h, rfl⟩
  rw [MapCall.onList, MapCall.exec]
  cases omi with
  | none =>
    have hsplit : IsMap cmpfunc om t K ([] ++ E) := h
    have hstep := orderedMapIterate_eq hsplit
    rw [List.getLast?_nil, Option.map_none] at hstep
    rw [hstep, following, List.head?_map, Option.map_map, Option.map_some]
    rfl
  | some omi =>
    -- the map item is that of an entry
    rw [MapCall.Possible, ← h.items.mem_iff, addrs, Multiset.map_coe, List.map_map,
      Multiset.mem_coe] at hpossible
    obtain ⟨e, he, rfl⟩ := List.mem_map.mp hpossible
    obtain ⟨E₁, E₂, rfl⟩ := List.append_of_mem he
    have hsplit : IsMap cmpfunc om t K ((E₁ ++ [e]) ++ E₂) := by
      rwa [List.append_assoc]
    have hstep := orderedMapIterate_eq hsplit
    rw [List.getLast?_concat, Option.map_some] at hstep
    have hfollowing := h.following_plain
    rw [Function.comp_apply, Entry.inItems, hstep, hfollowing, Option.map_some]

/-- **One call** on the pointers is the call on the list. -/
theorem MapCall.exec_agrees {c : MapCall π κ ν} (hcmp : StrictTotal cmpfunc)
    (h : IsMap cmpfunc om t K E) (hpasses : E.length + 1 < passes)
    (hpossible : c.Possible om (E.map Entry.plain)) :
    Agrees cmpfunc (c.exec cmpfunc passes om) (c.onList (E.map Entry.plain)) := by
  have hshort : E.length < passes := by omega
  cases c with
  | addItemHead fresh key value => exact addItemHead_agrees hcmp h hpasses hpossible
  | addItemTail fresh key value => exact addItemTail_agrees hcmp h hpasses hpossible
  | removeItem key => exact removeItem_agrees hcmp h hshort
  | removeHead => exact removeHead_agrees hcmp h hshort
  | removeTail => exact removeTail_agrees hcmp h hshort
  | makeItemHead key => exact makeItemHead_agrees hcmp h hshort
  | lookup key => exact lookup_agrees hcmp h hshort
  | size =>
    refine ⟨om, t, K, E, ?_, h, rfl⟩
    rw [exec, onList, orderedMapSize_eq h, List.length_map]
  | iterate omi => exact iterate_agrees h hpossible

/-- What a call needs is there, if it has a result. -/
theorem MapCall.possible_of_exec {c : MapCall π κ ν} (hcmp : StrictTotal cmpfunc)
    (h : IsMap cmpfunc om t K E) (hpasses : E.length < passes)
    (hexec : (c.exec cmpfunc passes om).isSome) : c.Possible om (E.map Entry.plain) := by
  cases c with
  | addItemHead fresh key value =>
    intro hget
    rw [get_eq_none_iff, keys_plain] at hget
    rw [exec, Option.isSome_map] at hexec
    obtain ⟨hitem, hnode, hlist⟩ := addItem_fresh hcmp h hpasses hget hexec
    obtain ⟨list', hlist⟩ := Option.isSome_iff_exists.mp hlist
    exact ⟨hitem, linkedListAddItemHead_fresh hlist, hnode⟩
  | addItemTail fresh key value =>
    intro hget
    rw [get_eq_none_iff, keys_plain] at hget
    rw [exec, Option.isSome_map] at hexec
    obtain ⟨hitem, hnode, hlist⟩ := addItem_fresh hcmp h hpasses hget hexec
    obtain ⟨list', hlist⟩ := Option.isSome_iff_exists.mp hlist
    exact ⟨hitem, linkedListAddItemTail_fresh hlist, hnode⟩
  | iterate omi =>
    cases omi with
    | none => trivial
    | some omi =>
      rw [exec, Option.isSome_map] at hexec
      obtain ⟨r, hrun⟩ := Option.isSome_iff_exists.mp hexec
      obtain ⟨item, hitem, -⟩ := Option.bind_eq_some_iff.mp hrun
      rw [Possible, hitem]
      rfl
  | removeItem key => trivial
  | removeHead => trivial
  | removeTail => trivial
  | makeItemHead key => trivial
  | lookup key => trivial
  | size => trivial

end Steps

/-! ## 4. Runs -/

section Runs

variable [DecidableEq π] [DecidableEq κ] {cmpfunc : κ → κ → Int} {passes : Nat}

/-- A call adds one entry at most. -/
theorem MapCall.length_onList (c : MapCall π κ ν) (m : List (κ × π × Option ν)) :
    (c.onList m).2.length ≤ m.length + 1 := by
  have herase : ∀ k, (OrderedMap.erase m k).length ≤ m.length := fun k => List.length_filter_le _ _
  cases c with
  | addItemHead fresh key value =>
    rw [onList, OrderedMap.addHead]
    cases get m key with
    | none => exact Nat.le_refl _
    | some v => exact Nat.le_succ _
  | addItemTail fresh key value =>
    rw [onList, OrderedMap.addTail]
    cases get m key with
    | none => exact Nat.le_of_eq List.length_append
    | some v => exact Nat.le_succ _
  | removeItem key =>
    rw [onList, OrderedMap.remove]
    cases get m key with
    | none => exact Nat.le_succ _
    | some v => exact Nat.le_succ_of_le (herase key)
  | removeHead =>
    cases m with
    | nil => exact Nat.zero_le _
    | cons e m => exact Nat.le_succ_of_le (Nat.le_succ _)
  | removeTail =>
    rw [onList]
    cases hrem : OrderedMap.removeTail m with
    | none => exact Nat.le_succ _
    | some r =>
      have hlen := (OrderedMap.removeTail_eq_some hrem).2
      dsimp only
      omega
  | makeItemHead key =>
    rw [onList, OrderedMap.makeHead]
    cases get m key with
    | none => exact Nat.le_succ _
    | some v => exact Nat.succ_le_succ (herase key)
  | lookup key => exact Nat.le_succ _
  | size => exact Nat.le_succ _
  | iterate omi => exact Nat.le_succ _

theorem runOnList_append (calls : List (MapCall π κ ν)) (c : MapCall π κ ν) :
    runOnList (calls ++ [c]) = ((c.onList (runOnList calls).1).2,
      (runOnList calls).2 ++ [(c.onList (runOnList calls).1).1]) := by
  rw [runOnList, List.foldl_append]
  rfl

/-- A state that has the results and the entries of the list. -/
def Follows (cmpfunc : κ → κ → Int) (calls : List (MapCall π κ ν))
    (s : OrderedMap π κ ν × List (Result π ν)) : Prop :=
  s.2 = (runOnList calls).2 ∧ (runOnList calls).1.length ≤ calls.length ∧
    ∃ t K E, IsMap cmpfunc s.1 t K E ∧ E.map Entry.plain = (runOnList calls).1

/-- **A run on the pointers** is the run on the list. -/
theorem run_agrees (hcmp : StrictTotal cmpfunc) {om₀ : OrderedMap π κ ν}
    (hnew : orderedMapNew passes = some om₀) : ∀ (calls : List (MapCall π κ ν)) s,
    (mapMachine cmpfunc passes om₀).run calls = some s → calls.length + 1 < passes →
      Follows cmpfunc calls s := by
  refine Machine.run_induction _
    (I := fun calls s => calls.length + 1 < passes → Follows cmpfunc calls s) ?_ ?_
  · intro hpasses
    obtain ⟨om, hrun, h⟩ := orderedMapNew_eq (π := π) (ν := ν) cmpfunc (by omega : 0 < passes)
    rw [hnew, Option.some.injEq] at hrun
    subst hrun
    exact ⟨rfl, Nat.le_refl 0, .nil, [], [], h, rfl⟩
  · rintro calls ⟨om, results⟩ c s' - ih hexec hpasses
    rw [List.length_append, List.length_singleton] at hpasses
    obtain ⟨hresults, hsize, t, K, E, h, hE⟩ := ih (by omega)
    obtain ⟨⟨r, om'⟩, hrun, rfl⟩ := Option.map_eq_some_iff.mp hexec
    have hlen : E.length ≤ calls.length := by
      rw [← List.length_map (f := Entry.plain), hE]
      exact hsize
    have hpossible := MapCall.possible_of_exec hcmp h (by omega : E.length < passes)
      (Option.isSome_of_eq_some hrun)
    obtain ⟨om₁, t', K', E', hrun₁, h', hE'⟩ := MapCall.exec_agrees hcmp h
      (by omega : _ < passes) hpossible
    rw [hrun, Option.some.injEq, Prod.mk.injEq] at hrun₁
    obtain ⟨rfl, rfl⟩ := hrun₁
    rw [hE] at hE'
    rw [Follows, runOnList_append, hE, List.length_append, List.length_singleton]
    refine ⟨congrArg (· ++ [_]) hresults, ?_, t', K', E', h', hE'⟩
    have hle := c.length_onList (runOnList calls).1
    dsimp only
    omega

/-- **The structures agree** with a list of entries, and with each other: they have its entries,
with distinct keys; the chain has the nodes of the tree, so that each is freed once; and the
iteration sees the entries from head to tail. -/
def Consistent (cmpfunc : κ → κ → Int) (passes : Nat) (om : OrderedMap π κ ν)
    (m : List (κ × π × Option ν)) : Prop :=
  (keys m).Nodup ∧
  iterateFrom om passes none = some (m.map fun e => (e.1, e.2.2)) ∧
  ∃ t K E, IsMap cmpfunc om t K E ∧ E.map Entry.plain = m ∧
    (K.map Prod.fst).Perm ((inorder t).map Prod.fst) ∧
    ((inorder t).map Prod.fst).Nodup ∧
    avltreeFree passes om.tree = some (K.map Prod.fst, fun _ => none)

omit [DecidableEq κ] in
theorem IsMap.consistent {om : OrderedMap π κ ν} {t : BinaryTree (π × κ × π)}
    {K : List (π × Unit)} {E : List (Entry π κ ν)} (hcmp : StrictTotal cmpfunc)
    (h : IsMap cmpfunc om t K E) (hpasses : E.length < passes) :
    Consistent cmpfunc passes om (E.map Entry.plain) := by
  have hnodes : t.numNodes < passes := by
    rw [h.numNodes]
    exact hpasses
  have hnodup := h.tree.shape.links.nodup
  rw [LinkedTree.addrs_cells, Multiset.coe_nodup] at hnodup
  refine ⟨?_, ?_, t, K, E, h, rfl, h.tree.chain_perm, hnodup, avltreeFree_eq h.tree hnodes⟩
  · rw [keys_plain]
    exact h.nodup_keys hcmp
  · have hsplit : IsMap cmpfunc om t K ([] ++ E) := h
    have hloop := iterateFrom_eq hsplit hpasses
    rw [List.map_map]
    exact hloop

/-- **The ordered map is a list** of entries with distinct keys: every run gives the results of
the list, and ends with structures that agree with it; and no call fails. -/
theorem orderedMap_refines_list (hcmp : StrictTotal cmpfunc) (calls : List (MapCall π κ ν))
    (hpasses : calls.length + 1 < passes) :
    ∃ om₀ : OrderedMap π κ ν, orderedMapNew passes = some om₀ ∧
      ∀ om results, (mapMachine cmpfunc passes om₀).run calls = some (om, results) →
        results = (runOnList calls).2 ∧
        Consistent cmpfunc passes om (runOnList calls).1 ∧
        ∀ c : MapCall π κ ν, c.Possible om (runOnList calls).1 →
          (c.exec cmpfunc passes om).isSome := by
  obtain ⟨om₀, hnew, -⟩ := orderedMapNew_eq (π := π) (ν := ν) cmpfunc (by omega : 0 < passes)
  refine ⟨om₀, hnew, fun om results hrun => ?_⟩
  obtain ⟨hresults, hsize, t, K, E, h, hE⟩ := run_agrees hcmp hnew calls _ hrun hpasses
  have hlen : E.length ≤ calls.length := by
    rw [← List.length_map (f := Entry.plain), hE]
    exact hsize
  rw [← hE]
  refine ⟨hresults, h.consistent hcmp (by omega : _ < passes), fun c hpossible => ?_⟩
  obtain ⟨om', -, -, -, hexec, -⟩ := MapCall.exec_agrees hcmp h
      (by omega : _ < passes) hpossible
  rw [hexec]
  rfl

/-- Three entries, of which the second goes to the head; the first is removed, and then the tail. -/
def threeEntries : List (MapCall Nat Int Nat) :=
  [.addItemTail ⟨0, 0, 0⟩ 5 (some 50), .addItemTail ⟨1, 1, 1⟩ 3 (some 30),
    .addItemHead ⟨2, 2, 2⟩ 8 none, .makeItemHead 3, .lookup 3, .removeItem 5, .iterate none,
    .iterate (some 1), .addItemHead ⟨0, 0, 0⟩ 3 none, .size, .removeTail]

theorem orderedMap_refines_list_threeEntries :
    ∃ om₀ om results, orderedMapNew 14 = some om₀ ∧
      (mapMachine minus 14 om₀).run threeEntries = some (om, results) ∧
      results = [.code 0, .code 0, .code 0, .code 0, .value (some 30), .value (some 50),
        .item (some 1), .item (some 2), .code (-1), .code 2, .value none] ∧
      Consistent minus 14 om [(3, 1, some 30)] := by
  obtain ⟨om₀, hnew, hall⟩ := orderedMap_refines_list strictTotal_minus threeEntries
    (by decide : _ < 14)
  have hsome : ((orderedMapNew 14).bind fun om₀ =>
      (mapMachine minus 14 om₀).run threeEntries).isSome := by decide
  rw [hnew, Option.bind_some] at hsome
  obtain ⟨⟨om, results⟩, hrun⟩ := Option.isSome_iff_exists.mp hsome
  obtain ⟨hresults, hconsistent, -⟩ := hall om results hrun
  exact ⟨om₀, om, results, hnew, hrun, hresults, hconsistent⟩

end Runs

end HdfStream.Maps
