/-
# Counting the entries of an array under updates

Counter programs keep a number in step with an array: the number of slots in some state, the
number of threads at some point.  `Nat.count` counts the indices below `n` with a property;
this file says what one assignment `f[i] := b` does to the count of a property `q` of the
entries (`count_update`), and gives its four cases by name.
-/
import Mathlib.Data.List.Perm.Basic
import Mathlib.Data.Nat.Count
import Mathlib.Logic.Function.Basic

namespace Counting

variable {β : Type*} (q : β → Prop) [DecidablePred q] (f : Nat → β) {i n : Nat} (b : β)

/-- **One assignment.**  The count loses the old entry and gains the new one. -/
theorem count_update (h : i < n) :
    Nat.count (fun j => q (Function.update f i b j)) n + (if q (f i) then 1 else 0) =
      Nat.count (fun j => q (f j)) n + if q b then 1 else 0 := by
  induction n with
  | zero => exact absurd h (Nat.not_lt_zero _)
  | succ n ih =>
    rw [Nat.count_succ, Nat.count_succ]
    by_cases hi : i = n
    · subst hi
      -- the entries below `i` are not touched
      have hbelow : Nat.count (fun j => q (Function.update f i b j)) i =
          Nat.count (fun j => q (f j)) i := by
        refine le_antisymm (Nat.count_mono_left fun k hk hq => ?_)
          (Nat.count_mono_left fun k hk hq => ?_)
        · rwa [Function.update_of_ne hk.ne] at hq
        · rwa [Function.update_of_ne hk.ne]
      rw [hbelow, Function.update_self]
      omega
    · have := ih (by omega)
      rw [Function.update_of_ne (fun e => hi e.symm)]
      omega

variable {q f b}

theorem count_update_same (h : i < n) (hq : q b ↔ q (f i)) :
    Nat.count (fun j => q (Function.update f i b j)) n = Nat.count (fun j => q (f j)) n := by
  have := count_update q f b h
  simp only [hq] at this
  omega

theorem count_update_gain (h : i < n) (hold : ¬ q (f i)) (hnew : q b) :
    Nat.count (fun j => q (Function.update f i b j)) n = Nat.count (fun j => q (f j)) n + 1 := by
  have := count_update q f b h
  rw [if_neg hold, if_pos hnew] at this
  exact this

theorem count_update_lose (h : i < n) (hold : q (f i)) (hnew : ¬ q b) :
    Nat.count (fun j => q (Function.update f i b j)) n + 1 = Nat.count (fun j => q (f j)) n := by
  have := count_update q f b h
  rw [if_pos hold, if_neg hnew] at this
  exact this

/-- The entries that are there, where one is set. -/
theorem filterMap_update_some {γ : Type*} (f : Nat → Option γ) (b : γ) (h : i < n) :
    (((List.range n).filterMap (Function.update f i (some b))).Perm
      (b :: (List.range n).filterMap (Function.update f i none))) := by
  induction n with
  | zero => exact absurd h (Nat.not_lt_zero _)
  | succ n ih =>
    rw [List.range_succ, List.filterMap_append, List.filterMap_append]
    by_cases hi : i = n
    · subst hi
      -- the entries below `i` are not touched
      have hbelow : ∀ x : Option γ, (List.range i).filterMap (Function.update f i x) =
          (List.range i).filterMap f := fun x =>
        List.filterMap_congr fun k hk => Function.update_of_ne (List.mem_range.mp hk).ne ..
      rw [hbelow, hbelow, List.filterMap_cons_some (Function.update_self ..),
        List.filterMap_cons_none (Function.update_self ..), List.filterMap_nil,
        List.filterMap_nil, List.append_nil]
      exact List.perm_append_singleton b _
    · have hsame : ∀ x : Option γ, [n].filterMap (Function.update f i x) = [n].filterMap f :=
        fun x => List.filterMap_congr fun k hk => by
          rw [List.mem_singleton.mp hk, Function.update_of_ne (Ne.symm hi)]
      rw [hsame, hsame]
      exact (ih (by omega)).append_right _

end Counting
