/-
# A ring of slots, each guarded by two semaphores

One producer and one consumer share `n` slots.  Slot `j` has a WRITE permit `w j` and a READ
permit `r j`.  The producer takes the write permit of its slot, fills it and posts its read
permit; the consumer takes the read permit, empties the slot and posts its write permit.  Both
visit the slots in cyclic order.

Positions are absolute: the producer has posted `p` slots, the consumer has given back `c`, and
position `b` lives in slot `b % n`.  `Tokens` says where every permit is.  Of each slot there is
exactly one token: its write permit, its read permit, or the right of the side that took one.

The four moves preserve `Tokens` (`producerTake`, `producerPost`, `consumerTake`,
`consumerGive`).  From it follow exclusion (`Tokens.exclusive`), the two facts deadlock freedom
needs (`Tokens.full_of_no_write`, `Tokens.empty_of_no_read`), and the state of the ring when
everything has been consumed (`Tokens.idle`).
-/
import HdfStream.Lib.Memory
import Mathlib.Logic.Function.Basic

namespace TokenRing

open Memory

variable {n : Nat} {w r : Nat → Nat} {p c : Nat} {ph ch : Bool}

/-! ## 1. Where the permits are -/

/-- Positions of one window with different slots are different, so a change of one slot is
seen at one position only. -/
theorem update_window {β : Type*} (f : Nat → β) (v : β) {a b : Nat} (ha : c ≤ a)
    (ha' : a < c + n) (hb : c ≤ b) (hb' : b < c + n) (h : b ≠ a) :
    Function.update f (a % n) v (b % n) = f (b % n) :=
  Function.update_of_ne (fun e => h (window_mod_inj hb hb' ha ha' e)) v f

/-- The token invariant.  `ph` and `ch` say whether the producer holds position `p` and
whether the consumer holds position `c`. -/
structure Tokens (n : Nat) (w r : Nat → Nat) (p c : Nat) (ph ch : Bool) : Prop where
  le : c ≤ p
  window : p ≤ c + n
  held : ph = true → p < c + n
  taken : ch = true → c < p
  read : ∀ b, c ≤ b → b < c + n → r (b % n) = if b < p ∧ ¬ (b = c ∧ ch = true) then 1 else 0
  write : ∀ b, c ≤ b → b < c + n → w (b % n) = if p ≤ b ∧ ¬ (b = p ∧ ph = true) then 1 else 0

/-- Everything writable, nothing readable: where a stream starts. -/
theorem Tokens.start (hw : ∀ j, j < n → w j = 1) (hr : ∀ j, j < n → r j = 0) (hn : 0 < n) :
    Tokens n w r 0 0 false false where
  le := Nat.le_refl _
  window := by omega
  held := by simp
  taken := by simp
  read b _ _ := by simp [hr _ (Nat.mod_lt b hn)]
  write b _ _ := by simp [hw _ (Nat.mod_lt b hn)]

/-! ## 2. The four moves -/

/-- The producer takes the write permit of its slot. -/
theorem Tokens.producerTake (h : Tokens n w r p c false ch) (hp : 0 < w (p % n)) (hn : 0 < n) :
    Tokens n (Function.update w (p % n) (w (p % n) - 1)) r p c true ch := by
  have hwin : p < c + n := by
    by_contra hge
    have hpc : p = c + n := by
      have := h.window
      omega
    have hc := h.write c (Nat.le_refl _) (by omega)
    rw [hpc, Nat.add_mod_right, hc, if_neg (by omega)] at hp
    exact absurd hp (by simp)
  have hw : w (p % n) = 1 := by
    rw [h.write p h.le hwin, if_pos ⟨Nat.le_refl _, by simp⟩]
  refine ⟨h.le, h.window, fun _ => hwin, h.taken, h.read, fun b hb hb' => ?_⟩
  by_cases hbp : b = p
  · subst hbp
    simp [hw]
  · rw [update_window w _ h.le hwin hb hb' hbp, h.write b hb hb']
    simp [hbp]

/-- The producer posts the read permit of its slot and moves on. -/
theorem Tokens.producerPost (h : Tokens n w r p c true ch) :
    Tokens n w (Function.update r (p % n) (r (p % n) + 1)) (p + 1) c false ch := by
  have hwin : p < c + n := h.held rfl
  have hr : r (p % n) = 0 := by
    rw [h.read p h.le hwin, if_neg (by omega)]
  refine ⟨Nat.le_succ_of_le h.le, hwin, by simp, fun e => Nat.lt_succ_of_lt (h.taken e),
    fun b hb hb' => ?_, fun b hb hb' => ?_⟩
  · by_cases hbp : b = p
    · subst hbp
      have hne : ¬ (b = c ∧ ch = true) := fun e => by
        have := h.taken e.2
        omega
      rw [Function.update_self, hr, if_pos ⟨Nat.lt_succ_self _, hne⟩]
    · rw [update_window r _ h.le hwin hb hb' hbp, h.read b hb hb']
      have : b < p ↔ b < p + 1 := by omega
      simp only [this]
  · rw [h.write b hb hb']
    by_cases hpb : p + 1 ≤ b
    · rw [if_pos ⟨by omega, by omega⟩, if_pos ⟨hpb, by simp⟩]
    · rw [if_neg (by simp; omega), if_neg (by omega)]

/-- The consumer takes the read permit of its slot. -/
theorem Tokens.consumerTake (h : Tokens n w r p c ph false) (hc : 0 < r (c % n)) (hn : 0 < n) :
    Tokens n w (Function.update r (c % n) (r (c % n) - 1)) p c ph true := by
  have hr := h.read c (Nat.le_refl _) (by omega)
  have hcp : c < p := by
    by_contra hge
    rw [hr, if_neg (by omega)] at hc
    exact absurd hc (by simp)
  have hr1 : r (c % n) = 1 := by
    rw [hr, if_pos ⟨hcp, by simp⟩]
  refine ⟨h.le, h.window, h.held, fun _ => hcp, fun b hb hb' => ?_, h.write⟩
  by_cases hbc : b = c
  · subst hbc
    simp [hr1]
  · rw [update_window r _ (Nat.le_refl c) (by omega) hb hb' hbc, h.read b hb hb']
    simp [hbc]

/-- The consumer posts the write permit of its slot and moves on. -/
theorem Tokens.consumerGive (h : Tokens n w r p c ph true) (hn : 0 < n) :
    Tokens n (Function.update w (c % n) (w (c % n) + 1)) r p (c + 1) ph false := by
  have hcp : c < p := h.taken rfl
  have hw0 : w (c % n) = 0 := by
    rw [h.write c (Nat.le_refl _) (by omega), if_neg (by omega)]
  -- the slot of the new last position of the window is the one just given back
  have hslot : (c + n) % n = c % n := Nat.add_mod_right c n
  have hwin := h.window
  refine ⟨hcp, by omega, fun e => ?_, by simp, fun b hb hb' => ?_, fun b hb hb' => ?_⟩
  · have := h.held e
    omega
  · by_cases hlast : b = c + n
    · subst hlast
      rw [hslot, h.read c (Nat.le_refl _) (by omega), if_neg (by simp), if_neg (by omega)]
    · rw [h.read b (by omega) (by omega)]
      have : b ≠ c := by omega
      simp [this]
  · by_cases hlast : b = c + n
    · subst hlast
      have hne : ¬ (c + n = p ∧ ph = true) := by
        rintro ⟨e, e'⟩
        have := h.held e'
        omega
      rw [hslot, Function.update_self, hw0, if_pos ⟨by omega, hne⟩]
    · rw [update_window w _ (Nat.le_refl c) (by omega) (by omega) (by omega) (by omega),
        h.write b (by omega) (by omega)]

/-! ## 3. What the invariant is for -/

/-- **Exclusion.**  The two sides never hold the same slot. -/
theorem Tokens.exclusive (h : Tokens n w r p c true true) : p % n ≠ c % n := by
  have hcp := h.taken rfl
  have hwin := h.held rfl
  intro e
  have := window_mod_inj h.le (by omega) (Nat.le_refl c) (by omega) e
  omega

/-- A producer without a write permit to take has filled the whole ring. -/
theorem Tokens.full_of_no_write (h : Tokens n w r p c false ch) (h0 : w (p % n) = 0) :
    p = c + n := by
  have hwin := h.window
  by_contra hne
  have hw := h.write p h.le (by omega)
  rw [h0, if_pos ⟨Nat.le_refl _, by simp⟩] at hw
  exact absurd hw (by simp)

/-- A consumer without a read permit to take has emptied the whole ring. -/
theorem Tokens.empty_of_no_read (h : Tokens n w r p c ph false) (h0 : r (c % n) = 0)
    (hn : 0 < n) : p = c := by
  by_contra hne
  have hle := h.le
  have hr := h.read c (Nat.le_refl _) (by omega)
  rw [h0, if_pos ⟨by omega, by simp⟩] at hr
  exact absurd hr (by simp)

/-- Where the read permits are when only one posted slot is left and the consumer holds it:
nowhere; and no slot has more than one write permit. -/
theorem Tokens.idle (h : Tokens n w r (c + 1) c false true) {j : Nat} (hj : j < n) :
    r j = 0 ∧ w j ≤ 1 := by
  obtain ⟨b, hb, hb', rfl⟩ := window_exists c hj
  constructor
  · rw [h.read b hb hb', if_neg]
    rintro ⟨h1, h2⟩
    exact h2 ⟨by omega, rfl⟩
  · rw [h.write b hb hb']
    split <;> omega

end TokenRing
