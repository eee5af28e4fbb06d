/-
# A byte-addressed memory, and a ring of slots counted from the beginning of time

Two small libraries for programs that share a region of memory through a ring of buffers.

* `readMem` and `writeMem`: what a copy out of and a copy into a region do, with the two
  facts such proofs use: a copy leaves every disjoint region alone, and a copy that starts
  where the contents of a region end appends to them.
* The WINDOW lemmas.  A ring of `n` slots is indexed modulo `n`, but invariants are easier to
  state over ABSOLUTE positions, which only grow.  Inside a window of `n` consecutive
  positions the position and its slot determine each other (`window_mod_inj`,
  `window_exists`).
-/
import Mathlib.Data.Nat.ModEq

namespace Memory

/-! ## 1. Copies -/

/-- The `n` bytes from address `a` on. -/
def readMem (mem : Nat → UInt8) (a n : Nat) : List UInt8 :=
  (List.range n).map (fun i => mem (a + i))

/-- Store the bytes from address `a` on. -/
def writeMem (mem : Nat → UInt8) (a : Nat) (bytes : List UInt8) : Nat → UInt8 :=
  fun x => if a ≤ x ∧ x < a + bytes.length then bytes.getD (x - a) 0 else mem x

@[simp] theorem readMem_zero (mem : Nat → UInt8) (a : Nat) : readMem mem a 0 = [] := rfl

@[simp] theorem readMem_length (mem : Nat → UInt8) (a n : Nat) :
    (readMem mem a n).length = n := by
  simp [readMem]

theorem readMem_add (mem : Nat → UInt8) (a n m : Nat) :
    readMem mem a (n + m) = readMem mem a n ++ readMem mem (a + n) m := by
  simp only [readMem, List.range_add, List.map_append, List.map_map]
  congr 1
  refine List.map_congr_left fun i _ => ?_
  simp [Nat.add_assoc]

theorem readMem_congr {mem mem' : Nat → UInt8} {a n : Nat}
    (h : ∀ x, a ≤ x → x < a + n → mem x = mem' x) : readMem mem a n = readMem mem' a n := by
  refine List.map_congr_left fun i hi => ?_
  have := List.mem_range.mp hi
  exact h (a + i) (by omega) (by omega)

/-- A copy is read back. -/
theorem readMem_writeMem_same (mem : Nat → UInt8) (a : Nat) (bytes : List UInt8) :
    readMem (writeMem mem a bytes) a bytes.length = bytes := by
  refine List.ext_getElem (by simp) fun i h1 h2 => ?_
  simp only [readMem, List.getElem_map, List.getElem_range, writeMem]
  rw [if_pos ⟨by omega, by omega⟩, Nat.add_sub_cancel_left]
  simp [List.getD_eq_getElem?_getD, List.getElem?_eq_getElem h2]

/-- **A copy leaves every disjoint region alone.** -/
theorem readMem_writeMem_disjoint {mem : Nat → UInt8} {a b n : Nat} {bytes : List UInt8}
    (h : b + n ≤ a ∨ a + bytes.length ≤ b) :
    readMem (writeMem mem a bytes) b n = readMem mem b n := by
  refine readMem_congr fun x h1 h2 => ?_
  simp only [writeMem]
  rw [if_neg]
  omega

/-- **A copy that starts where the contents end appends to them.** -/
theorem readMem_writeMem_append (mem : Nat → UInt8) (a n : Nat) (bytes : List UInt8) :
    readMem (writeMem mem (a + n) bytes) a (n + bytes.length) = readMem mem a n ++ bytes := by
  rw [readMem_add, readMem_writeMem_same, readMem_writeMem_disjoint (Or.inl (Nat.le_refl _))]

/-! ## 2. Absolute positions in a ring of `n` slots -/

/-- Two positions of one window that share a slot are the same position. -/
theorem window_mod_inj {n c a b : Nat} (ha : c ≤ a) (ha' : a < c + n) (hb : c ≤ b)
    (hb' : b < c + n) (h : a % n = b % n) : a = b := by
  rcases Nat.le_total a b with hab | hab
  · have hd : n ∣ b - a := (Nat.modEq_iff_dvd' hab).mp h
    have := Nat.eq_zero_of_dvd_of_lt hd (by omega)
    omega
  · have hd : n ∣ a - b := (Nat.modEq_iff_dvd' hab).mp h.symm
    have := Nat.eq_zero_of_dvd_of_lt hd (by omega)
    omega

/-- Every slot has a position in the window. -/
theorem window_exists {n : Nat} (c : Nat) {j : Nat} (hj : j < n) :
    ∃ b, c ≤ b ∧ b < c + n ∧ b % n = j := by
  have hc : c % n < n := Nat.mod_lt _ (by omega)
  have hcd : n * (c / n) + c % n = c := Nat.div_add_mod c n
  by_cases h : c % n ≤ j
  · refine ⟨n * (c / n) + j, by omega, by omega, ?_⟩
    rw [Nat.mul_add_mod, Nat.mod_eq_of_lt hj]
  · refine ⟨n * (c / n) + n + j, by omega, by omega, ?_⟩
    rw [Nat.add_assoc, Nat.mul_add_mod, Nat.add_mod_left, Nat.mod_eq_of_lt hj]

end Memory
