/-
# Integers and arrays of the Java language

`int` and `long` are integers in two's complement; an array is the list of its elements, and an
access out of range throws.

Arrays are mostly filled from the left, one element after the other.  `Filled xs n a` says that
`xs` has been written to an array of length `n`; `Filled.store` is one more element.
-/
import Mathlib.Algebra.Ring.Int.Defs
import Mathlib.Algebra.Ring.Nat
import Mathlib.Data.List.Basic

namespace Java

universe u

variable {α β : Type u} {ε : Type*}

/-! ## 1. Integers -/

/-- An integer as an `int`. -/
def wrapInt (n : Int) : Int := Int.bmod n (2 ^ 32)

/-- An integer as a `long`. -/
def wrapLong (n : Int) : Int := Int.bmod n (2 ^ 64)

theorem wrapInt_eq {n : Int} (h : -2147483648 ≤ n) (h' : n < 2147483648) : wrapInt n = n := by
  unfold wrapInt
  rw [Int.bmod_eq_of_le] <;> omega

theorem wrapLong_eq {n : Int} (h : -9223372036854775808 ≤ n) (h' : n < 9223372036854775808) :
    wrapLong n = n := by
  unfold wrapLong
  rw [Int.bmod_eq_of_le] <;> omega

/-! ## 2. Arrays -/

/-- `a[i]`. -/
def load (outOfBounds : ε) (a : List α) (i : Int) : Except ε α :=
  if i < 0 then .error outOfBounds
  else
    match a[i.toNat]? with
    | some v => .ok v
    | none => .error outOfBounds

/-- `a[i] = v`. -/
def store (outOfBounds : ε) (a : List α) (i : Int) (v : α) : Except ε (List α) :=
  if i < 0 ∨ a.length ≤ i then .error outOfBounds else .ok (a.set i.toNat v)

/-- `new long[n]`. -/
def newArray (negativeSize : ε) (n : Int) : Except ε (List Int) :=
  if n < 0 then .error negativeSize else .ok (List.replicate n.toNat 0)

theorem load_natCast {a : List α} {i : Nat} (outOfBounds : ε) (h : i < a.length) :
    load outOfBounds a i = .ok a[i] := by
  rw [load, if_neg (by omega), Int.toNat_natCast, List.getElem?_eq_getElem h]

theorem newArray_natCast (negativeSize : ε) (n : Nat) :
    newArray negativeSize n = .ok (List.replicate n 0) := by
  rw [newArray, if_neg (by omega), Int.toNat_natCast]

/-- `xs` has been written to an array of length `n`. -/
def Filled (xs : List Int) (n : Nat) (a : List Int) : Prop :=
  xs.length ≤ n ∧ a = xs ++ List.replicate (n - xs.length) 0

theorem Filled.nil (n : Nat) : Filled [] n (List.replicate n 0) := ⟨Nat.zero_le n, rfl⟩

theorem Filled.full {xs a : List Int} (h : Filled xs xs.length a) : a = xs := by
  rw [h.2, Nat.sub_self, List.replicate_zero, List.append_nil]

/-- The next element. -/
theorem Filled.store {xs a : List Int} {n : Nat} (h : Filled xs n a) (outOfBounds : ε)
    (hlt : xs.length < n) (v : Int) :
    ∃ a', store outOfBounds a xs.length v = .ok a' ∧ Filled (xs ++ [v]) n a' := by
  have hlen : a.length = n := by
    rw [h.2, List.length_append, List.length_replicate]
    omega
  refine ⟨a.set xs.length v, ?_, ?_, ?_⟩
  · rw [Java.store, if_neg (by omega), Int.toNat_natCast]
  · rw [List.length_append, List.length_singleton]
    exact hlt
  · have hrest : n - xs.length = (n - (xs ++ [v]).length) + 1 := by
      rw [List.length_append, List.length_singleton]
      omega
    rw [h.2, List.set_append_right _ _ (Nat.le_refl _), Nat.sub_self, hrest, List.replicate_succ,
      List.set_cons_zero, List.append_assoc]
    rfl

end Java
