/-
# MessagePack values

A MessagePack value, and the calls of a packer that write it (`Value.tokens`): a header announces
how many values follow, nothing closes a map or an array.  Nevertheless the calls for a value
determine it, whatever is packed after it (`tokens_append_inj`).

The strings are a parameter: bytes for a C packer, characters for a Java one.
-/
import Mathlib.Algebra.Ring.Int.Defs
import Mathlib.Algebra.Ring.Nat
import Mathlib.Data.List.Basic

namespace Msgpack

/-- A value. -/
inductive Value (σ : Type*) where
  | nil
  | bool (b : Bool)
  | int (n : Int)
  | str (s : σ)
  | bin (bytes : List UInt8)
  | array (items : List (Value σ))
  | map (entries : List (Value σ × Value σ))

/-- A call of the packer; a string or a binary is packed with its body. -/
inductive Token (σ : Type*) where
  | nil
  | bool (b : Bool)
  | int (n : Int)
  | str (s : σ)
  | bin (bytes : List UInt8)
  | arrayHeader (n : Nat)
  | mapHeader (n : Nat)
deriving DecidableEq

variable {σ : Type*}

namespace Value

mutual

/-- Induction over the value: what holds of a value if it holds of its items, keys and entries
holds. -/
theorem induction {P : Value σ → Prop} (hnil : P nil) (hbool : ∀ b, P (bool b))
    (hint : ∀ n, P (int n)) (hstr : ∀ s, P (str s)) (hbin : ∀ bytes, P (bin bytes))
    (harray : ∀ items, (∀ v ∈ items, P v) → P (array items))
    (hmap : ∀ entries, (∀ e ∈ entries, P e.1 ∧ P e.2) → P (map entries)) : ∀ v, P v
  | nil => hnil
  | bool b => hbool b
  | int n => hint n
  | str s => hstr s
  | bin bytes => hbin bytes
  | array items => harray items (induction_items hnil hbool hint hstr hbin harray hmap items)
  | map entries => hmap entries (induction_entries hnil hbool hint hstr hbin harray hmap entries)

theorem induction_items {P : Value σ → Prop} (hnil : P nil) (hbool : ∀ b, P (bool b))
    (hint : ∀ n, P (int n)) (hstr : ∀ s, P (str s)) (hbin : ∀ bytes, P (bin bytes))
    (harray : ∀ items, (∀ v ∈ items, P v) → P (array items))
    (hmap : ∀ entries, (∀ e ∈ entries, P e.1 ∧ P e.2) → P (map entries)) :
    ∀ items : List (Value σ), ∀ v ∈ items, P v
  | [], v, hv => by cases hv
  | v' :: items, v, hv => by
    rcases List.mem_cons.mp hv with heq | hv
    · exact heq ▸ induction hnil hbool hint hstr hbin harray hmap v'
    · exact induction_items hnil hbool hint hstr hbin harray hmap items v hv

theorem induction_entries {P : Value σ → Prop} (hnil : P nil) (hbool : ∀ b, P (bool b))
    (hint : ∀ n, P (int n)) (hstr : ∀ s, P (str s)) (hbin : ∀ bytes, P (bin bytes))
    (harray : ∀ items, (∀ v ∈ items, P v) → P (array items))
    (hmap : ∀ entries, (∀ e ∈ entries, P e.1 ∧ P e.2) → P (map entries)) :
    ∀ entries : List (Value σ × Value σ), ∀ e ∈ entries, P e.1 ∧ P e.2
  | [], e, he => by cases he
  | (k, v) :: entries, e, he => by
    rcases List.mem_cons.mp he with rfl | he
    · exact ⟨induction hnil hbool hint hstr hbin harray hmap k,
        induction hnil hbool hint hstr hbin harray hmap v⟩
    · exact induction_entries hnil hbool hint hstr hbin harray hmap entries e he

end

/-! ## 1. Packing -/

mutual

/-- The calls that pack a value. -/
def tokens : Value σ → List (Token σ)
  | nil => [.nil]
  | bool b => [.bool b]
  | int n => [.int n]
  | str s => [.str s]
  | bin bytes => [.bin bytes]
  | array items => .arrayHeader items.length :: itemTokens items
  | map entries => .mapHeader entries.length :: entryTokens entries

/-- The calls that pack the items of an array. -/
def itemTokens : List (Value σ) → List (Token σ)
  | [] => []
  | v :: items => tokens v ++ itemTokens items

/-- The calls that pack the entries of a map. -/
def entryTokens : List (Value σ × Value σ) → List (Token σ)
  | [] => []
  | (k, v) :: entries => tokens k ++ tokens v ++ entryTokens entries

end

@[simp] theorem tokens_nil : (nil : Value σ).tokens = [.nil] := rfl

@[simp] theorem tokens_bool (b : Bool) : (bool b : Value σ).tokens = [.bool b] := rfl

@[simp] theorem tokens_int (n : Int) : (int n : Value σ).tokens = [.int n] := rfl

@[simp] theorem tokens_str (s : σ) : (str s).tokens = [.str s] := rfl

@[simp] theorem tokens_bin (bytes : List UInt8) : (bin bytes : Value σ).tokens = [.bin bytes] := rfl

theorem itemTokens_eq (items : List (Value σ)) : itemTokens items = items.flatMap tokens := by
  induction items with
  | nil => rfl
  | cons v items ih => rw [itemTokens, ih, List.flatMap_cons]

theorem entryTokens_eq (entries : List (Value σ × Value σ)) :
    entryTokens entries = entries.flatMap fun e => e.1.tokens ++ e.2.tokens := by
  induction entries with
  | nil => rfl
  | cons e entries ih => rw [entryTokens, ih, List.flatMap_cons]

@[simp] theorem tokens_array (items : List (Value σ)) :
    (array items).tokens = .arrayHeader items.length :: items.flatMap tokens := by
  rw [tokens, itemTokens_eq]

@[simp] theorem tokens_map (entries : List (Value σ × Value σ)) :
    (map entries).tokens =
      .mapHeader entries.length :: entries.flatMap fun e => e.1.tokens ++ e.2.tokens := by
  rw [tokens, entryTokens_eq]

/-! ## 2. Reading -/

/-- Lists of the same length, packed one item after the other, whose items can be read back. -/
theorem flatMap_append_inj {α β : Type*} {f : α → List β} {xs ys : List α} {r s : List β}
    (hf : ∀ x ∈ xs, ∀ y r s, f x ++ r = f y ++ s → x = y ∧ r = s)
    (hlen : xs.length = ys.length) (h : xs.flatMap f ++ r = ys.flatMap f ++ s) :
    xs = ys ∧ r = s := by
  induction xs generalizing ys with
  | nil =>
    cases ys with
    | nil => exact ⟨rfl, h⟩
    | cons y ys => cases hlen
  | cons x xs ih =>
    cases ys with
    | nil => cases hlen
    | cons y ys =>
      rw [List.flatMap_cons, List.flatMap_cons, List.append_assoc, List.append_assoc] at h
      obtain ⟨rfl, hrest⟩ := hf x List.mem_cons_self y _ _ h
      obtain ⟨rfl, hr⟩ := ih (fun x hx => hf x (List.mem_cons_of_mem _ hx))
        (Nat.succ.inj hlen) hrest
      exact ⟨rfl, hr⟩

/-- **The calls for a value determine it**, whatever is packed after it. -/
theorem tokens_append_inj {v w : Value σ} {r s : List (Token σ)}
    (h : v.tokens ++ r = w.tokens ++ s) : v = w ∧ r = s := by
  induction v using induction generalizing w r s with
  | hnil =>
    cases w <;> simp at h
    exact ⟨rfl, h⟩
  | hbool b =>
    cases w <;> simp at h
    exact ⟨congrArg bool h.1, h.2⟩
  | hint n =>
    cases w <;> simp at h
    exact ⟨congrArg int h.1, h.2⟩
  | hstr t =>
    cases w <;> simp at h
    exact ⟨congrArg str h.1, h.2⟩
  | hbin bytes =>
    cases w <;> simp at h
    exact ⟨congrArg bin h.1, h.2⟩
  | harray items ih =>
    cases w with
    | array items' =>
      simp only [tokens_array, List.cons_append, List.cons.injEq, Token.arrayHeader.injEq] at h
      obtain ⟨rfl, hr⟩ := flatMap_append_inj (fun v hv w r s => ih v hv) h.1 h.2
      exact ⟨rfl, hr⟩
    | _ => simp at h
  | hmap entries ih =>
    cases w with
    | map entries' =>
      simp only [tokens_map, List.cons_append, List.cons.injEq, Token.mapHeader.injEq] at h
      have hentry : ∀ e ∈ entries, ∀ e' r s, e.1.tokens ++ e.2.tokens ++ r =
          e'.1.tokens ++ e'.2.tokens ++ s → e = e' ∧ r = s := by
        intro e he e' r s heq
        rw [List.append_assoc, List.append_assoc] at heq
        obtain ⟨hkey, heq⟩ := (ih e he).1 heq
        obtain ⟨hval, heq⟩ := (ih e he).2 heq
        exact ⟨Prod.ext hkey hval, heq⟩
      obtain ⟨rfl, hr⟩ := flatMap_append_inj hentry h.1 h.2
      exact ⟨rfl, hr⟩
    | _ => simp at h

theorem tokens_inj {v w : Value σ} (h : v.tokens = w.tokens) : v = w :=
  (tokens_append_inj (r := []) (s := []) (by rw [h])).1

end Value

end Msgpack
