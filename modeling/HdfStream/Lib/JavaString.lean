/-
# Strings of the Java library

A Java string as the list of its characters, and the methods of `String` and `Long` that the
Java side uses on configuration files and paths.  A character outside the basic plane is one
element here and two `char`s in Java; no method below tells the difference.
-/
import HdfStream.Lib.Separated
import Mathlib.Algebra.Ring.Int.Defs
import Mathlib.Algebra.Ring.Nat
import Mathlib.Data.List.Defs
import Mathlib.Data.List.DropRight
import Mathlib.Data.List.TakeWhile

namespace Java

/-- A Java string. -/
abbrev JString := List Char

/-- A string literal. -/
def lit (s : String) : JString := s.toList

/-- `String.trim`: without the leading and trailing characters up to U+0020. -/
def trim (s : JString) : JString :=
  let blank := fun c : Char => decide (c ≤ ' ')
  ((s.dropWhile blank).reverse.dropWhile blank).reverse

/-- A blank string. -/
theorem trim_eq_nil_iff {s : JString} : trim s = [] ↔ ∀ c ∈ s, c ≤ ' ' := by
  unfold trim
  rw [List.reverse_eq_nil_iff, List.dropWhile_eq_nil_iff]
  constructor
  · intro h c hc
    by_contra hblank
    have hne : s.dropWhile (fun c => decide (c ≤ ' ')) ≠ [] := by
      intro hnil
      exact hblank (of_decide_eq_true (List.dropWhile_eq_nil_iff.mp hnil c hc))
    have hhead := List.head_dropWhile_not (fun c : Char => decide (c ≤ ' ')) hne
    have hall := h _ (List.mem_reverse.mpr (List.head_mem hne))
    rw [hhead] at hall
    cases hall
  · intro h c hc
    exact decide_eq_true (h c ((List.dropWhile_suffix _).mem (List.mem_reverse.mp hc)))

/-- A string without blanks. -/
theorem trim_eq_self {s : JString} (h : ∀ c ∈ s, ¬ c ≤ ' ') : trim s = s := by
  have hdrop : ∀ l : JString, (∀ c ∈ l, ¬ c ≤ ' ') → l.dropWhile (fun c => decide (c ≤ ' '))
    = l := by
    intro l hl
    refine List.dropWhile_eq_self_iff.mpr fun hpos => ?_
    rw [decide_eq_true_eq]
    exact hl _ (List.getElem_mem hpos)
  unfold trim
  dsimp only
  rw [hdrop s h, hdrop _ fun c hc => h c (List.mem_reverse.mp hc), List.reverse_reverse]

/-- There is nothing left to trim. -/
theorem trim_trim (s : JString) : trim (trim s) = trim s := by
  have hidem : ∀ u : JString, (∀ hpos : 0 < u.length, ¬ u[0] ≤ ' ') → trim u =
      u.rdropWhile fun c => decide (c ≤ ' ') := fun u hu => by
    have hdrop : u.dropWhile (fun c => decide (c ≤ ' ')) = u :=
      List.dropWhile_eq_self_iff.mpr fun hpos => by
        rw [decide_eq_true_eq]
        exact hu hpos
    exact congrArg (List.rdropWhile fun c => decide (c ≤ ' ')) hdrop
  -- the first character of what is left is not blank
  have hhead : ∀ hpos : 0 < (trim s).length, ¬ (trim s)[0] ≤ ' ' := by
    intro hpos hblank
    have hprefix : trim s <+: s.dropWhile fun c => decide (c ≤ ' ') :=
      List.rdropWhile_prefix _ _
    have hne : s.dropWhile (fun c => decide (c ≤ ' ')) ≠ [] := fun hnil => by
      rw [hnil] at hprefix
      rw [List.prefix_nil.mp hprefix] at hpos
      exact absurd hpos (Nat.lt_irrefl 0)
    have hfirst := List.head_dropWhile_not (fun c : Char => decide (c ≤ ' ')) hne
    rw [List.head_eq_getElem, ← hprefix.getElem hpos] at hfirst
    exact of_decide_eq_false hfirst hblank
  rw [hidem _ hhead]
  exact List.rdropWhile_idempotent _ _

/-- `String.split` at one character: trailing empty strings are removed, and a string without
the character is its only piece. -/
def split (sep : Char) (s : JString) : List JString :=
  if sep ∈ s then ((s.splitOn sep).reverse.dropWhile List.isEmpty).reverse else [s]

/-- The pieces of a string, but for the empty ones at its end. -/
theorem split_of_separated {sep : Char} {s : JString} {pieces : List JString}
    (h : Separated sep s pieces) (hlen : 1 < pieces.length) :
    split sep s = pieces.rdropWhile List.isEmpty := by
  have hsep : sep ∈ s := by
    rcases pieces with _ | ⟨p, _ | ⟨q, pieces⟩⟩
    · exact absurd hlen (by decide)
    · exact absurd hlen (Nat.lt_irrefl 1)
    · rw [h.eq, List.intercalate_cons_cons]
      exact List.mem_append_left _ (List.mem_append_right _ (List.mem_singleton.mpr rfl))
  rw [split, if_pos hsep, separated_iff.mp h]
  rfl

/-- What is removed at the end of a list that is put together. -/
theorem rdropWhile_append {α : Type*} (p : α → Bool) (l l' : List α) :
    (l ++ l').rdropWhile p = if l'.rdropWhile p = [] then l.rdropWhile p else l ++
      l'.rdropWhile p := by
  rw [List.rdropWhile, List.reverse_append, List.dropWhile_append]
  simp only [List.isEmpty_iff, List.rdropWhile, List.reverse_eq_nil_iff]
  split
  · rfl
  · rw [List.reverse_append, List.reverse_reverse]

/-- A string whose pieces are not empty. -/
theorem split_of_nonempty {sep : Char} {s : JString} {pieces : List JString}
    (h : Separated sep s pieces) (hne : ∀ p ∈ pieces, p ≠ []) : split sep s = pieces := by
  rcases pieces with _ | ⟨p, _ | ⟨q, pieces⟩⟩
  · exact absurd rfl h.ne_nil
  · obtain ⟨rfl, hfree⟩ := separated_singleton.mp h
    rw [split, if_neg hfree]
  · rw [split_of_separated h (by simp only [List.length_cons]; omega)]
    refine List.rdropWhile_eq_self_iff.mpr fun hl => ?_
    rw [List.isEmpty_iff]
    exact hne _ (List.getLast_mem hl)

/-- `String.startsWith` of one character. -/
def startsWith (s : JString) (c : Char) : Bool := s.head? == some c

/-- `String.endsWith` of one character. -/
def endsWith (s : JString) (c : Char) : Bool := s.getLast? == some c

/-! ## 1. `Long.valueOf` -/

/-- The zeros of the decimal digits that are one `char`. -/
def decimalZeros : List Nat :=
  [0x0030, 0x0660, 0x06F0, 0x07C0, 0x0966, 0x09E6, 0x0A66, 0x0AE6, 0x0B66, 0x0BE6, 0x0C66,
   0x0CE6, 0x0D66, 0x0DE6, 0x0E50, 0x0ED0, 0x0F20, 0x1040, 0x1090, 0x17E0, 0x1810, 0x1946,
   0x19D0, 0x1A80, 0x1A90, 0x1B50, 0x1BB0, 0x1C40, 0x1C50, 0xA620, 0xA8D0, 0xA900, 0xA9D0,
   0xA9F0, 0xAA50, 0xABF0, 0xFF10]

/-- `Character.digit(c, 10)`; `none` is -1. -/
def digit (c : Char) : Option Nat :=
  (decimalZeros.find? fun z => decide (z ≤ c.toNat) && decide (c.toNat < z + 10)).map
    fun z => c.toNat - z

/-- The number a string of digits stands for. -/
def digits (s : JString) : Option Nat :=
  s.foldl (fun acc c => do return 10 * (← acc) + (← digit c)) (some 0)

/-- The message of the `NumberFormatException` for `s`. -/
def numberFormatMessage (s : JString) : JString := lit "For input string: \"" ++ s ++ lit "\""

/-- The number a string stands for: an optional sign, and digits. -/
def number : JString → Option Int
  | [] => none
  | ['-'] => none
  | ['+'] => none
  | '-' :: cs => (digits cs).map fun n : Nat => -(n : Int)
  | '+' :: cs => (digits cs).map Int.ofNat
  | cs => (digits cs).map Int.ofNat

/-- `Long.valueOf`: a number that fits a `long`. -/
def valueOfLong (s : JString) : Except JString (BitVec 64) :=
  match number s with
  | some n =>
    if -2 ^ 63 ≤ n ∧ n < 2 ^ 63 then .ok (BitVec.ofInt 64 n) else .error (numberFormatMessage s)
  | none => .error (numberFormatMessage s)

/-- `Integer.valueOf`: a number that fits an `int`. -/
def valueOfInt (s : JString) : Except JString (BitVec 32) :=
  match number s with
  | some n =>
    if -2 ^ 31 ≤ n ∧ n < 2 ^ 31 then .ok (BitVec.ofInt 32 n) else .error (numberFormatMessage s)
  | none => .error (numberFormatMessage s)

/-- `Integer.toString` and `Long.toString`. -/
def decimal (n : Int) : JString :=
  if n < 0 then '-' :: Nat.toDigits 10 n.natAbs else Nat.toDigits 10 n.natAbs

/-! ## 2. Lengths and bytes -/

/-- `String.length`: a character outside the basic plane counts twice. -/
def charLength (s : JString) : Nat := (s.map fun c => if c.toNat < 65536 then 1 else 2).sum

/-- `getBytes(UTF_8)`. -/
def utf8 (s : JString) : List UInt8 := s.flatMap String.utf8EncodeChar

/-- `new String(bytes, UTF_8)`; `malformed` is what it makes of bytes that are not UTF-8. -/
def ofUtf8 (malformed : List UInt8 → JString) (bytes : List UInt8) : JString :=
  match String.fromUTF8? bytes.toByteArray with
  | some s => s.toList
  | none => malformed bytes

theorem ofUtf8_utf8 (malformed : List UInt8 → JString) (s : JString) :
    ofUtf8 malformed (utf8 s) = s := by
  have hbytes : (utf8 s).toByteArray.IsValidUTF8 := (String.ofList s).isValidUTF8
  have hvalid : String.fromUTF8? (utf8 s).toByteArray = some (String.ofList s) := dif_pos hbytes
  rw [ofUtf8, hvalid]
  exact String.toList_ofList

/-- A string of single-byte characters has as many bytes as characters. -/
theorem utf8_length_of_ascii {s : JString} (h : ∀ c ∈ s, c.toNat ≤ 127) :
    (utf8 s).length = charLength s := by
  induction s with
  | nil => rfl
  | cons c s ih =>
    have hc := h c List.mem_cons_self
    have hbytes : (String.utf8EncodeChar c).length = 1 := by
      rw [String.length_utf8EncodeChar]
      exact Char.utf8Size_eq_one_iff.mpr (UInt32.le_iff_toNat_le.mpr hc)
    rw [utf8, List.flatMap_cons, List.length_append, hbytes, charLength, List.map_cons,
      List.sum_cons, if_pos (by omega)]
    exact congrArg (1 + ·) (ih fun c hc => h c (List.mem_cons_of_mem _ hc))

/-! ## 3. Decimals -/

theorem digit_of_isDigit {c : Char} (h : c.isDigit = true) : digit c = some
    (c.toNat - '0'.toNat) := by
  simp only [Char.isDigit, Bool.and_eq_true, decide_eq_true_eq] at h
  have hge : 48 ≤ c.toNat := UInt32.le_iff_toNat_le.mp h.1
  have hle : c.toNat ≤ 57 := UInt32.le_iff_toNat_le.mp h.2
  rw [digit, decimalZeros, List.find?_cons_of_pos]
  · rfl
  · rw [Bool.and_eq_true, decide_eq_true_eq, decide_eq_true_eq]
    omega

theorem digits_toDigits (n : Nat) : digits (Nat.toDigits 10 n) = some n := by
  have hfold : ∀ (s : JString) (acc : Nat), (∀ c ∈ s, c.isDigit = true) →
      s.foldl (fun acc c => do return 10 * (← acc) + (← digit c)) (some acc) =
        some (s.foldl (fun acc c => 10 * acc + (c.toNat - '0'.toNat)) acc) := by
    intro s
    induction s with
    | nil => intro acc _; rfl
    | cons c s ih =>
      intro acc h
      rw [List.foldl_cons, List.foldl_cons]
      simp only [digit_of_isDigit (h c List.mem_cons_self)]
      exact ih _ fun c hc => h c (List.mem_cons_of_mem _ hc)
  rw [digits, hfold _ 0 fun c hc => Nat.isDigit_of_mem_toDigits (by decide) (by decide) hc,
    ← Nat.ofDigitChars_eq_foldl, Nat.ofDigitChars_ten_toDigits]

/-- **A decimal is read back.** -/
theorem number_decimal (n : Int) : number (decimal n) = some n := by
  have hdigits := digits_toDigits n.natAbs
  have hne : Nat.toDigits 10 n.natAbs ≠ [] := Nat.toDigits_ne_nil
  have hdigit : ∀ c ∈ Nat.toDigits 10 n.natAbs, c.isDigit = true := fun c hc =>
    Nat.isDigit_of_mem_toDigits (by decide) (by decide) hc
  rw [decimal]
  generalize Nat.toDigits 10 n.natAbs = ds at hdigits hne hdigit
  rcases ds with _ | ⟨d, ds⟩
  · exact absurd rfl hne
  split
  · rename_i hneg
    rw [number, hdigits, Option.map_some]
    · exact congrArg some (by omega)
    · exact fun h => by cases h
  · rename_i hpos
    have hd := hdigit d List.mem_cons_self
    rw [number, hdigits, Option.map_some]
    · exact congrArg some (Int.natAbs_of_nonneg (by omega))
    all_goals
      intros
      simp_all

example : split ',' (lit "a,,b,,") = [lit "a", [], lit "b"] := by decide +kernel

example : (valueOfLong (lit "-12")).toOption = some (-12) := by decide +kernel

end Java
