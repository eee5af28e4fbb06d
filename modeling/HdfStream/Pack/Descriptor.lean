/-
# The descriptor identifies the type

The comment at `pack_numpy_type` gives a grammar for the descriptor of a type: a string for a
scalar type, an element type and dimensions for an array type, and for a compound type a list of
fields, each a name, a type, and the dimensions if the field is an array.  `descriptor` is this
grammar for the types of fixed size, and it tells types apart (`decodeType_descriptor`).

`pack_numpy_type` follows the grammar for a type exactly if `numpy_type_info` knows the orders and
signs of its numbers (`Datatype.numpy`), if no field in it is of a compound type or an array of
something else than compound elements, and if the sizes are small enough for the buffer of
`numpy_type_info` (`Datatype.followed`).  A field of a compound type loses its name, and an array
field has its name twice.
-/
import HdfStream.Pack.Datatype

namespace HdfStream.Pack

open Msgpack

/-! ## 1. The grammar -/

namespace Datatype

mutual

/-- The type is made of integers, enums, floats and strings of fixed size. -/
def fixedSize : Datatype → Bool
  | integer .. => true
  | enum .. => true
  | float .. => true
  | string _ variableStr => !variableStr
  | array _ super => super.fixedSize
  | compound members => fixedSizeMembers members
  | vlen _ => false
  | other _ => false

def fixedSizeMembers : List (Bytes × Datatype) → Bool
  | [] => true
  | (_, t) :: members => t.fixedSize && fixedSizeMembers members

end

mutual

/-- The type with integers for enums. -/
def normalize : Datatype → Datatype
  | enum size order sign => integer size order sign
  | array dims super => array dims super.normalize
  | compound members => compound (normalizeMembers members)
  | t => t

def normalizeMembers : List (Bytes × Datatype) → List (Bytes × Datatype)
  | [] => []
  | (name, t) :: members => (name, t.normalize) :: normalizeMembers members

end

end Datatype

/-- The type string of a number. -/
def numberText (size : UInt64) (order : Order) (kind : Bytes) : Bytes :=
  (orderChar order).getD [] ++ kind ++ decimal size.toNat

/-- The type string of a string. -/
def stringText (size : UInt64) : Bytes := ascii "S" ++ decimal size.toNat

def dimsValue (dims : List UInt64) : Value Bytes := intsValue (dims.map fun d => (d.toNat : Int))

/-- What follows the name of a field: the type, or the element type and the dimensions. -/
def fieldItems : Datatype → Value Bytes → List (Value Bytes)
  | .array .., .array items => items
  | _, v => [v]

mutual

/-- The descriptor of a type of fixed size. -/
def descriptor : Datatype → Value Bytes
  | .integer size order sign => .str (numberText size order ((signKind sign).getD []))
  | .enum size order sign => .str (numberText size order ((signKind sign).getD []))
  | .float size order => .str (numberText size order (ascii "f"))
  | .string size _ => .str (stringText size)
  | .array dims super => .array [descriptor super, dimsValue dims]
  | .compound members => .array (fieldDescriptors members)
  | .vlen _ => .nil
  | .other _ => .nil

/-- The descriptors of the fields of a compound type. -/
def fieldDescriptors : List (Bytes × Datatype) → List (Value Bytes)
  | [] => []
  | (name, t) :: members =>
    .array (.str name :: fieldItems t (descriptor t)) :: fieldDescriptors members

end

namespace Datatype

/-- The name of a field of this type is packed where the grammar has it. -/
def fieldNamed : Datatype → Bool
  | compound _ => false
  | array _ (compound _) => true
  | array _ _ => false
  | _ => true

mutual

/-- `pack_numpy_type` follows the grammar. -/
def followed : Datatype → Bool
  | integer size _ _ => decide (size.toNat < 10 ^ 7)
  | enum size _ _ => decide (size.toNat < 10 ^ 7)
  | float size _ => decide (size.toNat < 10 ^ 7)
  | string size _ => decide (size.toNat < 10 ^ 8)
  | array dims super => (dims.all fun d => decide (d.toNat < 2 ^ 63)) && super.followed
  | compound members => followedMembers members
  | vlen _ => false
  | other _ => false

def followedMembers : List (Bytes × Datatype) → Bool
  | [] => true
  | (_, t) :: members => t.fieldNamed && t.followed && followedMembers members

end

end Datatype

open Datatype

theorem numpy_of_mem {members : List (Bytes × Datatype)}
    (h : numpyMembers members = true) : ∀ m ∈ members, m.2.numpy = true := by
  induction members with
  | nil => exact fun m hm => by cases hm
  | cons m members ih =>
    obtain ⟨name, t⟩ := m
    obtain ⟨ht, hmembers⟩ := (Bool.and_eq_true _ _).mp h
    intro m hm
    rcases List.mem_cons.mp hm with rfl | hm
    · exact ht
    · exact ih hmembers m hm

/-! ## 2. Type strings -/

theorem decimal_natCast (n : Nat) :
    decimal n = (Nat.toDigits 10 n).map fun c => UInt8.ofNat c.toNat := by
  rw [decimal, if_neg (by omega), Int.natAbs_natCast]

theorem digit_toNat {c : Char} (h : c.isDigit = true) : (UInt8.ofNat c.toNat).toNat = c.toNat := by
  simp only [Char.isDigit, Bool.and_eq_true, decide_eq_true_eq] at h
  have hle := UInt32.le_iff_toNat_le.mp h.2
  have hlt : c.toNat < 2 ^ 8 := Nat.lt_of_le_of_lt hle (by decide)
  rw [UInt8.toNat_ofNat', Nat.mod_eq_of_lt hlt]

/-- The number a decimal stands for. -/
theorem decimal_value (n : Nat) :
    (decimal n).foldl (fun acc b => 10 * acc + (b.toNat - '0'.toNat)) 0 = n := by
  rw [decimal_natCast, List.foldl_map]
  refine Eq.trans (List.foldl_ext _ _ 0 fun acc c hc => ?_) (Nat.ofDigitChars_ten_toDigits (n := n))
  rw [digit_toNat (Nat.isDigit_of_mem_toDigits (by decide) (by decide) hc)]

theorem length_decimal_le {n k : Nat} (hk : 0 < k) : (decimal n).length ≤ k ↔ n < 10 ^ k := by
  rw [decimal_natCast, List.length_map]
  exact Nat.length_toDigits_le_iff (by decide) hk

theorem toInt_eq {size : UInt64} (h : size.toNat < 2 ^ 31) : toInt size = size.toNat :=
  Int.bmod_eq_of_le_mul_two (by omega) (by omega)

/-- The type string that is packed is the full one if and only if the size has few digits. -/
theorem snprintf_eq_iff {size : UInt64} {head : Bytes} {k : Nat} (hk : 0 < k)
    (hlen : head.length + k = descrLen - 1) :
    snprintf descrLen (head ++ decimal (toInt size)) = head ++ decimal size.toNat ↔
      size.toNat < 10 ^ k := by
  rw [← length_decimal_le hk]
  constructor
  · intro h
    have hcut := congrArg List.length h
    rw [snprintf, List.length_take, List.length_append, List.length_append] at hcut
    omega
  · intro h
    have hsize := (length_decimal_le hk).mp h
    have hpow : 10 ^ k ≤ 10 ^ 9 := Nat.pow_le_pow_right (by decide)
      (by rw [descrLen] at hlen; omega)
    rw [toInt_eq (by omega), snprintf, List.take_of_length_le]
    rw [List.length_append]
    omega

theorem toLong_eq_iff {d : UInt64} : toLong d = d.toNat ↔ d.toNat < 2 ^ 63 := by
  constructor
  · intro h
    have hlt : toLong d < _ := Int.bmod_lt (Nat.two_pow_pos 64)
    rw [h] at hlt
    omega
  · exact fun h => Int.bmod_eq_of_le_mul_two (by omega) (by omega)

/-- The dimensions that are packed are those of the type if and only if they fit a `long`. -/
theorem dims_eq_iff {dims : List UInt64} :
    intsValue (dims.map toLong) = dimsValue dims ↔
      (dims.all fun d => decide (d.toNat < 2 ^ 63)) = true := by
  have hinj : Function.Injective (Value.int (σ := Bytes)) := fun _ _ h => Value.int.inj h
  rw [dimsValue, intsValue, intsValue, Value.array.injEq, (List.map_injective_iff.mpr hinj).eq_iff,
    List.map_inj_left, List.all_eq_true]
  simp only [toLong_eq_iff, decide_eq_true_eq]

/-! ## 3. What `pack_numpy_type` packs -/

/-- A scalar type: one string, with the name of the field before it. -/
structure ScalarText (t : Datatype) (cut full : Bytes) : Prop where
  packed : ∀ fieldName, packNumpyType t fieldName = some (packScalar fieldName cut)
  descriptor_eq : descriptor t = .str full
  items : fieldItems t (descriptor t) = [.str full]
  followed_iff : cut = full ↔ t.followed = true
  named : t.fieldNamed = true

theorem number_text (size : UInt64) {order : Order} {kind : Bytes} (hkind : kind.length = 1)
    (horder : (orderChar order).isSome = true) :
    ∃ cut, numberInfo size order kind = some cut ∧
      (cut = numberText size order kind ↔ size.toNat < 10 ^ 7) := by
  obtain ⟨endian, hendian⟩ := Option.isSome_iff_exists.mp horder
  have hlen : endian.length = 1 := by
    cases order <;> cases hendian <;> rfl
  refine ⟨_, by rw [numberInfo, hendian, Option.map_some], ?_⟩
  rw [numberText, hendian, Option.getD_some]
  exact snprintf_eq_iff (by decide) (by rw [List.length_append, hlen, hkind]; rfl)

theorem scalar_cases {t : Datatype} (ht : t.numpy = true) :
    (∃ cut full, ScalarText t cut full) ∨ (∃ dims super, t = .array dims super) ∨
      ∃ members, t = .compound members := by
  cases t with
  | integer size order sign =>
    obtain ⟨horder, hsign⟩ := (Bool.and_eq_true _ _).mp ht
    obtain ⟨kind, hkind⟩ := Option.isSome_iff_exists.mp hsign
    have hlen : kind.length = 1 := by cases sign <;> cases hkind <;> rfl
    obtain ⟨cut, hcut, hiff⟩ := number_text size hlen horder
    refine .inl ⟨cut, numberText size order kind, ?_, ?_, ?_, ?_, rfl⟩
    · intro fieldName
      rw [packNumpyType, numpyTypeInfo, hkind, Option.bind_some, hcut, Option.map_some]
    · rw [descriptor, hkind, Option.getD_some]
    · rw [descriptor, hkind, Option.getD_some]
      rfl
    · rw [hiff, followed, decide_eq_true_eq]
  | enum size order sign =>
    obtain ⟨horder, hsign⟩ := (Bool.and_eq_true _ _).mp ht
    obtain ⟨kind, hkind⟩ := Option.isSome_iff_exists.mp hsign
    have hlen : kind.length = 1 := by cases sign <;> cases hkind <;> rfl
    obtain ⟨cut, hcut, hiff⟩ := number_text size hlen horder
    refine .inl ⟨cut, numberText size order kind, ?_, ?_, ?_, ?_, rfl⟩
    · intro fieldName
      rw [packNumpyType, numpyTypeInfo, hkind, Option.bind_some, hcut, Option.map_some]
    · rw [descriptor, hkind, Option.getD_some]
    · rw [descriptor, hkind, Option.getD_some]
      rfl
    · rw [hiff, followed, decide_eq_true_eq]
  | float size order =>
    obtain ⟨cut, hcut, hiff⟩ := number_text size (show (ascii "f").length = 1 from rfl) ht
    refine .inl ⟨cut, numberText size order (ascii "f"), ?_, by rw [descriptor], ?_, ?_, rfl⟩
    · intro fieldName
      rw [packNumpyType, numpyTypeInfo, hcut, Option.map_some]
    · rw [descriptor]
      rfl
    · rw [hiff, followed, decide_eq_true_eq]
  | string size variableStr =>
    have hfixed : variableStr = false := by simpa only [numpy, Bool.not_eq_true'] using ht
    subst hfixed
    refine .inl ⟨snprintf descrLen (ascii "S" ++ decimal (toInt size)), stringText size, ?_,
      by rw [descriptor], ?_, ?_, rfl⟩
    · intro fieldName
      rw [packNumpyType, if_neg Bool.false_ne_true, numpyTypeInfo, if_neg Bool.false_ne_true,
        Option.map_some]
    · rw [descriptor]
      rfl
    · rw [followed, decide_eq_true_eq, stringText]
      exact snprintf_eq_iff (by decide) rfl
  | array dims super => exact .inr (.inl ⟨dims, super, rfl⟩)
  | compound members => exact .inr (.inr ⟨members, rfl⟩)
  | vlen super => cases ht
  | other size => cases ht

/-- What is packed for a type with a descriptor, on its own and as a field. -/
structure Packed (t : Datatype) : Prop where
  alone : ∃ v : Value Bytes, packNumpyType t none = some v.tokens ∧
    (v = descriptor t ↔ t.followed = true)
  field : ∀ name, ∃ items : List (Value Bytes),
    packNumpyType t (some name) = some (Value.array items).tokens ∧
    (items = .str name :: fieldItems t (descriptor t) ↔ (t.fieldNamed && t.followed) = true)

theorem ScalarText.toPacked {t : Datatype} {cut full : Bytes} (h : ScalarText t cut full) :
    Packed t where
  alone := by
    refine ⟨.str cut, h.packed none, ?_⟩
    rw [h.descriptor_eq, Value.str.injEq, h.followed_iff]
  field := by
    intro name
    refine ⟨[.str name, .str cut], ?_, ?_⟩
    · rw [h.packed, Value.tokens_array]
      rfl
    · rw [h.items, List.cons.injEq, List.cons.injEq, Value.str.injEq, h.named, Bool.true_and,
        ← h.followed_iff]
      simp only [true_and, and_true, Value.str.injEq]

/-- The members of a compound type are packed as arrays, one for each. -/
theorem packMembers_packed {members : List (Bytes × Datatype)} (h : ∀ m ∈ members, Packed m.2) :
    ∃ lists : List (List (Value Bytes)),
      packMembers members = some ((lists.map Value.array).flatMap Value.tokens) ∧
      lists.length = members.length ∧
      (lists.map Value.array = fieldDescriptors members ↔ followedMembers members = true) := by
  induction members with
  | nil => exact ⟨[], rfl, rfl, iff_of_true rfl rfl⟩
  | cons m members ih =>
    obtain ⟨name, t⟩ := m
    obtain ⟨items, hpack, hiff⟩ := (h (name, t) List.mem_cons_self).field name
    obtain ⟨lists, hrest, hlen, hrestIff⟩ := ih fun m hm => h m (List.mem_cons_of_mem _ hm)
    refine ⟨items :: lists, ?_, congrArg Nat.succ hlen, ?_⟩
    · rw [packMembers, hpack]
      dsimp only
      rw [hrest, Option.map_some, List.map_cons, List.flatMap_cons]
    · rw [List.map_cons, fieldDescriptors, List.cons.injEq, Value.array.injEq, hiff, hrestIff,
        followedMembers]
      simp only [Bool.and_eq_true]

theorem fieldNamed_array {dims : List UInt64} {super : Datatype}
    (h : ∀ members, super ≠ .compound members) : (Datatype.array dims super).fieldNamed =
      false := by
  cases super with
  | compound members => exact absurd rfl (h members)
  | _ => rfl

/-- An array field: the elements get the name of the field, too. -/
theorem packed_arrayField (dims : List UInt64) {super : Datatype} (ht : super.numpy = true)
    (h : Packed super) (name : Bytes) :
    ∃ items : List (Value Bytes),
      packNumpyType (.array dims super) (some name) = some (Value.array items).tokens ∧
      (items = [.str name, descriptor super, dimsValue dims] ↔
        ((Datatype.array dims super).fieldNamed && (Datatype.array dims super).followed) =
          true) := by
  -- unless the elements are compound, what stands for them is not their descriptor
  have hwrong : ∀ v : Value Bytes, packNumpyType super (some name) = some v.tokens →
      v ≠ descriptor super → (∀ members, super ≠ .compound members) →
      ∃ items : List (Value Bytes),
        packNumpyType (.array dims super) (some name) = some (Value.array items).tokens ∧
        (items = [.str name, descriptor super, dimsValue dims] ↔
          ((Datatype.array dims super).fieldNamed && (Datatype.array dims super).followed) =
            true) := by
    intro v hv hne hsuper
    refine ⟨_, packArray_tokens hv dims, ?_⟩
    rw [fieldNamed_array hsuper, Bool.false_and]
    refine iff_of_false (fun heq => hne ?_) Bool.false_ne_true
    exact (List.cons.inj (List.cons.inj heq).2).1
  rcases scalar_cases ht with ⟨cut, full, hscalar⟩ | ⟨dims', super', rfl⟩ | ⟨members, rfl⟩
  · obtain ⟨items, hitems, _⟩ := hscalar.toPacked.field name
    refine hwrong _ hitems ?_ ?_
    · rw [hscalar.descriptor_eq]
      exact fun heq => by cases heq
    · rintro members rfl
      have := hscalar.descriptor_eq
      rw [descriptor] at this
      cases this
  · obtain ⟨items, hitems, _⟩ := h.field name
    have hsuper' : ∃ ts, packNumpyType super' (some name) = some ts := by
      rw [packNumpyType] at hitems
      obtain ⟨element, helement, _⟩ := Option.map_eq_some_iff.mp hitems
      exact ⟨element, helement⟩
    obtain ⟨ts, hts⟩ := hsuper'
    rw [packNumpyType_value] at hts
    obtain ⟨w, _, rfl⟩ := Option.map_eq_some_iff.mp hts
    rw [← packNumpyType_value] at hts
    refine hwrong _ (packArray_tokens hts dims') ?_ fun members heq => by cases heq
    rw [descriptor]
    exact fun heq => absurd (congrArg List.length (Value.array.inj heq)) (by simp)
  · obtain ⟨v, hv, hiff⟩ := h.alone
    have hname : packNumpyType (.compound members) (some name) = some v.tokens := hv
    refine ⟨_, packArray_tokens hname dims, ?_⟩
    have hnamed : (Datatype.array dims (.compound members)).fieldNamed = true := rfl
    rw [hnamed, Bool.true_and, followed, Bool.and_eq_true, ← hiff, ← dims_eq_iff]
    simp only [Option.toList_some, List.map_cons, List.map_nil, List.cons_append, List.nil_append,
      List.cons.injEq, true_and, and_true]
    exact and_comm

/-- **What is packed** for every type with a descriptor. -/
theorem packed {t : Datatype} (ht : t.numpy = true) : Packed t := by
  induction t using Datatype.induction with
  | harray dims super ih =>
    rw [numpy] at ht
    refine ⟨?_, fun name => ?_⟩
    · obtain ⟨v, hv, hiff⟩ := (ih ht).alone
      refine ⟨_, packArray_tokens hv dims, ?_⟩
      rw [descriptor, followed, Bool.and_eq_true, ← hiff, ← dims_eq_iff]
      simp only [Option.toList_none, List.map_nil, List.nil_append, Value.array.injEq,
        List.cons.injEq, and_true]
      exact and_comm
    · obtain ⟨items, hitems, hiff⟩ := packed_arrayField dims ht (ih ht) name
      refine ⟨items, hitems, ?_⟩
      rw [descriptor]
      exact hiff
  | hcompound members ih =>
    rw [numpy] at ht
    have hall := numpy_of_mem ht
    obtain ⟨lists, hpack, hlen, hiff⟩ := packMembers_packed fun m hm => ih m hm (hall m hm)
    have htokens : ∀ fieldName, packNumpyType (.compound members) fieldName =
        some (Value.array (lists.map Value.array)).tokens := by
      intro fieldName
      rw [packNumpyType, hpack, Option.map_some, Value.tokens_array, List.length_map, hlen]
    refine ⟨⟨_, htokens none, ?_⟩, fun name => ⟨_, htokens (some name), ?_⟩⟩
    · rw [descriptor, Value.array.injEq, followed, hiff]
    · have hnamed : (Datatype.compound members).fieldNamed = false := rfl
      rw [hnamed, Bool.false_and]
      refine iff_of_false (fun heq => ?_) Bool.false_ne_true
      cases lists with
      | nil => cases heq
      | cons items lists => cases (List.cons.inj heq).1
  | _ =>
    rcases scalar_cases ht with ⟨cut, full, h⟩ | ⟨dims, super, heq⟩ | ⟨members, heq⟩
    · exact h.toPacked
    · cases heq
    · cases heq

/-! ## 4. Decoding -/

/-- The number of a decimal. -/
def decodeDecimal (digits : Bytes) : UInt64 :=
  UInt64.ofNat (digits.foldl (fun acc b => 10 * acc + (b.toNat - '0'.toNat)) 0)

/-- The order of an endianness. -/
def decodeOrder (endian : UInt8) : Option Order :=
  if [endian] = ascii "<" then some .le else if [endian] = ascii ">" then some .be else none

/-- The scalar type of a type string. -/
def decodeText : Bytes → Option Datatype
  | [] => none
  | c :: text =>
    if [c] = ascii "S" then some (.string (decodeDecimal text) false)
    else
      match text with
      | [] => none
      | kind :: digits =>
        if [kind] = ascii "f" then (decodeOrder c).map (.float (decodeDecimal digits))
        else if [kind] = ascii "u" then
          (decodeOrder c).map fun order => .integer (decodeDecimal digits) order .none
        else if [kind] = ascii "i" then
          (decodeOrder c).map fun order => .integer (decodeDecimal digits) order .two
        else none

def decodeDims : Value Bytes → Option (List UInt64)
  | .array items => items.mapM fun
    | .int n => some (UInt64.ofNat n.toNat)
    | _ => none
  | _ => none

/-- A field, given the types of its items. -/
def decodeField (items : List (Value Bytes)) (types : List (Option Datatype)) :
    Option (Bytes × Datatype) :=
  match items, types with
  | [.str name, _], [_, some t] => some (name, t)
  | [.str name, _, dims], [_, some t, _] => (decodeDims dims).map fun dims => (name, .array dims t)
  | _, _ => none

/-- An array type, or else a compound type with these members. -/
def decodeArray (items : List (Value Bytes)) (types : List (Option Datatype))
    (members : Option (List (Bytes × Datatype))) : Option Datatype :=
  match items, types with
  | [_, dims], [some t, _] =>
    match decodeDims dims with
    | some dims => some (.array dims t)
    | none => members.map .compound
  | _, _ => members.map .compound

mutual

/-- The type of a descriptor, by the grammar. -/
def decodeType : Value Bytes → Option Datatype
  | .str text => decodeText text
  | .array items => decodeArray items (decodeTypes items) (decodeMembers items)
  | _ => none

def decodeTypes : List (Value Bytes) → List (Option Datatype)
  | [] => []
  | v :: items => decodeType v :: decodeTypes items

def decodeMembers : List (Value Bytes) → Option (List (Bytes × Datatype))
  | [] => some []
  | .array field :: items =>
    match decodeField field (decodeTypes field) with
    | some member => (decodeMembers items).map (member :: ·)
    | none => none
  | _ :: _ => none

end

theorem decodeDecimal_decimal (size : UInt64) : decodeDecimal (decimal size.toNat) = size := by
  rw [decodeDecimal, decimal_value]
  exact UInt64.ofNat_toNat

theorem decodeDims_dimsValue (dims : List UInt64) : decodeDims (dimsValue dims) = some dims := by
  rw [dimsValue, intsValue, decodeDims]
  induction dims with
  | nil => rfl
  | cons d dims ih =>
    rw [List.map_cons, List.map_cons, List.mapM_cons, ih]
    show some (UInt64.ofNat d.toNat :: dims) = some (d :: dims)
    rw [UInt64.ofNat_toNat]

/-- The letters of the kinds of numbers, and the types they stand for. -/
inductive KindLetter : Bytes → (UInt64 → Order → Datatype) → Prop where
  | float : KindLetter (ascii "f") .float
  | unsigned : KindLetter (ascii "u") fun size order => .integer size order .none
  | signed : KindLetter (ascii "i") fun size order => .integer size order .two

theorem decodeText_number {size : UInt64} {order : Order} {kind : Bytes}
    {make : UInt64 → Order → Datatype} (hkind : KindLetter kind make)
    (horder : (orderChar order).isSome = true) :
    decodeText (numberText size order kind) = some (make size order) := by
  have hdigits := decodeDecimal_decimal size
  have hdecode : ∀ c, [c] ≠ ascii "S" → decodeText (c :: (kind ++ decimal size.toNat)) =
      (decodeOrder c).map (make size) := by
    intro c hc
    cases hkind with
    | float =>
      show (if [c] = ascii "S" then _ else if ascii "f" = ascii "f" then _ else _) = _
      rw [if_neg hc, if_pos rfl]
      exact congrArg (fun n => (decodeOrder c).map (Datatype.float n)) hdigits
    | unsigned =>
      show (if [c] = ascii "S" then _ else if ascii "u" = ascii "f" then _ else
        if ascii "u" = ascii "u" then _ else _) = _
      rw [if_neg hc, if_neg (by decide), if_pos rfl]
      exact congrArg (fun n => (decodeOrder c).map fun order => Datatype.integer n order .none)
        hdigits
    | signed =>
      show (if [c] = ascii "S" then _ else if ascii "i" = ascii "f" then _ else
        if ascii "i" = ascii "u" then _ else if ascii "i" = ascii "i" then _ else _) = _
      rw [if_neg hc, if_neg (by decide), if_neg (by decide), if_pos rfl]
      exact congrArg (fun n => (decodeOrder c).map fun order => Datatype.integer n order .two)
        hdigits
  cases order with
  | le => exact hdecode _ (by decide)
  | be => exact hdecode _ (by decide)
  | vax => cases horder
  | mixed => cases horder
  | none => cases horder

/-- An integer or an enum. -/
theorem decodeText_integer {size : UInt64} {order : Order} {sign : Sign}
    (h : ((orderChar order).isSome && (signKind sign).isSome) = true) :
    decodeText (numberText size order ((signKind sign).getD [])) =
      some (.integer size order sign) := by
  obtain ⟨horder, hsign⟩ := (Bool.and_eq_true _ _).mp h
  cases sign with
  | none => exact decodeText_number .unsigned horder
  | two => exact decodeText_number .signed horder
  | error => cases hsign

/-- What the decoder makes of the descriptor of a type, on its own and in a field. -/
structure Decoded (t : Datatype) : Prop where
  alone : decodeType (descriptor t) = some t.normalize
  field : ∀ name, decodeField (.str name :: fieldItems t (descriptor t))
    (decodeTypes (.str name :: fieldItems t (descriptor t))) = some (name, t.normalize)

theorem decoded_text {t : Datatype} {text : Bytes} (h : descriptor t = .str text)
    (hitems : fieldItems t (.str text) = [.str text])
    (hdecode : decodeText text = some t.normalize) : Decoded t := by
  have halone : decodeType (.str text) = some t.normalize := by rw [decodeType, hdecode]
  refine ⟨h ▸ halone, fun name => ?_⟩
  rw [h, hitems, decodeTypes, decodeTypes, decodeTypes, halone]
  rfl

theorem decodeMembers_fieldDescriptors {members : List (Bytes × Datatype)}
    (h : ∀ m ∈ members, Decoded m.2) :
    decodeMembers (fieldDescriptors members) = some (normalizeMembers members) := by
  induction members with
  | nil => rfl
  | cons m members ih =>
    obtain ⟨name, t⟩ := m
    have hfield := (h (name, t) List.mem_cons_self).field name
    rw [fieldDescriptors, decodeMembers, hfield]
    dsimp only
    rw [ih fun m hm => h m (List.mem_cons_of_mem _ hm), Option.map_some, normalizeMembers]

/-- The fields of a compound type are never taken for the dimensions of an array type. -/
theorem decodeArray_fieldDescriptors (members : List (Bytes × Datatype))
    (types : List (Option Datatype)) (decoded : Option (List (Bytes × Datatype))) :
    decodeArray (fieldDescriptors members) types decoded = decoded.map .compound := by
  unfold decodeArray
  split
  · rename_i x dims t y hitems
    match members, hitems with
    | (name, _) :: (name', t') :: members, hitems =>
      rw [fieldDescriptors, fieldDescriptors] at hitems
      obtain ⟨rfl, _⟩ := List.cons.inj (List.cons.inj hitems).2
      rfl
  · rfl

/-- **The decoder recovers the type from its descriptor**, an enum as an integer. -/
theorem decodeType_descriptor {t : Datatype} (ht : t.numpy = true) : Decoded t := by
  induction t using Datatype.induction with
  | hinteger size order sign => exact decoded_text rfl rfl (decodeText_integer ht)
  | henum size order sign => exact decoded_text rfl rfl (decodeText_integer ht)
  | hfloat size order => exact decoded_text rfl rfl (decodeText_number .float ht)
  | hstring size variableStr =>
    have hfixed : variableStr = false := by simpa only [numpy, Bool.not_eq_true'] using ht
    subst hfixed
    refine decoded_text rfl rfl ?_
    show some (Datatype.string (decodeDecimal (decimal size.toNat)) false) = _
    rw [decodeDecimal_decimal]
    rfl
  | harray dims super ih =>
    obtain ⟨halone, _⟩ := ih ht
    refine ⟨?_, fun name => ?_⟩
    · rw [descriptor, decodeType, decodeTypes, decodeTypes, decodeTypes, halone, decodeArray,
        decodeDims_dimsValue]
      rfl
    · rw [descriptor, fieldItems, decodeTypes, decodeTypes, decodeTypes, decodeTypes, halone,
        decodeField, decodeDims_dimsValue]
      rfl
  | hcompound members ih =>
    have hall := numpy_of_mem ht
    have hmembers := decodeMembers_fieldDescriptors fun m hm => ih m hm (hall m hm)
    have halone : decodeType (.array (fieldDescriptors members)) =
        some (.compound (normalizeMembers members)) := by
      rw [decodeType, decodeArray_fieldDescriptors, hmembers]
      rfl
    refine ⟨?_, fun name => ?_⟩
    · rw [descriptor, halone, Datatype.normalize]
    · rw [descriptor, show fieldItems (.compound members) _ = [_] from rfl, decodeTypes,
        decodeTypes, decodeTypes, halone, decodeField, Datatype.normalize]
  | hvlen super ih => cases ht
  | hother size => cases ht

/-- A number of an order or sign that `numpy_type_info` does not know is not packed, nor is a type
with such a number in it. -/
theorem numpy_of_packNumpyType {t : Datatype} (ht : t.fixedSize = true) {fieldName : Option Bytes}
    {ts : List (Token Bytes)} (h : packNumpyType t fieldName = some ts) : t.numpy = true := by
  have hnumber : ∀ {size : UInt64} {order : Order} {kind descr : Bytes},
      numberInfo size order kind = some descr → (orderChar order).isSome = true := by
    intro size order kind descr hinfo
    obtain ⟨endian, hendian, _⟩ := Option.map_eq_some_iff.mp hinfo
    rw [hendian, Option.isSome_some]
  have hinteger : ∀ {size : UInt64} {order : Order} {sign : Sign} {descr : Bytes},
      (signKind sign).bind (numberInfo size order) = some descr →
        ((orderChar order).isSome && (signKind sign).isSome) = true := by
    intro size order sign descr hinfo
    obtain ⟨kind, hkind, hinfo⟩ := Option.bind_eq_some_iff.mp hinfo
    rw [hnumber hinfo, hkind, Option.isSome_some, Bool.and_self]
  induction t using Datatype.induction generalizing fieldName ts with
  | hinteger size order sign =>
    obtain ⟨descr, hdescr, _⟩ := Option.map_eq_some_iff.mp h
    exact hinteger hdescr
  | henum size order sign =>
    obtain ⟨descr, hdescr, _⟩ := Option.map_eq_some_iff.mp h
    exact hinteger hdescr
  | hfloat size order =>
    obtain ⟨descr, hdescr, _⟩ := Option.map_eq_some_iff.mp h
    exact hnumber hdescr
  | hstring size variableStr => exact ht
  | harray dims super ih =>
    rw [packNumpyType] at h
    obtain ⟨element, helement, _⟩ := Option.map_eq_some_iff.mp h
    exact ih ht helement
  | hcompound members ih =>
    rw [packNumpyType] at h
    obtain ⟨fields, hfields, rfl⟩ := Option.map_eq_some_iff.mp h
    rw [fixedSize] at ht
    rw [numpy]
    clear h
    induction members generalizing fields with
    | nil => rfl
    | cons m members ihm =>
      obtain ⟨name, t⟩ := m
      obtain ⟨hfixed, hrest⟩ := (Bool.and_eq_true _ _).mp ht
      rw [packMembers] at hfields
      split at hfields
      · cases hfields
      · rename_i field hfield
        obtain ⟨rest, hpacked, _⟩ := Option.map_eq_some_iff.mp hfields
        rw [numpyMembers, ih (name, t) List.mem_cons_self hfixed hfield, Bool.true_and]
        exact ihm (fun m hm => ih m (List.mem_cons_of_mem _ hm)) hrest rest hpacked
  | hvlen super ih => cases ht
  | hother size => cases ht

/-- **`pack_numpy_type` follows its grammar** for a type of fixed size if and only if all orders
and signs in it are known and `followed` holds.  The grammar identifies the type: the decoder
recovers it, and two types that are packed by the grammar are packed alike only if they are the
same, up to enums. -/
theorem packNumpyType_iff {t : Datatype} (ht : t.fixedSize = true) :
    (packNumpyType t none = some (descriptor t).tokens ↔ t.numpy = true ∧ t.followed = true) ∧
    (t.numpy = true → decodeType (descriptor t) = some t.normalize) ∧
    ∀ t' : Datatype, t.numpy = true ∧ t.followed = true →
      t'.numpy = true ∧ t'.followed = true →
        packNumpyType t none = packNumpyType t' none → t.normalize = t'.normalize := by
  have hiff : ∀ {t : Datatype}, t.numpy = true →
      (packNumpyType t none = some (descriptor t).tokens ↔ t.followed = true) := by
    intro t hnumpy
    obtain ⟨v, hv, hiff⟩ := (packed hnumpy).alone
    rw [hv, Option.some.injEq, ← hiff]
    exact ⟨Value.tokens_inj, congrArg _⟩
  refine ⟨⟨fun h => ?_, fun h => (hiff h.1).mpr h.2⟩, fun h => (decodeType_descriptor h).alone,
    fun t' hfollowed hfollowed' heq => ?_⟩
  · have hnumpy := numpy_of_packNumpyType ht h
    exact ⟨hnumpy, (hiff hnumpy).mp h⟩
  · rw [(hiff hfollowed.1).mpr hfollowed.2, (hiff hfollowed'.1).mpr hfollowed'.2,
      Option.some.injEq] at heq
    have hsame := congrArg decodeType (Value.tokens_inj heq)
    rw [(decodeType_descriptor hfollowed.1).alone,
      (decodeType_descriptor hfollowed'.1).alone] at hsame
    exact Option.some.inj hsame

/-- A field of an array type loses nothing when its elements are compound. -/
theorem packNumpyType_iff_particles :
    packNumpyType (.compound [(ascii "pos", .array [3]
        (.compound [(ascii "x", .float 8 .le), (ascii "name", .string 12 false)]))]) none =
      some (descriptor (.compound [(ascii "pos", .array [3]
        (.compound [(ascii "x", .float 8 .le), (ascii "name", .string 12 false)]))])).tokens :=
  (packNumpyType_iff rfl).1.mpr ⟨by decide, by decide⟩

/-- **The name of a field of a compound type is lost**, and two types have one descriptor; the name
of an array field is packed twice. -/
theorem fieldName_lost :
    packNumpyType (.compound [(ascii "a", .compound [(ascii "x", .integer 4 .le .two)])]) none =
      packNumpyType (.compound [(ascii "b", .compound [(ascii "x", .integer 4 .le .two)])]) none ∧
    (Datatype.compound [(ascii "a", .compound [(ascii "x", .integer 4 .le .two)])]).normalize ≠
      (Datatype.compound [(ascii "b", .compound [(ascii "x", .integer 4 .le .two)])]).normalize ∧
    packNumpyType (.compound [(ascii "v", .array [3] (.float 8 .le))]) none ≠
      some (descriptor (.compound [(ascii "v", .array [3] (.float 8 .le))])).tokens := by
  refine ⟨by decide, fun heq => ?_, by decide⟩
  exact absurd (Prod.mk.inj (List.cons.inj (Datatype.compound.inj heq)).1).1 (by decide)

end HdfStream.Pack
