/-
# HDF5 datatypes and their descriptors

The datatypes of the HDF5 library as its query functions show them, and the model of
`pack_numpy_type.c`, `type_mapping.c` and `native_type.c`, which walk over them: the descriptor of
a type for the client, the test for parts of variable length, and the type data has in memory.

A function that returns -1 returns `none` (or -1 where 1 and 0 are results); what it has packed
until then is dropped, since no caller goes on after a failure.  The calls of the packer succeed.
-/
import HdfStream.Lib.Packer

namespace HdfStream.Pack

open Msgpack

/-- The bytes of a string literal. -/
def ascii (s : String) : Bytes := s.toList.map fun c => UInt8.ofNat c.toNat

/-- `H5T_sign_t`. -/
inductive Sign where
  | none
  | two
  | error
deriving DecidableEq

/-- `H5T_order_t`. -/
inductive Order where
  | le
  | be
  | vax
  | mixed
  | none
deriving DecidableEq

/-- A datatype.  `other` stands for the classes no function here knows. -/
inductive Datatype where
  | integer (size : UInt64) (order : Order) (sign : Sign)
  | enum (size : UInt64) (order : Order) (sign : Sign)
  | float (size : UInt64) (order : Order)
  | string (size : UInt64) (variableStr : Bool)
  | array (dims : List UInt64) (super : Datatype)
  | compound (members : List (Bytes × Datatype))
  | vlen (super : Datatype)
  | other (size : UInt64)

namespace Datatype

mutual

/-- Induction over the type, with the types of the members of a compound type. -/
theorem induction {P : Datatype → Prop} (hinteger : ∀ size order sign, P (integer size order sign))
    (henum : ∀ size order sign, P (enum size order sign))
    (hfloat : ∀ size order, P (float size order))
    (hstring : ∀ size variableStr, P (string size variableStr))
    (harray : ∀ dims super, P super → P (array dims super))
    (hcompound : ∀ members, (∀ m ∈ members, P m.2) → P (compound members))
    (hvlen : ∀ super, P super → P (vlen super)) (hother : ∀ size, P (other size)) : ∀ t, P t
  | integer size order sign => hinteger size order sign
  | enum size order sign => henum size order sign
  | float size order => hfloat size order
  | string size variableStr => hstring size variableStr
  | array dims super => harray dims super
      (induction hinteger henum hfloat hstring harray hcompound hvlen hother super)
  | compound members => hcompound members
      (induction_members hinteger henum hfloat hstring harray hcompound hvlen hother members)
  | vlen super => hvlen super
      (induction hinteger henum hfloat hstring harray hcompound hvlen hother super)
  | other size => hother size

theorem induction_members {P : Datatype → Prop}
    (hinteger : ∀ size order sign, P (integer size order sign))
    (henum : ∀ size order sign, P (enum size order sign))
    (hfloat : ∀ size order, P (float size order))
    (hstring : ∀ size variableStr, P (string size variableStr))
    (harray : ∀ dims super, P super → P (array dims super))
    (hcompound : ∀ members, (∀ m ∈ members, P m.2) → P (compound members))
    (hvlen : ∀ super, P super → P (vlen super)) (hother : ∀ size, P (other size)) :
    ∀ members : List (Bytes × Datatype), ∀ m ∈ members, P m.2
  | [], m, hm => by cases hm
  | (name, t) :: members, m, hm => by
    rcases List.mem_cons.mp hm with rfl | hm
    · exact induction hinteger henum hfloat hstring harray hcompound hvlen hother t
    · exact induction_members hinteger henum hfloat hstring harray hcompound hvlen hother
        members m hm

end

mutual

/-- `H5Tget_size` of a type without padding. -/
def size : Datatype → UInt64
  | integer size _ _ => size
  | enum size _ _ => size
  | float size _ => size
  | string size variableStr => if variableStr then 8 else size
  | array dims super => dims.foldl (fun acc d => acc * d) super.size
  | compound members => sizeOfMembers members
  | vlen _ => 16
  | other size => size

/-- The members of a compound type, one after the other. -/
def sizeOfMembers : List (Bytes × Datatype) → UInt64
  | [] => 0
  | (_, t) :: members => t.size + sizeOfMembers members

end

end Datatype

/-! ## 1. `numpy_type_info` -/

/-- `%d`. -/
def decimal (n : Int) : Bytes :=
  let digits := (Nat.toDigits 10 n.natAbs).map fun c => UInt8.ofNat c.toNat
  if n < 0 then ascii "-" ++ digits else digits

/-- The cast to `int`. -/
def toInt (size : UInt64) : Int := Int.bmod size.toNat (2 ^ 32)

/-- The length of the buffer for a descriptor, with the null byte. -/
def descrLen : Nat := 10

/-- `snprintf`: what does not fit is cut off. -/
def snprintf (len : Nat) (text : Bytes) : Bytes := text.take (len - 1)

/-- The kind of an integer type. -/
def signKind : Sign → Option Bytes
  | .none => some (ascii "u")
  | .two => some (ascii "i")
  | .error => none

/-- The endianness in a descriptor. -/
def orderChar : Order → Option Bytes
  | .le => some (ascii "<")
  | .be => some (ascii ">")
  | _ => none

/-- The descriptor of a number. -/
def numberInfo (size : UInt64) (order : Order) (kind : Bytes) : Option Bytes :=
  (orderChar order).map fun endian => snprintf descrLen (endian ++ kind ++ decimal (toInt size))

/-- `numpy_type_info`. -/
def numpyTypeInfo : Datatype → Option Bytes
  | .integer size order sign => (signKind sign).bind (numberInfo size order)
  | .enum size order sign => (signKind sign).bind (numberInfo size order)
  | .float size order => numberInfo size order (ascii "f")
  | .string size variableStr =>
    if variableStr then none else some (snprintf descrLen (ascii "S" ++ decimal (toInt size)))
  | _ => none

mutual

/-- A type built from numbers, enumerations, strings of a fixed length, arrays and compounds, all
of a kind that has a descriptor. -/
def Datatype.numpy : Datatype → Bool
  | .integer _ order sign => (orderChar order).isSome && (signKind sign).isSome
  | .enum _ order sign => (orderChar order).isSome && (signKind sign).isSome
  | .float _ order => (orderChar order).isSome
  | .string _ variableStr => !variableStr
  | .array _ super => super.numpy
  | .compound members => numpyMembers members
  | .vlen _ => false
  | .other _ => false

def Datatype.numpyMembers : List (Bytes × Datatype) → Bool
  | [] => true
  | (_, t) :: members => t.numpy && numpyMembers members

end

/-! ## 2. `pack_numpy_type` -/

/-- The cast to `long`. -/
def toLong (d : UInt64) : Int := Int.bmod d.toNat (2 ^ 64)

/-- A scalar type, or a field with its name. -/
def packScalar (fieldName : Option Bytes) (descr : Bytes) : List (Token Bytes) :=
  match fieldName with
  | some name => [.arrayHeader 2, .str name, .str descr]
  | none => [.str descr]

/-- The header of an array type, with the name of the field. -/
def packArrayHead (fieldName : Option Bytes) : List (Token Bytes) :=
  match fieldName with
  | some name => [.arrayHeader 3, .str name]
  | none => [.arrayHeader 2]

mutual

/-- `pack_numpy_type`. -/
def packNumpyType : Datatype → Option Bytes → Option (List (Token Bytes))
  | .integer size order sign, fieldName =>
    (numpyTypeInfo (.integer size order sign)).map (packScalar fieldName)
  | .enum size order sign, fieldName =>
    (numpyTypeInfo (.enum size order sign)).map (packScalar fieldName)
  | .float size order, fieldName =>
    (numpyTypeInfo (.float size order)).map (packScalar fieldName)
  | .string size variableStr, fieldName =>
    if variableStr then some [.str (ascii "str")]
    else (numpyTypeInfo (.string size variableStr)).map (packScalar fieldName)
  | .array dims super, fieldName =>
    -- the name goes to the elements, too
    (packNumpyType super fieldName).map fun element =>
      packArrayHead fieldName ++ element ++
        .arrayHeader dims.length :: dims.map fun d => .int (toLong d)
  | .compound members, _ =>
    (packMembers members).map fun fields => .arrayHeader members.length :: fields
  | .vlen super, _ => packNumpyType super none
  | .other _, _ => none

/-- The loop of `pack_numpy_type` over the members of a compound type. -/
def packMembers : List (Bytes × Datatype) → Option (List (Token Bytes))
  | [] => some []
  | (name, t) :: members =>
    match packNumpyType t (some name) with
    | none => none
    | some field => (packMembers members).map fun fields => field ++ fields

end

/-- `pack_numpy_kind`. -/
def packNumpyKind : Datatype → Option (List (Token Bytes))
  | .integer .. => some [.str []]
  | .enum .. => some [.str []]
  | .float .. => some [.str []]
  | .string .. => some [.str []]
  | .array .. => some [.str (ascii "V")]
  | .compound .. => some [.str (ascii "V")]
  | .vlen .. => some [.str (ascii "V")]
  | .other .. => none

mutual

/-- `detect_vlen_types`. -/
def detectVlenTypes : Datatype → Int
  | .string _ variableStr => if variableStr then 1 else 0
  | .vlen _ => 1
  | .array _ super => detectVlenTypes super
  | .compound members => detectVlenMembers members
  | .integer .. => 0
  | .enum .. => 0
  | .float .. => 0
  | .other _ => -1

/-- The loop of `detect_vlen_types` over the members of a compound type. -/
def detectVlenMembers : List (Bytes × Datatype) → Int
  | [] => 0
  | (_, t) :: members =>
    if detectVlenTypes t ≠ 0 then detectVlenTypes t else detectVlenMembers members

end

/-! ## 3. `make_packed_native_type` -/

/-- `make_packed_native_type`; `native` is `H5Tget_native_type` on types that are not made of
others.  A compound type loses its padding, which is not part of the model. -/
def makePackedNativeType (native : Datatype → Option Datatype) : Datatype → Option Datatype
  | .integer size order sign => native (.integer size order sign)
  | .enum size order sign => native (.enum size order sign)
  | .float size order => native (.float size order)
  | .string size variableStr => native (.string size variableStr)
  | .array dims super => (makePackedNativeType native super).map (.array dims)
  | .compound members => some (.compound members)
  | .vlen super => (makePackedNativeType native super).map .vlen
  | .other _ => none

/-! ## 4. What is packed is one value -/

/-- The value of a list of integers. -/
def intsValue (ns : List Int) : Value Bytes := .array (ns.map .int)

theorem tokens_intsValue (ns : List Int) :
    (intsValue ns).tokens = .arrayHeader ns.length :: ns.map .int := by
  rw [intsValue, Value.tokens_array, List.length_map, List.flatMap_map]
  exact congrArg _ List.map_eq_flatMap.symm

/-- A scalar type, or a field with its name. -/
def scalarValue (fieldName : Option Bytes) (descr : Bytes) : Value Bytes :=
  match fieldName with
  | some name => .array [.str name, .str descr]
  | none => .str descr

mutual

/-- The value `pack_numpy_type` packs. -/
def typeValue : Datatype → Option Bytes → Option (Value Bytes)
  | .integer size order sign, fieldName =>
    (numpyTypeInfo (.integer size order sign)).map (scalarValue fieldName)
  | .enum size order sign, fieldName =>
    (numpyTypeInfo (.enum size order sign)).map (scalarValue fieldName)
  | .float size order, fieldName => (numpyTypeInfo (.float size order)).map (scalarValue fieldName)
  | .string size variableStr, fieldName =>
    if variableStr then some (.str (ascii "str"))
    else (numpyTypeInfo (.string size variableStr)).map (scalarValue fieldName)
  | .array dims super, fieldName =>
    (typeValue super fieldName).map fun element =>
      .array (fieldName.toList.map .str ++ [element, intsValue (dims.map toLong)])
  | .compound members, _ => (memberValues members).map .array
  | .vlen super, _ => typeValue super none
  | .other _, _ => none

def memberValues : List (Bytes × Datatype) → Option (List (Value Bytes))
  | [] => some []
  | (name, t) :: members =>
    (typeValue t (some name)).bind fun field => (memberValues members).map (field :: ·)

end

theorem tokens_scalarValue (fieldName : Option Bytes) (descr : Bytes) :
    (scalarValue fieldName descr).tokens = packScalar fieldName descr := by
  rcases fieldName with _ | name
  · rfl
  · rw [scalarValue, Value.tokens_array]
    rfl

/-- An array type whose elements are packed as one value. -/
theorem packArray_tokens {super : Datatype} {fieldName : Option Bytes} {v : Value Bytes}
    (h : packNumpyType super fieldName = some v.tokens) (dims : List UInt64) :
    packNumpyType (.array dims super) fieldName =
      some (Value.array (fieldName.toList.map .str ++
        [v, intsValue (dims.map toLong)])).tokens := by
  have hdims := tokens_intsValue (dims.map toLong)
  rw [List.length_map, List.map_map] at hdims
  rw [packNumpyType, h, Option.map_some]
  cases fieldName with
  | none =>
    simp only [Value.tokens_array, List.flatMap_cons, List.flatMap_nil, hdims, List.append_nil,
      List.length_cons, List.length_nil, packArrayHead, Option.toList_none, List.map_nil,
      List.nil_append]
    rfl
  | some name =>
    simp only [Value.tokens_array, List.flatMap_cons, List.flatMap_nil, hdims, List.append_nil,
      List.length_cons, List.length_nil, packArrayHead, Option.toList_some, List.map_cons,
      List.map_nil, List.cons_append, List.nil_append, Value.tokens_str]
    rfl

theorem packNumpyType_scalar {t : Datatype} (fieldName : Option Bytes) :
    (numpyTypeInfo t).map (packScalar fieldName) =
      ((numpyTypeInfo t).map (scalarValue fieldName)).map Value.tokens := by
  rw [Option.map_map]
  exact congrFun (congrArg _ (funext fun descr => (tokens_scalarValue fieldName descr).symm)) _

/-- **`pack_numpy_type` packs one value.** -/
theorem packNumpyType_value (t : Datatype) (fieldName : Option Bytes) :
    packNumpyType t fieldName = (typeValue t fieldName).map Value.tokens := by
  induction t using Datatype.induction generalizing fieldName with
  | hinteger size order sign => exact packNumpyType_scalar fieldName
  | henum size order sign => exact packNumpyType_scalar fieldName
  | hfloat size order => exact packNumpyType_scalar fieldName
  | hstring size variableStr =>
    rw [packNumpyType, typeValue]
    split
    · rfl
    · exact packNumpyType_scalar fieldName
  | harray dims super ih =>
    have hsuper := ih fieldName
    rw [typeValue]
    rcases hvalue : typeValue super fieldName with _ | element
    · rw [hvalue] at hsuper
      rw [packNumpyType, hsuper]
      rfl
    · rw [hvalue] at hsuper
      rw [packArray_tokens hsuper]
      rfl
  | hcompound members ih =>
    have hmembers : packMembers members =
        (memberValues members).map fun fields => fields.flatMap Value.tokens := by
      induction members with
      | nil => rfl
      | cons m members ihm =>
        obtain ⟨name, t⟩ := m
        rw [packMembers, memberValues, ih (name, t) List.mem_cons_self (some name),
          ihm fun m hm => ih m (List.mem_cons_of_mem _ hm)]
        rcases typeValue t (some name) with _ | field
        · rfl
        · rcases memberValues members with _ | fields
          · rfl
          · rfl
    have hlength : ∀ {members : List (Bytes × Datatype)} {fields : List (Value Bytes)},
        memberValues members = some fields → fields.length = members.length := by
      intro members
      induction members with
      | nil =>
        intro fields h
        cases h
        rfl
      | cons m members ihm =>
        intro fields h
        obtain ⟨name, t⟩ := m
        rw [memberValues] at h
        obtain ⟨field, _, h⟩ := Option.bind_eq_some_iff.mp h
        obtain ⟨rest, hrest, rfl⟩ := Option.map_eq_some_iff.mp h
        exact congrArg Nat.succ (ihm hrest)
    rw [packNumpyType, typeValue, hmembers]
    rcases hfields : memberValues members with _ | fields
    · rfl
    · rw [Option.map_some, Option.map_some, Option.map_some, Option.map_some, Value.tokens_array,
        hlength hfields]
  | hvlen super ih => exact ih none
  | hother size => rfl

/-- The value `pack_numpy_kind` packs. -/
def kindValue : Datatype → Value Bytes
  | .array .. => .str (ascii "V")
  | .compound .. => .str (ascii "V")
  | .vlen .. => .str (ascii "V")
  | _ => .str []

theorem packNumpyKind_value {t : Datatype} {fieldName : Option Bytes} {v : Value Bytes}
    (h : typeValue t fieldName = some v) : packNumpyKind t = some (kindValue t).tokens := by
  cases t with
  | other size => cases h
  | _ => rfl

end HdfStream.Pack
