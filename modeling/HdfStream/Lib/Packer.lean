/-
# MessagePack values as bytes

A packer turns each call into bytes: a header, and for a string or a binary the body.  What the
headers look like is a parameter (`Packer`), of which one thing is known: a header of the format
can be told from any other, whatever follows.  Lengths have 32 bits in the format, integers 64,
so nothing is said of headers beyond that (`Head.Fits`).

With this the bytes of a value determine the value (`write_tokens_append_inj`).  `msgpackC` is the
packer with the headers of the format, each in its shortest form, and `readHead` reads them.
-/
import HdfStream.Lib.Msgpack

namespace Msgpack

abbrev Bytes := List UInt8

/-- A header: a call of the packer without the body. -/
inductive Head where
  | nil
  | bool (b : Bool)
  | int (n : Int)
  | str (length : Nat)
  | bin (length : Nat)
  | array (length : Nat)
  | map (length : Nat)
deriving DecidableEq

/-- The header has a form in the format. -/
def Head.Fits : Head → Prop
  | .nil => True
  | .bool _ => True
  | .int n => -2 ^ 63 ≤ n ∧ n < 2 ^ 64
  | .str length => length < 2 ^ 32
  | .bin length => length < 2 ^ 32
  | .array length => length < 2 ^ 32
  | .map length => length < 2 ^ 32

instance : DecidablePred Head.Fits
  | .nil => inferInstanceAs (Decidable True)
  | .bool _ => inferInstanceAs (Decidable True)
  | .int n => inferInstanceAs (Decidable (-2 ^ 63 ≤ n ∧ n < 2 ^ 64))
  | .str length => inferInstanceAs (Decidable (length < 2 ^ 32))
  | .bin length => inferInstanceAs (Decidable (length < 2 ^ 32))
  | .array length => inferInstanceAs (Decidable (length < 2 ^ 32))
  | .map length => inferInstanceAs (Decidable (length < 2 ^ 32))

/-- The headers a packer writes. -/
structure Packer where
  head : Head → Bytes
  /-- Headers of the format can be told apart. -/
  head_append_inj : ∀ {h h' : Head} {r s : Bytes}, h.Fits → h'.Fits →
    head h ++ r = head h' ++ s → h = h' ∧ r = s

/-! ## 1. The bytes of a value -/

/-- The header of a call. -/
def Token.head : Token Bytes → Head
  | .nil => .nil
  | .bool b => .bool b
  | .int n => .int n
  | .str s => .str s.length
  | .bin bytes => .bin bytes.length
  | .arrayHeader n => .array n
  | .mapHeader n => .map n

/-- The body of a call. -/
def Token.body : Token Bytes → Bytes
  | .str s => s
  | .bin bytes => bytes
  | _ => []

/-- All headers of a value have a form in the format. -/
def Value.Fits (v : Value Bytes) : Prop := ∀ t ∈ v.tokens, t.head.Fits

namespace Packer

variable (pk : Packer)

/-- The bytes of a call. -/
def token (t : Token Bytes) : Bytes := pk.head t.head ++ t.body

/-- The bytes of several calls. -/
def write (ts : List (Token Bytes)) : Bytes := ts.flatMap pk.token

@[simp] theorem write_nil : pk.write [] = [] := rfl

@[simp] theorem write_cons (t : Token Bytes) (ts : List (Token Bytes)) :
    pk.write (t :: ts) = pk.token t ++ pk.write ts := List.flatMap_cons

@[simp] theorem write_append (ts us : List (Token Bytes)) :
    pk.write (ts ++ us) = pk.write ts ++ pk.write us := List.flatMap_append

variable {pk}

theorem token_append_inj {t u : Token Bytes} {r s : Bytes} (ht : t.head.Fits) (hu : u.head.Fits)
    (h : pk.token t ++ r = pk.token u ++ s) : t = u ∧ r = s := by
  rw [token, token, List.append_assoc, List.append_assoc] at h
  obtain ⟨hhead, hbody⟩ := pk.head_append_inj ht hu h
  cases t <;> cases u <;> simp only [Token.head, Token.body, reduceCtorEq, Head.bool.injEq,
    Head.int.injEq, Head.str.injEq, Head.bin.injEq, Head.array.injEq, Head.map.injEq,
    List.nil_append] at hhead hbody
  case nil => exact ⟨rfl, hbody⟩
  case bool => exact ⟨congrArg _ hhead, hbody⟩
  case int => exact ⟨congrArg _ hhead, hbody⟩
  case str =>
    obtain ⟨rfl, hr⟩ := List.append_inj hbody hhead
    exact ⟨rfl, hr⟩
  case bin =>
    obtain ⟨rfl, hr⟩ := List.append_inj hbody hhead
    exact ⟨rfl, hr⟩
  case arrayHeader => exact ⟨congrArg _ hhead, hbody⟩
  case mapHeader => exact ⟨congrArg _ hhead, hbody⟩

/-- Of two sequences of calls with the same bytes one is a prefix of the other. -/
theorem write_append_prefix {ts us : List (Token Bytes)} {r s : Bytes}
    (hts : ∀ t ∈ ts, t.head.Fits) (hus : ∀ u ∈ us, u.head.Fits)
    (h : pk.write ts ++ r = pk.write us ++ s) : ts <+: us ∨ us <+: ts := by
  induction ts generalizing us with
  | nil => exact .inl List.nil_prefix
  | cons t ts ih =>
    cases us with
    | nil => exact .inr List.nil_prefix
    | cons u us =>
      rw [write_cons, write_cons, List.append_assoc, List.append_assoc] at h
      obtain ⟨rfl, hrest⟩ :=
        token_append_inj (hts t List.mem_cons_self) (hus u List.mem_cons_self) h
      have hih := ih (fun t ht => hts t (List.mem_cons_of_mem _ ht))
        (fun u hu => hus u (List.mem_cons_of_mem _ hu)) hrest
      exact hih.imp (fun h => List.cons_prefix_cons.mpr ⟨rfl, h⟩)
        fun h => List.cons_prefix_cons.mpr ⟨rfl, h⟩

/-- **The bytes of a value determine it**, whatever follows. -/
theorem write_tokens_append_inj {v w : Value Bytes} {r s : Bytes} (hv : v.Fits) (hw : w.Fits)
    (h : pk.write v.tokens ++ r = pk.write w.tokens ++ s) : v = w ∧ r = s := by
  have hvw : v = w := by
    rcases write_append_prefix hv hw h with ⟨rest, hrest⟩ | ⟨rest, hrest⟩
    · exact (Value.tokens_append_inj (hrest.trans (List.append_nil _).symm)).1
    · exact (Value.tokens_append_inj (hrest.trans (List.append_nil _).symm)).1.symm
  subst hvw
  exact ⟨rfl, List.append_cancel_left h⟩

end Packer

/-! ## 2. Big-endian fields -/

/-- The last `k` bytes of a number. -/
def be : Nat → Nat → Bytes
  | 0, _ => []
  | k + 1, n => UInt8.ofNat (n / 256 ^ k) :: be k n

/-- The number of some bytes. -/
def readBE : Bytes → Nat
  | [] => 0
  | b :: bs => b.toNat * 256 ^ bs.length + readBE bs

@[simp] theorem length_be (k n : Nat) : (be k n).length = k := by
  induction k with
  | zero => rfl
  | succ k ih => rw [be, List.length_cons, ih]

theorem readBE_be (k n : Nat) : readBE (be k n) = n % 256 ^ k := by
  induction k with
  | zero => rw [be, readBE, Nat.pow_zero, Nat.mod_one]
  | succ k ih =>
    rw [be, readBE, length_be, ih, UInt8.toNat_ofNat', Nat.mod_pow_succ (x := n), Nat.add_comm,
      Nat.mul_comm]

/-- A field of `k` bytes. -/
def readField (k : Nat) (bs : Bytes) : Option (Nat × Bytes) :=
  if k ≤ bs.length then some (readBE (bs.take k), bs.drop k) else none

theorem readField_be (k n : Nat) (r : Bytes) :
    readField k (be k n ++ r) = some (n % 256 ^ k, r) := by
  have hlen : k ≤ (be k n ++ r).length := by
    rw [List.length_append, length_be]
    exact Nat.le_add_right _ _
  rw [readField, if_pos hlen, List.take_left' (length_be k n), List.drop_left' (length_be k n),
    readBE_be]

/-! ## 3. The headers of the format -/

/-- A length in the shortest of three fields. -/
def lengthField (tag8 tag16 tag32 : UInt8) (n : Nat) : Bytes :=
  if n < 2 ^ 8 then tag8 :: be 1 n else if n < 2 ^ 16 then tag16 :: be 2 n else tag32 :: be 4 n

/-- A length in the shortest of two fields. -/
def countField (tag16 tag32 : UInt8) (n : Nat) : Bytes :=
  if n < 2 ^ 16 then tag16 :: be 2 n else tag32 :: be 4 n

/-- The header of an integer. -/
def intHead (n : Int) : Bytes :=
  if 0 ≤ n then
    if n < 2 ^ 7 then be 1 n.toNat
    else if n < 2 ^ 8 then 0xcc :: be 1 n.toNat
    else if n < 2 ^ 16 then 0xcd :: be 2 n.toNat
    else if n < 2 ^ 32 then 0xce :: be 4 n.toNat
    else 0xcf :: be 8 n.toNat
  else if -2 ^ 5 ≤ n then be 1 (n + 2 ^ 8).toNat
  else if -2 ^ 7 ≤ n then 0xd0 :: be 1 (n + 2 ^ 8).toNat
  else if -2 ^ 15 ≤ n then 0xd1 :: be 2 (n + 2 ^ 16).toNat
  else if -2 ^ 31 ≤ n then 0xd2 :: be 4 (n + 2 ^ 32).toNat
  else 0xd3 :: be 8 (n + 2 ^ 64).toNat

/-- The header in its shortest form. -/
def formatHead : Head → Bytes
  | .nil => [0xc0]
  | .bool false => [0xc2]
  | .bool true => [0xc3]
  | .int n => intHead n
  | .str n => if n < 2 ^ 5 then be 1 (0xa0 + n) else lengthField 0xd9 0xda 0xdb n
  | .bin n => lengthField 0xc4 0xc5 0xc6 n
  | .array n => if n < 2 ^ 4 then be 1 (0x90 + n) else countField 0xdc 0xdd n
  | .map n => if n < 2 ^ 4 then be 1 (0x80 + n) else countField 0xde 0xdf n

/-- A field of a header that is given by its length. -/
def readLength (k : Nat) (head : Nat → Head) (bs : Bytes) : Option (Head × Bytes) :=
  (readField k bs).map fun x => (head x.1, x.2)

/-- A signed field. -/
def readSigned (k : Nat) (bs : Bytes) : Option (Head × Bytes) :=
  (readField k bs).map fun x =>
    (.int (if 2 * x.1 < 256 ^ k then (x.1 : Int) else (x.1 : Int) - 256 ^ k), x.2)

/-- Reads the header after its first byte `tag`. -/
def readTagged (tag : Nat) (bs : Bytes) : Option (Head × Bytes) :=
  match tag with
  | 0xc0 => some (.nil, bs)
  | 0xc2 => some (.bool false, bs)
  | 0xc3 => some (.bool true, bs)
  | 0xc4 => readLength 1 .bin bs
  | 0xc5 => readLength 2 .bin bs
  | 0xc6 => readLength 4 .bin bs
  | 0xcc => readLength 1 (fun n => .int n) bs
  | 0xcd => readLength 2 (fun n => .int n) bs
  | 0xce => readLength 4 (fun n => .int n) bs
  | 0xcf => readLength 8 (fun n => .int n) bs
  | 0xd0 => readSigned 1 bs
  | 0xd1 => readSigned 2 bs
  | 0xd2 => readSigned 4 bs
  | 0xd3 => readSigned 8 bs
  | 0xd9 => readLength 1 .str bs
  | 0xda => readLength 2 .str bs
  | 0xdb => readLength 4 .str bs
  | 0xdc => readLength 2 .array bs
  | 0xdd => readLength 4 .array bs
  | 0xde => readLength 2 .map bs
  | 0xdf => readLength 4 .map bs
  | _ => none

/-- Reads a header. -/
def readHead : Bytes → Option (Head × Bytes)
  | [] => none
  | b :: bs =>
    if b.toNat < 0x80 then some (.int b.toNat, bs)
    else if b.toNat < 0x90 then some (.map (b.toNat - 0x80), bs)
    else if b.toNat < 0xa0 then some (.array (b.toNat - 0x90), bs)
    else if b.toNat < 0xc0 then some (.str (b.toNat - 0xa0), bs)
    else if b.toNat < 0xe0 then readTagged b.toNat bs
    else some (.int ((b.toNat : Int) - 2 ^ 8), bs)

/-! ## 4. Reading a header back -/

theorem readLength_be {k n : Nat} (hn : n < 256 ^ k) (head : Nat → Head) (r : Bytes) :
    readLength k head (be k n ++ r) = some (head n, r) := by
  rw [readLength, readField_be, Option.map_some, Nat.mod_eq_of_lt hn]

theorem readSigned_be {k : Nat} {n : Int} (hneg : n < 0) (hn : -256 ^ k ≤ 2 * n) (r : Bytes) :
    readSigned k (be k (n + 256 ^ k).toNat ++ r) = some (.int n, r) := by
  have hcast : (256 : Int) ^ k = ((256 ^ k : Nat) : Int) := (Int.natCast_pow 256 k).symm
  have hlt : (n + 256 ^ k).toNat < 256 ^ k := by omega
  have hbig : ¬ 2 * (n + 256 ^ k).toNat < 256 ^ k := by omega
  have hback : (((n + 256 ^ k).toNat : Nat) : Int) - 256 ^ k = n := by omega
  rw [readSigned, readField_be, Option.map_some, Nat.mod_eq_of_lt hlt, if_neg hbig, hback]

/-- A first byte that is part of the header. -/
theorem be_one {n : Nat} (hn : n < 256) : ∃ b : UInt8, be 1 n = [b] ∧ b.toNat = n :=
  ⟨_, rfl, by rw [Nat.pow_zero, Nat.div_one, UInt8.toNat_ofNat', Nat.mod_eq_of_lt hn]⟩

theorem readHead_lengthField {tag8 tag16 tag32 : UInt8} {head : Nat → Head} {n : Nat} {r : Bytes}
    (h8 : ∀ bs, readHead (tag8 :: bs) = readLength 1 head bs)
    (h16 : ∀ bs, readHead (tag16 :: bs) = readLength 2 head bs)
    (h32 : ∀ bs, readHead (tag32 :: bs) = readLength 4 head bs) (hn : n < 2 ^ 32) :
    readHead (lengthField tag8 tag16 tag32 n ++ r) = some (head n, r) := by
  unfold lengthField
  split
  · rw [List.cons_append, h8, readLength_be (by omega)]
  split
  · rw [List.cons_append, h16, readLength_be (by omega)]
  · rw [List.cons_append, h32, readLength_be (by omega)]

theorem readHead_countField {tag16 tag32 : UInt8} {head : Nat → Head} {n : Nat} {r : Bytes}
    (h16 : ∀ bs, readHead (tag16 :: bs) = readLength 2 head bs)
    (h32 : ∀ bs, readHead (tag32 :: bs) = readLength 4 head bs) (hn : n < 2 ^ 32) :
    readHead (countField tag16 tag32 n ++ r) = some (head n, r) := by
  unfold countField
  split
  · rw [List.cons_append, h16, readLength_be (by omega)]
  · rw [List.cons_append, h32, readLength_be (by omega)]

theorem readHead_intHead {n : Int} (hn : -2 ^ 63 ≤ n) (hn' : n < 2 ^ 64) (r : Bytes) :
    readHead (intHead n ++ r) = some (.int n, r) := by
  have htag : ∀ (tag : UInt8) (k : Nat), (∀ bs, readHead (tag :: bs) =
      readLength k (fun n => .int n) bs) → n.toNat < 256 ^ k → 0 ≤ n →
      readHead (tag :: be k n.toNat ++ r) = some (.int n, r) := by
    intro tag k htag hlt hpos
    rw [List.cons_append, htag, readLength_be hlt, Int.toNat_of_nonneg hpos]
  unfold intHead
  split
  · rename_i hpos
    split
    · obtain ⟨b, hb, hbn⟩ := be_one (n := n.toNat) (by omega)
      rw [hb, List.singleton_append, readHead, if_pos (by omega), hbn, Int.toNat_of_nonneg hpos]
    split
    · exact htag 0xcc 1 (fun _ => rfl) (by omega) hpos
    split
    · exact htag 0xcd 2 (fun _ => rfl) (by omega) hpos
    split
    · exact htag 0xce 4 (fun _ => rfl) (by omega) hpos
    · exact htag 0xcf 8 (fun _ => rfl) (by omega) hpos
  · rename_i hneg
    split
    · obtain ⟨b, hb, hbn⟩ := be_one (n := (n + 2 ^ 8).toNat) (by omega)
      have hback : ((b.toNat : Nat) : Int) - 2 ^ 8 = n := by omega
      rw [hb, List.singleton_append, readHead, if_neg (by omega), if_neg (by omega),
        if_neg (by omega), if_neg (by omega), if_neg (by omega), hback]
    split
    · exact readSigned_be (k := 1) (by omega) (by omega) r
    split
    · exact readSigned_be (k := 2) (by omega) (by omega) r
    split
    · exact readSigned_be (k := 4) (by omega) (by omega) r
    · exact readSigned_be (k := 8) (by omega) (by omega) r

/-- **A header is read back**, whatever follows. -/
theorem readHead_formatHead {h : Head} (hfits : h.Fits) (r : Bytes) :
    readHead (formatHead h ++ r) = some (h, r) := by
  cases h with
  | nil => rfl
  | bool b => cases b <;> rfl
  | int n => exact readHead_intHead hfits.1 hfits.2 r
  | str n =>
    rw [formatHead]
    split
    · obtain ⟨b, hb, hbn⟩ := be_one (n := 0xa0 + n) (by omega)
      rw [hb, List.singleton_append, readHead, if_neg (by omega), if_neg (by omega),
        if_neg (by omega), if_pos (by omega), hbn, Nat.add_sub_cancel_left]
    · exact readHead_lengthField (fun _ => rfl) (fun _ => rfl) (fun _ => rfl) hfits
  | bin n => exact readHead_lengthField (fun _ => rfl) (fun _ => rfl) (fun _ => rfl) hfits
  | array n =>
    rw [formatHead]
    split
    · obtain ⟨b, hb, hbn⟩ := be_one (n := 0x90 + n) (by omega)
      rw [hb, List.singleton_append, readHead, if_neg (by omega), if_neg (by omega),
        if_pos (by omega), hbn, Nat.add_sub_cancel_left]
    · exact readHead_countField (fun _ => rfl) (fun _ => rfl) hfits
  | map n =>
    rw [formatHead]
    split
    · obtain ⟨b, hb, hbn⟩ := be_one (n := 0x80 + n) (by omega)
      rw [hb, List.singleton_append, readHead, if_neg (by omega), if_pos (by omega), hbn,
        Nat.add_sub_cancel_left]
    · exact readHead_countField (fun _ => rfl) (fun _ => rfl) hfits

/-- The packer of the format. -/
def msgpackC : Packer where
  head := formatHead
  head_append_inj := fun {h h' r s} hfits hfits' heq => by
    have hread := readHead_formatHead hfits r
    rw [heq, readHead_formatHead hfits' s] at hread
    cases hread
    exact ⟨rfl, rfl⟩

end Msgpack
