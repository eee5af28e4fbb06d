/-
# The body of a dataset or attribute

The model of `pack_contents.c`.  Data of a fixed size is packed as a map with the descriptor of its
type, its shape, and the bytes in binaries of at most `max_size` bytes; `pack_contents_body` is
called for one piece of the data after the other, and a binary may end in the middle of a piece.
Data of variable length is packed as an array, one entry for each element.

A `size_t` is a natural number below `2 ^ 64`, and the places where C arithmetic can wrap say so.
Memory is a function on the index.  The calls of the packer succeed.
-/
import HdfStream.Lib.Outcome
import HdfStream.Lib.Pieces
import HdfStream.Pack.Datatype

namespace HdfStream.Pack

open Msgpack Outcome Pieces

/-- Why a function does not return 0. -/
inductive Failure where
  /-- It returns -1. -/
  | error
  /-- An assertion failed. -/
  | assertion
  /-- A null pointer is read. -/
  | nullPointer
  /-- A loop does not end. -/
  | endless
deriving DecidableEq

/-- A read buffer, as the type of the data says what is in it. -/
inductive Buffer where
  | null
  | bytes (mem : Nat → UInt8)
  /-- `char *`, without the null byte at the end. -/
  | strings (str : Nat → Option Bytes)
  /-- `hvl_t`. -/
  | sequences (len : Nat → UInt64) (p : Nat → Buffer)

/-- `struct pack_contents_info`, the fields that are used. -/
structure PackContentsInfo where
  maxSize : Nat
  hasVlen : Int
  nrBins : Nat
  totalBytesLeft : Nat
  bytesLeftInBin : Nat
deriving Inhabited

namespace Buffer

/-- The byte at an index. -/
def mem : Buffer → Nat → UInt8
  | .bytes mem => mem
  | _ => fun _ => 0

/-- The string an element points to. -/
def str : Buffer → Nat → Option Bytes
  | .strings str => str
  | _ => fun _ => none

/-- The length of a sequence. -/
def len : Buffer → Nat → UInt64
  | .sequences len _ => len
  | _ => fun _ => 0

/-- The elements of a sequence. -/
def p : Buffer → Nat → Buffer
  | .sequences _ p => p
  | _ => fun _ => .null

/-- The first `n` bytes. -/
def read (buffer : Buffer) (n : Nat) : Bytes := (List.range' 0 n).map buffer.mem

end Buffer

/-! ## 1. The header -/

/-- `nr_bins_needed`. -/
def nrBinsNeeded (maxSize nrBytes : Nat) : Except Failure Nat :=
  if ¬ 0 < maxSize then .error .assertion
  else
    let nrBins := (nrBytes + maxSize - 1) % 2 ^ 64 / maxSize
    if ¬ nrBytes ≤ nrBins * maxSize % 2 ^ 64 then .error .assertion
    else .ok nrBins

/-- The key and the value "shape". -/
def packShape (dims : List UInt64) : List (Token Bytes) :=
  [.str (ascii "shape"), .arrayHeader dims.length] ++ dims.map fun d => .int d.toNat

/-- `pack_contents_header`; `pci` is the struct before. -/
def packContentsHeader (pci : PackContentsInfo) (maxSize : Nat) (dtype : Datatype)
    (dims : List UInt64) (nrBytes : Nat) : Except Failure (PackContentsInfo × List (Token Bytes)) :=
  let pci := { pci with maxSize := maxSize, hasVlen := detectVlenTypes dtype }
  if 0 < pci.hasVlen then
    let nrElements := dims.foldl (fun acc d => acc * d) (1 : UInt64)
    if maxSize < nrElements.toNat then .error .error
    else
      .ok (pci,
        [.mapHeader 3, .str (ascii "vlen"), .bool true] ++ packShape dims ++
          [.str (ascii "data"), .arrayHeader nrElements.toNat])
  else if pci.hasVlen = 0 then
    match nrBinsNeeded maxSize nrBytes with
    | .error e => .error e
    | .ok nrBins =>
      match packNumpyType dtype none, packNumpyKind dtype with
      | some type, some kind =>
        .ok ({ pci with nrBins := nrBins, totalBytesLeft := nrBytes, bytesLeftInBin := 0 },
          [.mapHeader 6, .str (ascii "nd"), .bool true, .str (ascii "type")] ++ type ++
            [.str (ascii "kind")] ++ kind ++ packShape dims ++
            [.str (ascii "nbytes"), .int (Int.bmod nrBytes (2 ^ 64)),
             .str (ascii "data"), .arrayHeader nrBins])
      | _, _ => .error .error
  else .error .error

/-! ## 2. The body -/

/-- A new binary, unless the last one still has room. -/
def nextBin (pci : PackContentsInfo) : PackContentsInfo :=
  if pci.bytesLeftInBin = 0 then
    let binSize := if pci.totalBytesLeft < pci.maxSize then pci.totalBytesLeft else pci.maxSize
    { pci with bytesLeftInBin := binSize, totalBytesLeft := pci.totalBytesLeft - binSize }
  else pci

/-- The header of the new binary. -/
def nextBinHead (pk : Packer) (pci : PackContentsInfo) : Bytes :=
  if pci.bytesLeftInBin = 0 then pk.head (.bin (nextBin pci).bytesLeftInBin) else []

/-- The struct after `n` bytes of the open binary. -/
def writeBin (pci : PackContentsInfo) (n : Nat) : PackContentsInfo :=
  { pci with bytesLeftInBin := pci.bytesLeftInBin - n }

/-- The loop of `pack_contents_body` for data of a fixed size: `lenLeft` bytes from `offset` on.
The assertions on offsets and lengths in the loop hold by the way they are computed. -/
def packBins (pk : Packer) (mem : Nat → UInt8) (pci : PackContentsInfo) (offset lenLeft : Nat)
    (out : Bytes) : Except Failure (PackContentsInfo × Bytes) :=
  if _hleft : lenLeft = 0 then .ok (pci, out)
  else if pci.bytesLeftInBin = 0 ∧ pci.nrBins = 0 then .error .assertion
  else
    let next := nextBin pci
    let bytesToWrite := if lenLeft < next.bytesLeftInBin then lenLeft else next.bytesLeftInBin
    -- an empty binary: the loop packs headers for ever
    if _hwrite : bytesToWrite = 0 then .error .endless
    else
      packBins pk mem (writeBin next bytesToWrite) (offset + bytesToWrite) (lenLeft - bytesToWrite)
        (out ++ nextBinHead pk pci ++ (List.range' offset bytesToWrite).map mem)
termination_by lenLeft
decreasing_by exact Nat.sub_lt (Nat.pos_of_ne_zero _hleft) (Nat.pos_of_ne_zero _hwrite)

/-- The loop over the strings. -/
def packStrings (pk : Packer) (str : Nat → Option Bytes) : Nat → Nat → Except Failure Bytes
  | _, 0 => .ok []
  | i, count + 1 =>
    match str i with
    | none => .error .nullPointer
    | some s => (packStrings pk str (i + 1) count).map fun out => pk.token (.str s) ++ out

/-- The loop over the sequences, with `packElement` for one of them. -/
def packSequences (packElement : Nat → Except Failure Bytes) : Nat → Nat → Except Failure Bytes
  | _, 0 => .ok []
  | i, count + 1 =>
    match packElement i with
    | .error e => .error e
    | .ok element => (packSequences packElement (i + 1) count).map (element ++ ·)

/-- `pack_contents_body`. -/
def packContentsBody (pk : Packer) (pci : PackContentsInfo) (dtype : Datatype) (count : Nat)
    (buffer : Buffer) (bufferLen : Nat) : Except Failure (PackContentsInfo × Bytes) :=
  if 0 < pci.hasVlen then
    match dtype with
    | .integer .. => .error .assertion
    | .enum .. => .error .assertion
    | .float .. => .error .assertion
    | .array .. => .error .error
    | .compound _ => .error .error
    | .vlen super =>
      match buffer with
      | .sequences len p =>
        (packSequences
          (fun i =>
            let vlCount := len i
            let nrBytes := (vlCount * super.size).toNat
            match packContentsHeader default pci.maxSize super [vlCount] nrBytes with
            | .error e => .error e
            | .ok (elementPci, header) =>
              (packContentsBody pk elementPci super vlCount.toNat (p i) nrBytes).map fun body =>
                pk.write header ++ body.2) 0 count).map fun out => (pci, out)
      | _ => if count = 0 then .ok (pci, []) else .error .nullPointer
    | .string _ variableStr =>
      if ¬ variableStr then .error .assertion
      else
        match buffer with
        | .strings str => (packStrings pk str 0 count).map fun out => (pci, out)
        | _ => if count = 0 then .ok (pci, []) else .error .nullPointer
    | .other _ => .error .error
  else if pci.hasVlen = 0 then
    match buffer with
    | .bytes mem => packBins pk mem pci 0 bufferLen []
    | _ => if bufferLen = 0 then .ok (pci, []) else .error .nullPointer
  else .error .error

/-! ## 3. The bytes in binaries -/

/-- The bytes of binaries. -/
def binBytes (pk : Packer) (bins : List Bytes) : Bytes := bins.flatMap fun b => pk.token (.bin b)

/-- What is packed for `rest` when `room` bytes of a binary are still to come. -/
def binStream (pk : Packer) (maxSize room : Nat) (rest : Bytes) : Bytes :=
  rest.take room ++ binBytes pk (pieces maxSize (rest.drop room))

theorem binStream_append {pk : Packer} {maxSize room : Nat} {xs : Bytes} (h : xs.length ≤ room)
    (ys : Bytes) :
    binStream pk maxSize room (xs ++ ys) = xs ++ binStream pk maxSize (room - xs.length) ys := by
  rw [binStream, binStream, List.take_append, List.drop_append, List.take_of_length_le h,
    List.drop_of_length_le h, List.nil_append, List.append_assoc]

theorem binStream_nil (pk : Packer) (maxSize : Nat) (rest : Bytes) :
    binStream pk maxSize 0 rest = binBytes pk (pieces maxSize rest) := rfl

theorem binStream_none (pk : Packer) (maxSize room : Nat) : binStream pk maxSize room [] = [] := by
  rw [binStream, List.take_nil, List.drop_nil, pieces_nil]
  rfl

/-- A new binary is packed when the last one is full. -/
theorem binStream_zero {pk : Packer} {maxSize : Nat} (hmax : 0 < maxSize) {rest : Bytes}
    (hrest : rest ≠ []) :
    binStream pk maxSize 0 rest =
      pk.head (.bin (min rest.length maxSize)) ++
        binStream pk maxSize (min rest.length maxSize) rest := by
  rw [Nat.min_comm, binStream, List.take_zero, List.drop_zero, pieces_of_ne_nil hmax hrest,
    List.nil_append, binBytes, List.flatMap_cons, Packer.token, Token.head, Token.body,
    List.length_take, List.append_assoc, binStream, ← List.take_eq_take_min,
    ← List.drop_eq_drop_min]
  rfl

/-- The bytes still announced: of the open binary and of those to come. -/
def PackContentsInfo.bytesLeft (pci : PackContentsInfo) : Nat :=
  pci.bytesLeftInBin + pci.totalBytesLeft

/-- What a call of `pack_contents_body` does with the bytes `xs`: it packs `out`, and whatever
comes after them, the output is that for all bytes together. -/
structure BinsPacked (pk : Packer) (pci pci' : PackContentsInfo) (xs out : Bytes) : Prop where
  maxSize_eq : pci'.maxSize = pci.maxSize
  hasVlen_eq : pci'.hasVlen = pci.hasVlen
  nrBins_eq : pci'.nrBins = pci.nrBins
  bytesLeft_eq : pci'.bytesLeft + xs.length = pci.bytesLeft
  stream : ∀ rest : Bytes, rest.length = pci'.bytesLeft →
    binStream pk pci.maxSize pci.bytesLeftInBin (xs ++ rest) =
      out ++ binStream pk pci.maxSize pci'.bytesLeftInBin rest

theorem BinsPacked.refl (pk : Packer) (pci : PackContentsInfo) : BinsPacked pk pci pci [] [] :=
  ⟨rfl, rfl, rfl, rfl, fun _ _ => rfl⟩

theorem BinsPacked.trans {pk : Packer} {pci pci' pci'' : PackContentsInfo} {xs ys out out' : Bytes}
    (h : BinsPacked pk pci pci' xs out) (h' : BinsPacked pk pci' pci'' ys out') :
    BinsPacked pk pci pci'' (xs ++ ys) (out ++ out') where
  maxSize_eq := h'.maxSize_eq.trans h.maxSize_eq
  hasVlen_eq := h'.hasVlen_eq.trans h.hasVlen_eq
  nrBins_eq := h'.nrBins_eq.trans h.nrBins_eq
  bytesLeft_eq := by
    have := h.bytesLeft_eq
    have := h'.bytesLeft_eq
    rw [List.length_append]
    omega
  stream := by
    intro rest hrest
    have hys : (ys ++ rest).length = pci'.bytesLeft := by
      rw [List.length_append, hrest, Nat.add_comm]
      exact h'.bytesLeft_eq
    rw [List.append_assoc, h.stream _ hys, List.append_assoc, ← h.maxSize_eq, h'.stream rest hrest]

/-- Opening a binary packs its header and no byte. -/
theorem nextBin_packed (pk : Packer) {pci : PackContentsInfo} (hmax : 0 < pci.maxSize)
    (hleft : 0 < pci.bytesLeft) :
    BinsPacked pk pci (nextBin pci) [] (nextBinHead pk pci) ∧
      0 < (nextBin pci).bytesLeftInBin := by
  have hsize : (if pci.totalBytesLeft < pci.maxSize then pci.totalBytesLeft else pci.maxSize) =
      min pci.totalBytesLeft pci.maxSize := by
    split <;> omega
  by_cases hroom : pci.bytesLeftInBin = 0
  · have htotal : pci.bytesLeft = pci.totalBytesLeft := by
      rw [PackContentsInfo.bytesLeft, hroom, Nat.zero_add]
    simp only [nextBin, nextBinHead, if_pos hroom, hsize]
    refine ⟨⟨rfl, rfl, rfl, ?_, fun rest hrest => ?_⟩, by omega⟩
    · simp only [PackContentsInfo.bytesLeft, hroom, List.length_nil]
      omega
    · have hlen : rest.length = pci.totalBytesLeft := by
        rw [hrest]
        simp only [PackContentsInfo.bytesLeft]
        omega
      have hne : rest ≠ [] := List.ne_nil_of_length_pos (by omega)
      rw [hroom, List.nil_append, binStream_zero hmax hne, hlen]
  · simp only [nextBin, nextBinHead, if_neg hroom]
    exact ⟨.refl pk pci, Nat.pos_of_ne_zero hroom⟩

/-- Writing into the open binary packs the bytes. -/
theorem openBin_packed (pk : Packer) (pci : PackContentsInfo) (xs : Bytes)
    (h : xs.length ≤ pci.bytesLeftInBin) :
    BinsPacked pk pci (writeBin pci xs.length) xs xs where
  maxSize_eq := rfl
  hasVlen_eq := rfl
  nrBins_eq := rfl
  bytesLeft_eq := by
    simp only [PackContentsInfo.bytesLeft, writeBin]
    omega
  stream := fun rest _ => binStream_append h rest

/-- **The loop of `pack_contents_body`** packs all bytes it is called with. -/
theorem packBins_packed (pk : Packer) (mem : Nat → UInt8) {pci : PackContentsInfo}
    (offset : Nat) {lenLeft : Nat} (out : Bytes) (hmax : 0 < pci.maxSize)
    (hbins : 0 < lenLeft → 0 < pci.nrBins) (hle : lenLeft ≤ pci.bytesLeft) :
    ∃ pci' o, packBins pk mem pci offset lenLeft out = .ok (pci', out ++ o) ∧
      BinsPacked pk pci pci' ((List.range' offset lenLeft).map mem) o := by
  induction hlen : lenLeft using Nat.strongRecOn generalizing pci offset lenLeft out with
  | _ n ih =>
    subst hlen
    rw [packBins]
    by_cases hzero : lenLeft = 0
    · subst hzero
      exact ⟨pci, [], by rw [dif_pos rfl, List.append_nil], .refl pk pci⟩
    · have hpos : 0 < lenLeft := Nat.pos_of_ne_zero hzero
      have hassert : ¬ (pci.bytesLeftInBin = 0 ∧ pci.nrBins = 0) := fun h =>
        Nat.ne_of_gt (hbins hpos) h.2
      obtain ⟨hnext, hroom⟩ := nextBin_packed pk hmax (by omega)
      have hwrite : (if lenLeft < (nextBin pci).bytesLeftInBin then lenLeft
          else (nextBin pci).bytesLeftInBin) = min lenLeft (nextBin pci).bytesLeftInBin := by
        split <;> omega
      simp only [dif_neg hzero, if_neg hassert, hwrite,
        dif_neg (show ¬ min lenLeft (nextBin pci).bytesLeftInBin = 0 by omega)]
      generalize hn : min lenLeft (nextBin pci).bytesLeftInBin = n
      have hlength : ((List.range' offset n).map mem).length = n := by
        rw [List.length_map, List.length_range']
      have hopen := openBin_packed pk (nextBin pci) ((List.range' offset n).map mem)
        (by omega)
      rw [hlength] at hopen
      have hfirst := hnext.trans hopen
      have hleft := hfirst.bytesLeft_eq
      rw [List.nil_append, hlength] at hleft
      obtain ⟨pci', o, hloop, hrest⟩ := ih (lenLeft - n) (by omega) (offset + n)
        (out ++ nextBinHead pk pci ++ (List.range' offset n).map mem)
        (by rw [hfirst.maxSize_eq]; exact hmax)
        (fun _ => by rw [hfirst.nrBins_eq]; exact hbins hpos) (by omega) rfl
      refine ⟨pci', nextBinHead pk pci ++ (List.range' offset n).map mem ++ o, ?_, ?_⟩
      · rw [hloop]
        simp only [List.append_assoc]
      · have hsplit : List.range' offset lenLeft =
            List.range' offset n ++ List.range' (offset + n) (lenLeft - n) := by
          rw [List.range'_append_1]
          congr 1
          omega
        rw [hsplit, List.map_append]
        exact hfirst.trans hrest

/-! ## 4. The value of the contents -/

def shapeValue (dims : List UInt64) : Value Bytes := intsValue (dims.map fun d => (d.toNat : Int))

/-- The value packed for data of a fixed size. -/
def ndarrayValue (type kind : Value Bytes) (dims : List UInt64) (nrBytes : Nat)
    (bins : List Bytes) : Value Bytes :=
  .map [(.str (ascii "nd"), .bool true), (.str (ascii "type"), type),
    (.str (ascii "kind"), kind), (.str (ascii "shape"), shapeValue dims),
    (.str (ascii "nbytes"), .int (Int.bmod nrBytes (2 ^ 64))),
    (.str (ascii "data"), .array (bins.map .bin))]

/-- The value packed for data of variable length. -/
def vlenValue (dims : List UInt64) (elements : List (Value Bytes)) : Value Bytes :=
  .map [(.str (ascii "vlen"), .bool true), (.str (ascii "shape"), shapeValue dims),
    (.str (ascii "data"), .array elements)]

theorem packShape_eq (dims : List UInt64) :
    packShape dims = .str (ascii "shape") :: (shapeValue dims).tokens := by
  rw [shapeValue, tokens_intsValue, List.length_map, List.map_map]
  rfl

theorem tokens_ndarrayValue (type kind : Value Bytes) (dims : List UInt64) (nrBytes : Nat)
    (bins : List Bytes) :
    (ndarrayValue type kind dims nrBytes bins).tokens =
      [.mapHeader 6, .str (ascii "nd"), .bool true, .str (ascii "type")] ++ type.tokens ++
        [.str (ascii "kind")] ++ kind.tokens ++ packShape dims ++
        [.str (ascii "nbytes"), .int (Int.bmod nrBytes (2 ^ 64)), .str (ascii "data"),
          .arrayHeader bins.length] ++ bins.map .bin := by
  rw [ndarrayValue, packShape_eq]
  simp only [Value.tokens_map, List.length_cons, List.length_nil, List.flatMap_cons,
    List.flatMap_nil, List.length_map, Value.tokens_str, Value.tokens_bool, Value.tokens_int,
    Value.tokens_array, List.flatMap_map, List.append_assoc, List.cons_append, List.nil_append,
    List.append_nil, Value.tokens_bin, ← List.map_eq_flatMap]

theorem tokens_vlenValue (dims : List UInt64) (elements : List (Value Bytes)) :
    (vlenValue dims elements).tokens =
      [.mapHeader 3, .str (ascii "vlen"), .bool true] ++ packShape dims ++
        [.str (ascii "data"), .arrayHeader elements.length] ++
        elements.flatMap Value.tokens := by
  rw [vlenValue, packShape_eq]
  simp only [Value.tokens_map, List.length_cons, List.length_nil, List.flatMap_cons,
    List.flatMap_nil, Value.tokens_str, Value.tokens_bool, Value.tokens_array, List.append_assoc,
    List.cons_append, List.nil_append, List.append_nil]

theorem write_bins (pk : Packer) (bins : List Bytes) :
    pk.write (bins.map .bin) = binBytes pk bins := by
  rw [Packer.write, List.flatMap_map, binBytes]

theorem nrBinsNeeded_ok {maxSize nrBytes nrBins : Nat}
    (h : nrBinsNeeded maxSize nrBytes = .ok nrBins) :
    0 < maxSize ∧ (0 < nrBytes → 0 < nrBins) := by
  unfold nrBinsNeeded at h
  split at h
  · cases h
  rename_i hpos
  dsimp only at h
  split at h
  · cases h
  rename_i hle
  cases h
  refine ⟨not_not.mp hpos, fun hbytes => Nat.pos_of_ne_zero fun hzero => ?_⟩
  rw [hzero, Nat.zero_mul, Nat.zero_mod] at hle
  omega

/-- When `nr_bins_needed` returns, the sum has not wrapped. -/
theorem nrBinsNeeded_lt {maxSize nrBytes nrBins : Nat}
    (h : nrBinsNeeded maxSize nrBytes = .ok nrBins) (hmax : maxSize < 2 ^ 64)
    (hbytes : nrBytes < 2 ^ 64) : nrBytes + maxSize - 1 < 2 ^ 64 := by
  unfold nrBinsNeeded at h
  split at h
  · cases h
  dsimp only at h
  split at h
  · cases h
  rename_i hpos hle
  by_contra hge
  -- a sum that wraps is too small for the assertion
  have hwrap : (nrBytes + maxSize - 1) % 2 ^ 64 = nrBytes + maxSize - 1 - 2 ^ 64 := by omega
  have hmod := Nat.mod_le ((nrBytes + maxSize - 1) % 2 ^ 64 / maxSize * maxSize) (2 ^ 64)
  have hdiv := Nat.div_mul_le_self ((nrBytes + maxSize - 1) % 2 ^ 64) maxSize
  omega

/-- When `nr_bins_needed` returns, it is the quotient, rounded up. -/
theorem nrBinsNeeded_eq {maxSize nrBytes nrBins : Nat}
    (h : nrBinsNeeded maxSize nrBytes = .ok nrBins) (hmax : maxSize < 2 ^ 64)
    (hbytes : nrBytes < 2 ^ 64) : (nrBytes + maxSize - 1) / maxSize = nrBins := by
  have hlt := nrBinsNeeded_lt h hmax hbytes
  unfold nrBinsNeeded at h
  split at h
  · cases h
  dsimp only at h
  split at h
  · cases h
  cases h
  rw [Nat.mod_eq_of_lt hlt]

/-- The header for data of a fixed size announces the binaries of `nrBytes` bytes. -/
theorem packContentsHeader_fixed {pci info : PackContentsInfo} {maxSize nrBytes : Nat}
    {t : Datatype} {dims : List UInt64} {header : List (Token Bytes)}
    (h : packContentsHeader pci maxSize t dims nrBytes = .ok (info, header))
    (ht : detectVlenTypes t = 0) :
    ∃ type : Value Bytes, typeValue t none = some type ∧
      info.maxSize = maxSize ∧ info.hasVlen = 0 ∧ info.bytesLeft = nrBytes ∧
      info.bytesLeftInBin = 0 ∧ 0 < maxSize ∧ (0 < nrBytes → 0 < info.nrBins) ∧
      nrBinsNeeded maxSize nrBytes = .ok info.nrBins ∧
      ∀ bins : List Bytes, bins.length = info.nrBins →
        header ++ bins.map .bin =
          (ndarrayValue type (kindValue t) dims nrBytes bins).tokens := by
  simp only [packContentsHeader, ht, Int.lt_irrefl, if_false, if_true] at h
  split at h
  · cases h
  rename_i nrBins hbins
  split at h
  · rename_i type kind htype hkind
    cases h
    rw [packNumpyType_value] at htype
    obtain ⟨type, hvalue, rfl⟩ := Option.map_eq_some_iff.mp htype
    rw [packNumpyKind_value hvalue] at hkind
    cases hkind
    obtain ⟨hmax, hpos⟩ := nrBinsNeeded_ok hbins
    refine ⟨type, hvalue, rfl, rfl, ?_, rfl, hmax, hpos, hbins, ?_⟩
    · exact Nat.zero_add _
    · rintro bins rfl
      rw [tokens_ndarrayValue]
  · cases h

/-- The number of elements `pack_contents_header` computes. -/
def nrElements (dims : List UInt64) : UInt64 := dims.foldl (fun acc d => acc * d) 1

theorem nrElements_singleton (d : UInt64) : nrElements [d] = d := by
  rw [nrElements, List.foldl_cons, List.foldl_nil, UInt64.one_mul]

/-- The header for data of variable length announces its elements. -/
theorem packContentsHeader_vlen {pci info : PackContentsInfo} {maxSize nrBytes : Nat}
    {t : Datatype} {dims : List UInt64} {header : List (Token Bytes)}
    (h : packContentsHeader pci maxSize t dims nrBytes = .ok (info, header))
    (ht : 0 < detectVlenTypes t) :
    info.maxSize = maxSize ∧ info.hasVlen = detectVlenTypes t ∧
      ∀ elements : List (Value Bytes), elements.length = (nrElements dims).toNat →
        header ++ elements.flatMap Value.tokens = (vlenValue dims elements).tokens := by
  simp only [packContentsHeader, if_pos ht] at h
  split at h
  · cases h
  cases h
  refine ⟨rfl, rfl, fun elements hlen => ?_⟩
  rw [tokens_vlenValue, hlen]
  rfl

/-! ## 5. The calls for all elements -/

theorem map_eq_ok {ε α β : Type} {x : Except ε α} {f : α → β} {b : β} (h : x.map f = .ok b) :
    ∃ a, x = .ok a ∧ f a = b := by
  cases x with
  | error e => cases h
  | ok a => exact ⟨a, rfl, Except.ok.inj h⟩

/-- `n` bytes are in memory. -/
def Buffer.HoldsBytes (buffer : Buffer) (n : Nat) : Prop := n = 0 ∨ ∃ mem, buffer = .bytes mem

theorem length_read (buffer : Buffer) (n : Nat) : (buffer.read n).length = n := by
  rw [Buffer.read, List.length_map, List.length_range']

/-- A body of data of a fixed size. -/
theorem packContentsBody_bytes (pk : Packer) (t : Datatype) {pci : PackContentsInfo}
    {buffer : Buffer} (count n : Nat)
    (hvlen : pci.hasVlen = 0) (hmax : 0 < pci.maxSize) (hbins : 0 < n → 0 < pci.nrBins)
    (hle : n ≤ pci.bytesLeft) (hholds : buffer.HoldsBytes n) :
    ∃ pci' out, packContentsBody pk pci t count buffer n = .ok (pci', out) ∧
      BinsPacked pk pci pci' (buffer.read n) out := by
  rw [packContentsBody.eq_def, if_neg (by omega), if_pos hvlen]
  rcases hholds with rfl | ⟨mem, rfl⟩
  · rcases buffer with _ | mem | str | ⟨len, p⟩
    · exact ⟨pci, [], rfl, .refl pk pci⟩
    · refine ⟨pci, [], ?_, .refl pk pci⟩
      dsimp only
      rw [packBins, dif_pos rfl]
    · exact ⟨pci, [], rfl, .refl pk pci⟩
    · exact ⟨pci, [], rfl, .refl pk pci⟩
  · obtain ⟨pci', out, hloop, hpacked⟩ := packBins_packed pk mem 0 [] hmax hbins hle
    exact ⟨pci', out, hloop, hpacked⟩

/-- The calls of `pack_contents_body`, one after the other: for each the number of elements, the
buffer, and its length. -/
def packBodyCalls (pk : Packer) (dtype : Datatype) :
    List (Nat × Buffer × Nat) → PackContentsInfo → Except Failure (PackContentsInfo × Bytes)
  | [], pci => .ok (pci, [])
  | (count, buffer, bufferLen) :: calls, pci =>
    match packContentsBody pk pci dtype count buffer bufferLen with
    | .error e => .error e
    | .ok (pci, out) => (packBodyCalls pk dtype calls pci).map fun x => (x.1, out ++ x.2)

/-- The bytes in the buffers. -/
def bytesRead (calls : List (Nat × Buffer × Nat)) : Bytes :=
  calls.flatMap fun call => call.2.1.read call.2.2

/-- **The calls of `pack_contents_body`** pack all the bytes they are called with. -/
theorem packBodyCalls_packed (pk : Packer) (t : Datatype) {calls : List (Nat × Buffer × Nat)}
    {pci : PackContentsInfo} (hvlen : pci.hasVlen = 0) (hmax : 0 < pci.maxSize)
    (hbins : 0 < (bytesRead calls).length → 0 < pci.nrBins)
    (hle : (bytesRead calls).length ≤ pci.bytesLeft)
    (hholds : ∀ call ∈ calls, call.2.1.HoldsBytes call.2.2) :
    ∃ pci' out, packBodyCalls pk t calls pci = .ok (pci', out) ∧
      BinsPacked pk pci pci' (bytesRead calls) out := by
  induction calls generalizing pci with
  | nil => exact ⟨pci, [], rfl, .refl pk pci⟩
  | cons call calls ih =>
    obtain ⟨count, buffer, n⟩ := call
    have hread : bytesRead ((count, buffer, n) :: calls) = buffer.read n ++ bytesRead calls :=
      List.flatMap_cons
    rw [hread, List.length_append, length_read] at hbins hle
    obtain ⟨pci₁, out₁, hbody, hpacked⟩ := packContentsBody_bytes pk t count n hvlen hmax
      (fun h => hbins (by omega)) (by omega) (hholds (count, buffer, n) List.mem_cons_self)
    have hleft := hpacked.bytesLeft_eq
    rw [length_read] at hleft
    obtain ⟨pci', out', hcalls, hrest⟩ := ih (hpacked.hasVlen_eq.trans hvlen)
      (by rw [hpacked.maxSize_eq]; exact hmax)
      (fun hpos => by rw [hpacked.nrBins_eq]; exact hbins (by omega)) (by omega)
      fun call hcall => hholds call (List.mem_cons_of_mem _ hcall)
    refine ⟨pci', out₁ ++ out', ?_, ?_⟩
    · rw [packBodyCalls, hbody]
      dsimp only
      rw [hcalls]
      rfl
    · rw [hread]
      exact hpacked.trans hrest

end HdfStream.Pack
