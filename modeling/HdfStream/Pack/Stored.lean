/-
# What is stored, and what a call reads

`H5Dread` is called for one selection after the other, and each time `pack_contents_body` packs
what it has put into the buffer.  The encoding of the whole array is meant for the elements as they
are stored, all together.  Here the two are brought together: if the selections are all rows, in
order, the encoding of the pieces is the encoding of the stored elements (`arrayValue_chunks`).
-/
import HdfStream.Pack.Attributes

namespace HdfStream.Pack

open Msgpack Pieces

/-! ## 1. Lists of indices -/

/-- The index of element `k` of a list of rows of `n` elements each. -/
def rowIndex (n : Nat) (rows : List Nat) (k : Nat) : Nat := rows.getD (k / n) 0 * n + k % n

theorem rowIndex_cons {n : Nat} (hn : 0 < n) (row : Nat) (rows : List Nat) (k : Nat) :
    rowIndex n (row :: rows) (n + k) = rowIndex n rows k := by
  have hdiv : (n + k) / n = k / n + 1 := by rw [Nat.add_comm, Nat.add_div_right k hn]
  rw [rowIndex, rowIndex, hdiv, List.getD_cons_succ, Nat.add_mod_left]

/-- The elements of rows, one row after the other. -/
theorem map_rowIndex {n : Nat} (hn : 0 < n) (rows : List Nat) :
    (List.range' 0 (rows.length * n)).map (rowIndex n rows) =
      rows.flatMap fun row => List.range' (row * n) n := by
  induction rows with
  | nil => rw [List.length_nil, Nat.zero_mul]; rfl
  | cons row rows ih =>
    have hsplit : List.range' 0 ((row :: rows).length * n) =
        List.range' 0 n ++ (List.range' 0 (rows.length * n)).map (n + ·) := by
      rw [List.map_add_range', Nat.add_zero, List.length_cons, Nat.succ_mul, Nat.add_comm,
        ← List.range'_append_1, Nat.zero_add]
    have hfirst : (List.range' 0 n).map (rowIndex n (row :: rows)) = List.range' (row * n) n := by
      have hmap := List.map_add_range' (a := row * n) 0 n 1
      rw [Nat.add_zero] at hmap
      rw [← hmap]
      refine List.map_congr_left fun k hk => ?_
      have hlt : k < n := by have := List.mem_range'_1.mp hk; omega
      rw [rowIndex, Nat.div_eq_of_lt hlt, Nat.mod_eq_of_lt hlt, List.getD_cons_zero]
    rw [hsplit, List.map_append, hfirst, List.map_map, List.flatMap_cons, ← ih]
    exact congrArg _ (List.map_congr_left fun k _ => rowIndex_cons hn row rows k)

/-- The elements of the first rows. -/
theorem flatMap_rows (d n : Nat) :
    ((List.range' 0 d).flatMap fun row => List.range' (row * n) n) = List.range' 0 (d * n) := by
  induction d with
  | zero => rw [Nat.zero_mul]; rfl
  | succ d ih =>
    rw [List.range'_1_concat, List.flatMap_append, ih, List.flatMap_singleton, Nat.succ_mul,
      Nat.zero_add, ← List.range'_append_1, Nat.zero_add]

theorem mapM_option_append {α β : Type} (f : α → Option β) (l l' : List α) :
    (l ++ l').mapM f = (l.mapM f).bind fun bs => (l'.mapM f).map (bs ++ ·) := by
  induction l with
  | nil =>
    show l'.mapM f = (l'.mapM f).map ([] ++ ·)
    exact Option.map_id'.symm
  | cons a l ih =>
    rw [List.cons_append, mapM_option_cons, mapM_option_cons, ih]
    rcases f a with _ | b
    · rfl
    · rcases l.mapM f with _ | bs
      · rfl
      · rcases l'.mapM f with _ | bs'
        · rfl
        · rfl

theorem mapM_option_map {α β γ : Type} (f : β → Option γ) (g : α → β) (l : List α) :
    (l.map g).mapM f = l.mapM fun a => f (g a) := by
  induction l with
  | nil => rfl
  | cons a l ih => rw [List.map_cons, mapM_option_cons, mapM_option_cons, ih]

theorem mapM_option_congr {α β : Type} {f g : α → Option β} {l : List α}
    (h : ∀ a ∈ l, f a = g a) : l.mapM f = l.mapM g := by
  induction l with
  | nil => rfl
  | cons a l ih =>
    rw [mapM_option_cons, mapM_option_cons, h a List.mem_cons_self,
      ih fun b hb => h b (List.mem_cons_of_mem _ hb)]

theorem mapM_flatMap {α β γ : Type} (f : β → Option γ) (g : α → List β) (l : List α) :
    (l.flatMap g).mapM f = (l.mapM fun a => (g a).mapM f).map List.flatten := by
  induction l with
  | nil => rfl
  | cons a l ih =>
    rw [List.flatMap_cons, mapM_option_append, mapM_option_cons, ih]
    rcases (g a).mapM f with _ | cs
    · rfl
    · rcases l.mapM fun a => (g a).mapM f with _ | css
      · rfl
      · rfl

/-! ## 2. Elements of a buffer -/

/-- The elements at these indices; elements of a fixed size have `size` bytes. -/
def Buffer.gather (size : Nat) (index : Nat → Nat) : Buffer → Buffer
  | .null => .null
  | .bytes mem => .bytes fun i => mem (index (i / size) * size + i % size)
  | .strings str => .strings fun i => str (index i)
  | .sequences len p => .sequences (fun i => len (index i)) fun i => p (index i)

/-- The elements are pointers, which are read. -/
def Datatype.pointers : Datatype → Bool
  | .string _ variableStr => variableStr
  | .vlen _ => true
  | _ => false

/-- The encoding of one such element. -/
def elementValue (maxSize : Nat) : Datatype → Buffer → Nat → Option (Value Bytes)
  | .vlen super, buffer, i =>
    arrayValue maxSize super (elements maxSize super) [buffer.len i]
      [{ count := (buffer.len i).toNat, buffer := buffer.p i }]
  | _, buffer, i => some (.str ((buffer.str i).getD []))

variable {maxSize : Nat} {t : Datatype}

theorem Datatype.hasVariable_of_pointers (h : t.pointers = true) : t.hasVariable = true := by
  cases t with
  | string size variableStr => exact h
  | vlen super => rfl
  | _ => cases h

theorem elements_eq (h : t.pointers = true) (buffer : Buffer) (count : Nat) :
    elements maxSize t buffer count =
      (List.range' 0 count).mapM (elementValue maxSize t buffer) := by
  cases t with
  | string size variableStr =>
    have hvar : variableStr = true := h
    have hsome : ∀ l : List Nat,
        l.mapM (elementValue maxSize (.string size variableStr) buffer) =
          some (l.map fun i => .str ((buffer.str i).getD [])) := by
      intro l
      induction l with
      | nil => rfl
      | cons i l ih => rw [mapM_option_cons, ih]; rfl
    rw [elements, if_pos hvar, hsome]
  | vlen super => rfl
  | _ => cases h

/-- Types without pointers that have variable length have no encoding. -/
theorem elements_none (h : t.pointers = false) (buffer : Buffer) (count : Nat) :
    elements maxSize t buffer count = none := by
  cases t with
  | string size variableStr =>
    have hvar : variableStr = false := h
    rw [elements, if_neg (by rw [hvar]; exact Bool.false_ne_true)]
  | vlen super => cases h
  | _ => rfl

/-- The pointer at `i` in one buffer is that at `j` in the other. -/
def SameElement (t : Datatype) (buffer : Buffer) (i : Nat) (buffer' : Buffer) (j : Nat) : Prop :=
  match t with
  | .string _ variableStr => variableStr = true → buffer.str i = buffer'.str j
  | .vlen _ => buffer.len i = buffer'.len j ∧ buffer.p i = buffer'.p j
  | _ => True

theorem SameElement.trans {buffer buffer' buffer'' : Buffer} {i j k : Nat}
    (h : SameElement t buffer i buffer' j) (h' : SameElement t buffer' j buffer'' k) :
    SameElement t buffer i buffer'' k := by
  cases t with
  | string size variableStr => exact fun hvar => (h hvar).trans (h' hvar)
  | vlen super => exact ⟨h.1.trans h'.1, h.2.trans h'.2⟩
  | _ => trivial

/-- The elements that were read are those stored. -/
theorem same_readBuffer (stored initial : Buffer) {points i : Nat} (hi : i < points) :
    SameElement t (readBuffer t stored initial points) i stored i := by
  cases t with
  | string size variableStr =>
    intro hvar
    rw [readBuffer, if_pos hvar]
    exact if_pos hi
  | vlen super => exact ⟨if_pos hi, if_pos hi⟩
  | _ => trivial

theorem same_gather (size : Nat) (index : Nat → Nat) (stored : Buffer) (i : Nat) :
    SameElement t (stored.gather size index) i stored (index i) := by
  cases t with
  | string size variableStr => cases stored <;> exact fun _ => rfl
  | vlen super => cases stored <;> exact ⟨rfl, rfl⟩
  | _ => trivial

theorem same_read (size : Nat) (index : Nat → Nat) (stored initial : Buffer) {count i : Nat}
    (hi : i < count) :
    SameElement t (readBuffer t (stored.gather size index) initial count) i stored (index i) :=
  (same_readBuffer _ initial hi).trans (same_gather size index stored i)

theorem SameElement.elementValue {buffer buffer' : Buffer} {i j : Nat} (ht : t.pointers = true)
    (h : SameElement t buffer i buffer' j) :
    elementValue maxSize t buffer i = elementValue maxSize t buffer' j := by
  cases t with
  | string size variableStr =>
    show some (Value.str ((buffer.str i).getD [])) = some (Value.str ((buffer'.str j).getD []))
    rw [h ht]
  | vlen super =>
    rw [Pack.elementValue, Pack.elementValue, h.1, h.2]
  | _ => cases ht

/-- The element is no null pointer, nor are those behind it. -/
def Buffer.NonNullAt : Datatype → Buffer → Nat → Prop
  | .string _ variableStr, buffer, i => variableStr = true → (buffer.str i).isSome
  | .vlen super, buffer, i => (buffer.p i).NonNull super (buffer.len i).toNat
  | _, _, _ => True

/-- The sequence is not too long, nor are those behind it. -/
def Buffer.ShortAt (maxSize : Nat) : Datatype → Buffer → Nat → Prop
  | .vlen super, buffer, i =>
    (super.hasVariable = true → (buffer.len i).toNat ≤ maxSize) ∧
      (buffer.p i).Short maxSize super (buffer.len i).toNat
  | _, _, _ => True

/-- The sequence is in memory. -/
def Buffer.HoldsAt (maxSize : Nat) : Datatype → Buffer → Nat → Prop
  | .vlen super, buffer, i =>
    (super.hasVariable = false → (buffer.len i).toNat * super.size.toNat + maxSize < 2 ^ 64) ∧
      (buffer.p i).Holds maxSize super (buffer.len i).toNat
  | _, _, _ => True

theorem nonNull_iff (buffer : Buffer) (n : Nat) :
    buffer.NonNull t n ↔ ∀ i < n, buffer.NonNullAt t i := by
  cases t with
  | string size variableStr =>
    exact ⟨fun h i hi hvar => h hvar i hi, fun h hvar i hi => h i hi hvar⟩
  | vlen super => rfl
  | _ => exact iff_of_true trivial fun _ _ => trivial

theorem short_iff (buffer : Buffer) (n : Nat) :
    buffer.Short maxSize t n ↔ ∀ i < n, buffer.ShortAt maxSize t i := by
  cases t with
  | vlen super => rfl
  | _ => exact iff_of_true trivial fun _ _ => trivial

theorem Buffer.Holds.at {buffer : Buffer} {n : Nat} (h : buffer.Holds maxSize t n) :
    ∀ i < n, buffer.HoldsAt maxSize t i := by
  cases t with
  | vlen super => exact h.2
  | _ => exact fun _ _ => trivial

theorem readBuffer_holds {stored initial : Buffer} {points n : Nat}
    (h : ∀ i < n, (readBuffer t stored initial points).HoldsAt maxSize t i) :
    (readBuffer t stored initial points).Holds maxSize t n := by
  cases t with
  | string size variableStr =>
    rw [Buffer.Holds, readBuffer]
    split
    · exact .inr ⟨_, rfl⟩
    · exact .inr ⟨_, rfl⟩
  | vlen super => exact ⟨.inr ⟨_, _, rfl⟩, h⟩
  | _ =>
    rw [Buffer.Holds.eq_def]
    dsimp only
    split
    · exact trivial
    · exact .inr ⟨_, rfl⟩

section

variable {buffer buffer' : Buffer} {i j : Nat}

theorem SameElement.nonNullAt (h : SameElement t buffer i buffer' j) :
    buffer.NonNullAt t i ↔ buffer'.NonNullAt t j := by
  cases t with
  | string size variableStr =>
    refine forall_congr' fun hvar => ?_
    rw [h hvar]
  | vlen super => rw [Buffer.NonNullAt, Buffer.NonNullAt, h.1, h.2]
  | _ => rfl

theorem SameElement.shortAt (h : SameElement t buffer i buffer' j) :
    buffer.ShortAt maxSize t i ↔ buffer'.ShortAt maxSize t j := by
  cases t with
  | vlen super => rw [Buffer.ShortAt, Buffer.ShortAt, h.1, h.2]
  | _ => rfl

theorem SameElement.holdsAt (h : SameElement t buffer i buffer' j) :
    buffer.HoldsAt maxSize t i ↔ buffer'.HoldsAt maxSize t j := by
  cases t with
  | vlen super => rw [Buffer.HoldsAt, Buffer.HoldsAt, h.1, h.2]
  | _ => rfl

theorem holdsAt_of_pointers (ht : t.pointers = false) (buffer : Buffer) (i : Nat) :
    buffer.HoldsAt maxSize t i := by
  cases t with
  | vlen super => cases ht
  | _ => trivial

theorem nonNullAt_of_pointers (ht : t.pointers = false) (buffer : Buffer) (i : Nat) :
    buffer.NonNullAt t i := by
  cases t with
  | string size variableStr =>
    have hvar : variableStr = false := ht
    rw [hvar]
    exact fun h => by cases h
  | vlen super => cases ht
  | _ => trivial

end

theorem mem_gather (size : Nat) (index : Nat → Nat) (stored : Buffer) (i : Nat) :
    (stored.gather size index).mem i = stored.mem (index (i / size) * size + i % size) := by
  cases stored <;> rfl

theorem mem_readBuffer (h : t.hasVariable = false) (stored initial : Buffer) {points i : Nat}
    (hi : i < points * t.size.toNat) :
    (readBuffer t stored initial points).mem i = stored.mem i := by
  cases t with
  | string size variableStr =>
    have hne : ¬ variableStr = true := by
      rw [Datatype.hasVariable] at h
      rw [h]
      exact Bool.false_ne_true
    rw [Datatype.size, if_neg hne] at hi
    rw [readBuffer, if_neg hne]
    exact if_pos hi
  | vlen super => cases h
  | _ => exact if_pos hi

/-- The bytes of an element of a fixed size. -/
def elementBytes (size : Nat) (buffer : Buffer) (k : Nat) : Bytes :=
  (List.range' 0 size).map fun j => buffer.mem (k * size + j)

theorem read_mul (buffer : Buffer) (n size : Nat) :
    buffer.read (n * size) = (List.range' 0 n).flatMap (elementBytes size buffer) := by
  rw [Buffer.read, ← flatMap_rows, List.map_flatMap]
  refine congrArg (List.flatMap · _) (funext fun k => ?_)
  have hmap := List.map_add_range' (a := k * size) 0 size 1
  rw [Nat.add_zero] at hmap
  rw [← hmap, List.map_map]
  rfl

theorem elementBytes_gather (size : Nat) (index : Nat → Nat) (stored : Buffer) (k : Nat) :
    elementBytes size (stored.gather size index) k = elementBytes size stored (index k) := by
  refine List.map_congr_left fun j hj => ?_
  have hlt : j < size := by have := List.mem_range'_1.mp hj; omega
  have hpos : 0 < size := by omega
  rw [mem_gather, Nat.add_comm (k * size), Nat.add_mul_div_right j k hpos, Nat.div_eq_of_lt hlt,
    Nat.zero_add, Nat.add_mul_mod_self_right, Nat.mod_eq_of_lt hlt]

theorem read_readBuffer (h : t.hasVariable = false) (stored initial : Buffer) {points n : Nat}
    (hle : n ≤ points * t.size.toNat) :
    (readBuffer t stored initial points).read n = stored.read n :=
  List.map_congr_left fun i hi => mem_readBuffer h stored initial (by
    have := List.mem_range'_1.mp hi
    omega)

theorem elements_readBuffer (h : t.pointers = true) (stored initial : Buffer) {points n : Nat}
    (hle : n ≤ points) :
    elements maxSize t (readBuffer t stored initial points) n = elements maxSize t stored n := by
  rw [elements_eq h, elements_eq h]
  exact mapM_option_congr fun i hi => (same_readBuffer stored initial (by
    have := List.mem_range'_1.mp hi
    omega)).elementValue h

/-! ## 3. The encoding of what is read -/

/-- The encoding of an array of data of a fixed size, with one call. -/
theorem arrayValue_fixed (h : t.hasVariable = false) (dims : List UInt64) (count : Nat)
    (buffer : Buffer) :
    arrayValue maxSize t (elements maxSize t) dims [{ count := count, buffer := buffer }] =
      (typeValue t none).map fun type =>
        ndarrayValue type (kindValue t) dims (count * t.size.toNat)
          (pieces maxSize (buffer.read (count * t.size.toNat))) := by
  rw [arrayValue, if_neg (by rw [h]; exact Bool.false_ne_true), countOf_one, bytesOf,
    List.flatMap_cons, List.flatMap_nil, List.append_nil]

/-- With one call, the encoding is that of the stored elements. -/
theorem arrayValue_readBuffer (dims : List UInt64) (stored initial : Buffer) {count points : Nat}
    (hle : count ≤ points) :
    arrayValue maxSize t (elements maxSize t) dims
        [{ count := count, buffer := readBuffer t stored initial points }] =
      arrayValue maxSize t (elements maxSize t) dims [{ count := count, buffer := stored }] := by
  by_cases hvar : t.hasVariable = true
  · have helements : elements maxSize t (readBuffer t stored initial points) count =
        elements maxSize t stored count := by
      by_cases hpointers : t.pointers = true
      · exact elements_readBuffer hpointers stored initial hle
      · rw [elements_none (Bool.eq_false_iff.mpr hpointers),
          elements_none (Bool.eq_false_iff.mpr hpointers)]
    rw [arrayValue, arrayValue, if_pos hvar, if_pos hvar, mapM_option_cons, mapM_option_cons,
      helements]
    rfl
  · have hfixed : t.hasVariable = false := Bool.eq_false_iff.mpr hvar
    rw [arrayValue_fixed hfixed, arrayValue_fixed hfixed,
      read_readBuffer hfixed stored initial (Nat.mul_le_mul_right _ hle)]

/-- Whether there is an encoding does not depend on the elements, if they are no pointers. -/
theorem arrayValue_none_congr (ht : t.pointers = false) {dims : List UInt64} {count : Nat}
    {buffer buffer' : Buffer}
    (h : arrayValue maxSize t (elements maxSize t) dims [{ count := count, buffer := buffer }] =
      none) :
    arrayValue maxSize t (elements maxSize t) dims [{ count := count, buffer := buffer' }] =
      none := by
  by_cases hvar : t.hasVariable = true
  · rw [arrayValue, if_pos hvar, mapM_option_cons, elements_none ht]
    split <;> rfl
  · have hfixed : t.hasVariable = false := Bool.eq_false_iff.mpr hvar
    rw [arrayValue_fixed hfixed, Option.map_eq_none_iff] at h
    rw [arrayValue_fixed hfixed, h]
    rfl

/-- More elements of variable length than the limit have no encoding. -/
theorem arrayValue_tooMany (hvar : t.hasVariable = true) (dims : List UInt64)
    {calls : List BodyCall} (h : maxSize < countOf calls) :
    arrayValue maxSize t (elements maxSize t) dims calls = none := by
  rw [arrayValue, if_pos hvar, if_pos h]

/-- All elements in one call, and no call if there are none. -/
def wholeCalls (n : Nat) (stored : Buffer) : List BodyCall :=
  if n = 0 then [] else [{ count := n, buffer := stored }]

theorem countOf_wholeCalls (n : Nat) (stored : Buffer) : countOf (wholeCalls n stored) = n := by
  rw [wholeCalls]
  split
  · rename_i hzero
    exact hzero.symm
  · exact countOf_one _

section

variable {α : Type} {chunks : List α} {count : α → Nat} {index : α → Nat → Nat} {n : Nat}

/-- The call for a chunk: the stored elements at its indices are read. -/
def readCall (t : Datatype) (stored initial : Buffer) (count : α → Nat) (index : α → Nat → Nat)
    (c : α) : BodyCall :=
  { count := count c
    buffer := readBuffer t (stored.gather t.size.toNat (index c)) initial (count c) }

theorem sum_counts
    (h : (chunks.flatMap fun c => (List.range' 0 (count c)).map (index c)) = List.range' 0 n) :
    (chunks.map count).sum = n := by
  have hlength := congrArg List.length h
  rw [List.length_flatMap, List.length_range'] at hlength
  rw [← hlength]
  refine congrArg List.sum (List.map_congr_left fun c _ => ?_)
  rw [List.length_map, List.length_range']

theorem countOf_readCalls (stored initial : Buffer)
    (h : (chunks.flatMap fun c => (List.range' 0 (count c)).map (index c)) = List.range' 0 n) :
    countOf (chunks.map (readCall t stored initial count index)) = n := by
  rw [countOf, List.map_map]
  exact sum_counts h

/-- What holds at all elements of the chunks holds at all elements. -/
theorem forall_elements
    (h : (chunks.flatMap fun c => (List.range' 0 (count c)).map (index c)) = List.range' 0 n)
    (P : Nat → Prop) : (∀ c ∈ chunks, ∀ i < count c, P (index c i)) ↔ ∀ k < n, P k := by
  have hmem : ∀ k, k < n ↔ ∃ c ∈ chunks, ∃ i < count c, index c i = k := by
    intro k
    have hlt : k < n ↔ k ∈ List.range' 0 n := by rw [List.mem_range'_1]; omega
    rw [hlt, ← h, List.mem_flatMap]
    refine exists_congr fun c => and_congr_right fun _ => ?_
    rw [List.mem_map]
    refine exists_congr fun i => and_congr_left fun _ => ?_
    rw [List.mem_range'_1]
    omega
  constructor
  · intro hP k hk
    obtain ⟨c, hc, i, hi, rfl⟩ := (hmem k).mp hk
    exact hP c hc i hi
  · exact fun hP c hc i hi => hP _ ((hmem _).mpr ⟨c, hc, i, hi, rfl⟩)

/-- What is read is in memory, if the stored elements are. -/
theorem readCalls_holds (initial : Buffer) {stored : Buffer}
    (h : (chunks.flatMap fun c => (List.range' 0 (count c)).map (index c)) = List.range' 0 n)
    (hstored : t.pointers = true → stored.Holds maxSize t n) :
    ∀ call ∈ chunks.map (readCall t stored initial count index),
      call.buffer.Holds maxSize t call.count := by
  intro call hcall
  obtain ⟨c, hc, rfl⟩ := List.mem_map.mp hcall
  refine readBuffer_holds fun i hi => (same_read _ (index c) stored initial hi).holdsAt.mpr ?_
  by_cases ht : t.pointers = true
  · exact (forall_elements h fun k => stored.HoldsAt maxSize t k).mpr (hstored ht).at c hc i hi
  · exact holdsAt_of_pointers (Bool.eq_false_iff.mpr ht) _ _

/-- A null pointer is read if and only if one is stored. -/
theorem readCalls_nonNull (stored initial : Buffer)
    (h : (chunks.flatMap fun c => (List.range' 0 (count c)).map (index c)) = List.range' 0 n) :
    (∀ call ∈ chunks.map (readCall t stored initial count index),
      call.buffer.NonNull t call.count) ↔ stored.NonNull t n := by
  rw [List.forall_mem_map, nonNull_iff, ← forall_elements h]
  refine forall₂_congr fun c _ => (nonNull_iff _ _).trans ?_
  exact forall₂_congr fun i hi => (same_read _ (index c) stored initial hi).nonNullAt

theorem readCalls_short (stored initial : Buffer)
    (h : (chunks.flatMap fun c => (List.range' 0 (count c)).map (index c)) = List.range' 0 n) :
    (∀ call ∈ chunks.map (readCall t stored initial count index),
      call.buffer.Short maxSize t call.count) ↔ stored.Short maxSize t n := by
  rw [List.forall_mem_map, short_iff, ← forall_elements h]
  refine forall₂_congr fun c _ => (short_iff _ _).trans ?_
  exact forall₂_congr fun i hi => (same_read _ (index c) stored initial hi).shortAt

/-- **The encoding of all the chunks** is the encoding of the stored elements, if the chunks have
them in order. -/
theorem arrayValue_chunks (dims : List UInt64) (stored initial : Buffer)
    (hpos : ∀ c ∈ chunks, 0 < count c)
    (h : (chunks.flatMap fun c => (List.range' 0 (count c)).map (index c)) = List.range' 0 n) :
    arrayValue maxSize t (elements maxSize t) dims
        (chunks.map (readCall t stored initial count index)) =
      arrayValue maxSize t (elements maxSize t) dims (wholeCalls n stored) := by
  have hcount := countOf_readCalls (t := t) stored initial h
  have hwhole := countOf_wholeCalls n stored
  have hnone : n = 0 → chunks = [] := by
    intro hzero
    cases hchunks : chunks with
    | nil => rfl
    | cons c rest =>
      have hc : c ∈ chunks := by rw [hchunks]; exact List.mem_cons_self
      have hlt := (forall_elements h (· < n)).mpr (fun _ hk => hk) c hc 0 (hpos c hc)
      omega
  rw [arrayValue, arrayValue, hcount, hwhole]
  by_cases hzero : n = 0
  · rw [hnone hzero, wholeCalls, if_pos hzero]
    rfl
  by_cases hvar : t.hasVariable = true
  · rw [if_pos hvar, if_pos hvar]
    refine if_congr Iff.rfl rfl ?_
    by_cases hpointers : t.pointers = true
    · -- element by element
      have hchunks : ((chunks.map (readCall t stored initial count index)).mapM fun call =>
          elements maxSize t call.buffer call.count) =
            chunks.mapM fun c => ((List.range' 0 (count c)).map (index c)).mapM
              (elementValue maxSize t stored) := by
        rw [mapM_option_map]
        refine mapM_option_congr fun c _ => ?_
        rw [readCall]
        dsimp only
        rw [elements_readBuffer hpointers _ initial (Nat.le_refl _), elements_eq hpointers,
          mapM_option_map]
        exact mapM_option_congr fun i _ => (same_gather _ _ stored i).elementValue hpointers
      have hall : ((chunks.map (readCall t stored initial count index)).mapM fun call =>
          elements maxSize t call.buffer call.count).map List.flatten =
            elements maxSize t stored n := by
        rw [hchunks, ← mapM_flatMap, h, elements_eq hpointers]
      rw [wholeCalls, if_neg hzero, mapM_option_cons]
      dsimp only
      rw [← hall]
      generalize List.mapM (fun call => elements maxSize t call.buffer call.count)
        (chunks.map (readCall t stored initial count index)) = values
      rcases values with _ | vss
      · rfl
      · show some (vlenValue dims vss.flatten) = some (vlenValue dims [vss.flatten].flatten)
        rw [List.flatten_singleton]
    · -- no element has an encoding, and there is one
      have hfalse : t.pointers = false := Bool.eq_false_iff.mpr hpointers
      rw [wholeCalls, if_neg hzero, mapM_option_cons, elements_none hfalse]
      cases hchunks : chunks with
      | nil =>
        rw [hchunks] at hcount
        exact absurd hcount.symm hzero
      | cons c rest =>
        rw [List.map_cons, mapM_option_cons, elements_none hfalse]
        rfl
  · have hfixed : t.hasVariable = false := Bool.eq_false_iff.mpr hvar
    have hbytes : bytesOf t.size.toNat (chunks.map (readCall t stored initial count index)) =
        stored.read (n * t.size.toNat) := by
      rw [read_mul, ← h, List.flatMap_assoc, bytesOf, List.flatMap_map]
      refine congrArg (List.flatMap · _) (funext fun c => ?_)
      rw [readCall]
      dsimp only
      rw [read_readBuffer hfixed _ initial (Nat.le_refl _), read_mul, List.flatMap_map]
      exact congrArg (List.flatMap · _) (funext fun k => elementBytes_gather _ _ stored k)
    rw [if_neg hvar, if_neg hvar, hbytes, wholeCalls, if_neg hzero, bytesOf, List.flatMap_cons,
      List.flatMap_nil, List.append_nil]

end

end HdfStream.Pack
