/-
# Slices as MessagePack, there and back

`SliceInfo.pack` writes slices that differ in the first dimension only as nested arrays, the form
`fromUnpacker` reads.  What is read back are the same slices (`fromUnpacker_pack`), with one
exception: without dimensions the number of slices is not written, and is 1 afterwards.
-/
import HdfStream.Webapp.SliceInfo

namespace HdfStream.Webapp

open Java Msgpack

variable {α : Type}

/-! ## 1. `pack` -/

/-- The starts of the first dimension. -/
def SliceInfo.packStarts (slice : SliceInfo) : List (Token Bytes) :=
  if slice.nrSlices = 1 then [.int (slice.starts.getD 0 0)]
  else
    .arrayHeader slice.nrSlices.toNat ::
      (List.range slice.nrSlices.toNat).map fun sliceNr =>
        .int (slice.starts.getD (sliceNr * slice.rank.toNat) 0)

/-- `counts_is_array`: not all counts are the same. -/
def SliceInfo.countsIsArray (slice : SliceInfo) : Bool :=
  (List.range' 1 (slice.nrSlices.toNat - 1)).any fun sliceNr =>
    slice.counts.getD (sliceNr * slice.rank.toNat) 0 != slice.counts.getD 0 0

/-- The counts of the first dimension. -/
def SliceInfo.packCounts (slice : SliceInfo) : List (Token Bytes) :=
  if slice.countsIsArray then
    .arrayHeader slice.nrSlices.toNat ::
      (List.range slice.nrSlices.toNat).map fun sliceNr =>
        .int (slice.counts.getD (sliceNr * slice.rank.toNat) 0)
  else [.int (slice.counts.getD 0 0)]

/-- `pack`. -/
def SliceInfo.pack (slice : SliceInfo) : List (Token Bytes) :=
  .arrayHeader slice.rank.toNat ::
    (List.range slice.rank.toNat).flatMap fun dimNr =>
      .arrayHeader 2 ::
        if dimNr = 0 then slice.packStarts ++ slice.packCounts
        else [.int (slice.starts.getD dimNr 0), .int (slice.counts.getD dimNr 0)]

/-! ## 2. Reading back -/

theorem refuseIf_false {c : Prop} [Decidable c] (h : ¬ c) (message : String)
    (s : List (Token Bytes)) : refuseIf c message s = .ok ((), s) := by
  rw [refuseIf, if_neg h]
  rfl

theorem catchType_ok {x : Unpack Bytes Thrown α} {s : List (Token Bytes)}
    {r : α × List (Token Bytes)} (h : x s = .ok r) (message : String) :
    catchType message x s = .ok r := by
  rw [catchType, h]

theorem unpackLongs_ints {values : List Int} (h : ∀ v ∈ values, IsLong v)
    (rest : List (Token Bytes)) :
    unpackLongs values.length (values.map Token.int ++ rest) = .ok (values, rest) := by
  induction values with
  | nil => rfl
  | cons v values ih =>
    have hv : (unpackLong : Unpack Bytes Thrown Int)
        ((v :: values).map Token.int ++ rest) = .ok (v, values.map Token.int ++ rest) :=
      unpackLong_cons (h v List.mem_cons_self) _
    rw [List.length_cons, unpackLongs, bind_ok hv,
      bind_ok (ih fun v hv => h v (List.mem_cons_of_mem _ hv))]
    rfl

/-- The values of a dimension: one number, or an array. -/
inductive PacksAs : List Int → List (Token Bytes) → Prop
  | scalar {v : Int} (h : IsLong v) : PacksAs [v] [.int v]
  | array {values : List Int} (h : ∀ v ∈ values, IsLong v) (hlen : values.length ≤ maxSlices) :
      PacksAs values (.arrayHeader values.length :: values.map Token.int)

theorem unpackLongArrayOrScalar_packsAs {values : List Int} {ts : List (Token Bytes)}
    (h : PacksAs values ts) (rest : List (Token Bytes)) :
    unpackLongArrayOrScalar maxSlices (ts ++ rest) = .ok (values, rest) := by
  cases h with
  | @scalar v h =>
    have hpeek : (peek : Unpack Bytes Thrown (Token Bytes)) ([.int v] ++ rest) =
        .ok (.int v, [.int v] ++ rest) := rfl
    have hv : (unpackLong : Unpack Bytes Thrown Int) ([.int v] ++ rest) = .ok (v, rest) :=
      unpackLong_cons h rest
    rw [unpackLongArrayOrScalar, bind_ok hpeek]
    dsimp only
    rw [bind_ok hv]
    rfl
  | array h hlen =>
    have hlt : values.length < 2147483648 := Nat.lt_of_le_of_lt hlen (by decide)
    have hheader : (unpackArrayHeader : Unpack Bytes Thrown Nat)
        (.arrayHeader values.length :: (values.map Token.int ++ rest)) =
          .ok (values.length, values.map Token.int ++ rest) := unpackArrayHeader_cons hlt _
    have hpeek : (peek : Unpack Bytes Thrown (Token Bytes))
        (.arrayHeader values.length :: (values.map Token.int ++ rest)) =
          .ok (.arrayHeader values.length,
            .arrayHeader values.length :: (values.map Token.int ++ rest)) := rfl
    rw [List.cons_append, unpackLongArrayOrScalar, bind_ok hpeek]
    dsimp only
    rw [unpackLongArray, bind_ok hheader, if_neg (Nat.not_lt.mpr hlen)]
    exact unpackLongs_ints h rest

theorem dimensionInfo_packsAs {dim : DimensionInfo} {starts counts : List (Token Bytes)}
    (hok : dim.Ok) (hstarts : PacksAs dim.start starts) (hcounts : PacksAs dim.count counts)
    (rest : List (Token Bytes)) :
    DimensionInfo.unpack (.arrayHeader 2 :: (starts ++ counts) ++ rest) = .ok (dim, rest) := by
  have hheader : (unpackArrayHeader : Unpack Bytes Thrown Nat)
      (.arrayHeader 2 :: (starts ++ (counts ++ rest))) = .ok (2, starts ++ (counts ++ rest)) :=
    unpackArrayHeader_cons (by decide) _
  have hpos := hok.start_pos
  have hlen := hok.count_length
  rw [List.cons_append, List.append_assoc, DimensionInfo.unpack]
  refine catchType_ok ?_ _
  rw [bind_ok hheader, bind_ok (refuseIf_false (by decide) _ _),
    bind_ok (unpackLongArrayOrScalar_packsAs hstarts _),
    bind_ok (unpackLongArrayOrScalar_packsAs hcounts _),
    bind_ok (refuseIf_false (by omega) _ _), bind_ok (refuseIf_false (by omega) _ _)]
  rfl

/-- The dimensions, each with the tokens that are written for it. -/
theorem unpackDims_packsAs {dim : Nat → DimensionInfo} {f : Nat → List (Token Bytes)}
    (h : ∀ i rest, DimensionInfo.unpack (f i ++ rest) = .ok (dim i, rest)) {n : Nat}
    (rest : List (Token Bytes)) :
    unpackDims n ((List.range n).flatMap f ++ rest) = .ok ((List.range n).map dim, rest) := by
  suffices hall : ∀ indexes : List Nat,
      unpackDims indexes.length (indexes.flatMap f ++ rest) = .ok (indexes.map dim, rest) by
    have hrange := hall (List.range n)
    rwa [List.length_range] at hrange
  intro indexes
  induction indexes with
  | nil => rfl
  | cons i indexes ih =>
    rw [List.length_cons, unpackDims, List.flatMap_cons, List.append_assoc, bind_ok (h i _),
      bind_ok ih]
    rfl

/-! ## 3. The slices -/

/-- The slices agree in all dimensions but the first. -/
def SliceInfo.Agree (slice : SliceInfo) : Prop :=
  ∀ k < slice.nrSlices.toNat, ∀ d, 1 ≤ d → d < slice.rank.toNat →
    slice.starts.getD (k * slice.rank.toNat + d) 0 = slice.starts.getD d 0 ∧
      slice.counts.getD (k * slice.rank.toNat + d) 0 = slice.counts.getD d 0

/-- A dimension as it is packed. -/
def SliceInfo.dim (slice : SliceInfo) (dimNr : Nat) : DimensionInfo :=
  if dimNr = 0 then
    { start := (List.range slice.nrSlices.toNat).map fun k =>
        slice.starts.getD (k * slice.rank.toNat) 0
      count :=
        if slice.countsIsArray then
          (List.range slice.nrSlices.toNat).map fun k =>
            slice.counts.getD (k * slice.rank.toNat) 0
        else [slice.counts.getD 0 0] }
  else { start := [slice.starts.getD dimNr 0], count := [slice.counts.getD dimNr 0] }

/-- What is read back: without dimensions there is one slice. -/
def SliceInfo.unpacked (slice : SliceInfo) : SliceInfo :=
  if slice.rank = 0 then { slice with nrSlices := 1 } else slice

theorem isLong_getD {values : List Int} (h : ∀ v ∈ values, IsLong v) (i : Nat) :
    IsLong (values.getD i 0) := by
  rw [List.getD_eq_getElem?_getD]
  cases hi : values[i]? with
  | none => exact ⟨by decide, by decide⟩
  | some v => exact h v (List.mem_of_getElem? hi)

variable {slice : SliceInfo}

theorem SliceInfo.WellFormed.dim_ok (h : slice.WellFormed) (dimNr : Nat) :
    (slice.dim dimNr).Ok := by
  have hpos := h.nrSlices_pos
  have hle := h.nrSlices_le
  unfold SliceInfo.dim
  split
  · constructor
    · simp only [List.length_map, List.length_range]
      omega
    · simp only [List.length_map, List.length_range]
      omega
    · split
      · exact .inr (by simp only [List.length_map])
      · exact .inl rfl
    · intro v hv
      obtain ⟨k, _, rfl⟩ := List.mem_map.mp hv
      exact isLong_getD h.starts_long _
    · intro v hv
      dsimp only at hv
      split at hv
      · obtain ⟨k, _, rfl⟩ := List.mem_map.mp hv
        exact isLong_getD h.counts_long _
      · rw [List.mem_singleton.mp hv]
        exact isLong_getD h.counts_long _
  · constructor
    · exact Nat.le_refl 1
    · exact (by decide : 1 ≤ maxSlices)
    · exact .inl rfl
    · intro v hv
      rw [List.mem_singleton.mp hv]
      exact isLong_getD h.starts_long _
    · intro v hv
      rw [List.mem_singleton.mp hv]
      exact isLong_getD h.counts_long _

theorem packsAs_range {values : List Int} (h : ∀ v ∈ values, IsLong v) {n : Nat}
    (hn : n ≤ maxSlices) (rank : Nat) :
    PacksAs ((List.range n).map fun k => values.getD (k * rank) 0)
      (.arrayHeader n :: (List.range n).map fun k => Token.int (values.getD (k * rank) 0)) := by
  have hlong : ∀ v ∈ (List.range n).map (fun k => values.getD (k * rank) 0), IsLong v := by
    intro v hv
    obtain ⟨k, _, rfl⟩ := List.mem_map.mp hv
    exact isLong_getD h _
  have harray := PacksAs.array hlong (by rw [List.length_map, List.length_range]; exact hn)
  rwa [List.length_map, List.length_range, List.map_map] at harray

/-- A dimension is read back from what is written for it. -/
theorem SliceInfo.WellFormed.unpack_dim (h : slice.WellFormed) (dimNr : Nat)
    (rest : List (Token Bytes)) :
    DimensionInfo.unpack
        ((Token.arrayHeader 2 ::
          if dimNr = 0 then slice.packStarts ++ slice.packCounts
          else [.int (slice.starts.getD dimNr 0), .int (slice.counts.getD dimNr 0)]) ++ rest) =
      .ok (slice.dim dimNr, rest) := by
  have hle := h.nrSlices_le
  have hok := h.dim_ok dimNr
  unfold SliceInfo.dim at hok ⊢
  split at hok
  · rename_i hzero
    rw [if_pos hzero, if_pos hzero]
    refine dimensionInfo_packsAs hok ?_ ?_ rest
    · rw [SliceInfo.packStarts]
      dsimp only
      by_cases hone : slice.nrSlices = 1
      · rw [if_pos hone, hone]
        have hfirst : (List.range (Int.toNat 1)).map (fun k =>
            slice.starts.getD (k * slice.rank.toNat) 0) = [slice.starts.getD 0 0] := by
          rw [← Nat.zero_mul slice.rank.toNat]
          rfl
        rw [hfirst]
        exact PacksAs.scalar (isLong_getD h.starts_long 0)
      · rw [if_neg hone]
        exact packsAs_range h.starts_long (n := slice.nrSlices.toNat) (by omega) _
    · unfold SliceInfo.packCounts
      dsimp only
      split
      · exact packsAs_range h.counts_long (n := slice.nrSlices.toNat) (by omega) _
      · exact PacksAs.scalar (isLong_getD h.counts_long 0)
  · rename_i hzero
    rw [if_neg hzero, if_neg hzero]
    exact dimensionInfo_packsAs hok (PacksAs.scalar (isLong_getD h.starts_long dimNr))
      (PacksAs.scalar (isLong_getD h.counts_long dimNr)) rest

/-- The value of a slice in a dimension is the one in the arrays. -/
theorem SliceInfo.Agree.valueOf_dim (hagree : slice.Agree) {k d : Nat}
    (hk : k < slice.nrSlices.toNat) (hd : d < slice.rank.toNat) :
    valueOf (slice.dim d).start k = slice.starts.getD (k * slice.rank.toNat + d) 0 ∧
      valueOf (slice.dim d).count k = slice.counts.getD (k * slice.rank.toNat + d) 0 := by
  have hrange : ∀ values : List Int,
      valueOf ((List.range slice.nrSlices.toNat).map fun k =>
        values.getD (k * slice.rank.toNat) 0) k = values.getD (k * slice.rank.toNat) 0 := by
    intro values
    unfold valueOf
    rw [List.length_map, List.length_range]
    split
    · rw [List.getD_eq_getElem _ _ (by rw [List.length_map, List.length_range]; exact hk),
        List.getElem_map, List.getElem_range]
    · have hk0 : k = 0 := by omega
      subst hk0
      rw [List.getD_eq_getElem _ _ (by rw [List.length_map, List.length_range]; exact hk),
        List.getElem_map, List.getElem_range]
  by_cases hzero : d = 0
  · subst hzero
    rw [SliceInfo.dim, if_pos rfl, Nat.add_zero]
    refine ⟨hrange slice.starts, ?_⟩
    dsimp only
    split
    · exact hrange slice.counts
    · -- all counts are the first one
      rename_i hsame
      show slice.counts.getD 0 0 = _
      by_cases hk0 : k = 0
      · rw [hk0, Nat.zero_mul]
      · have hall := List.any_eq_false.mp (Bool.eq_false_iff.mpr hsame) k
          (List.mem_range'_1.mpr (by omega))
        rw [bne_iff_ne, not_not] at hall
        exact hall.symm
  · obtain ⟨hstart, hcount⟩ := hagree k hk d (by omega) hd
    rw [SliceInfo.dim, if_neg hzero]
    exact ⟨hstart.symm, hcount.symm⟩

/-- An array as the rows it consists of. -/
theorem eq_flatMap_rows {values : List Int} {n r : Nat} (hlen : values.length = n * r) :
    (List.range n).flatMap (fun k => (List.range r).map fun d => values.getD (k * r + d) 0) =
      values := by
  induction n generalizing values with
  | zero =>
    rw [Nat.zero_mul] at hlen
    rw [List.length_eq_zero_iff.mp hlen]
    rfl
  | succ n ih =>
    rw [List.range_succ, List.flatMap_append, List.flatMap_singleton]
    have hfirst : (values.take (n * r)).length = n * r := by
      rw [List.length_take, hlen, Nat.succ_mul]
      omega
    have hrows := ih hfirst
    have hsame : (List.range n).flatMap (fun k => (List.range r).map fun d =>
        values.getD (k * r + d) 0) = values.take (n * r) := by
      rw [← hrows]
      refine List.flatMap_congr fun k hk => List.map_congr_left fun d hd => ?_
      have hlt : k * r + d < n * r := by
        have h1 := Nat.mul_le_mul_right r (Nat.succ_le_of_lt (List.mem_range.mp hk))
        rw [Nat.succ_mul] at h1
        have := List.mem_range.mp hd
        omega
      rw [List.getD_eq_getElem?_getD, List.getD_eq_getElem?_getD,
        List.getElem?_take_of_lt hlt]
    have hlast : (List.range r).map (fun d => values.getD (n * r + d) 0) = values.drop (n * r) := by
      refine List.ext_getElem (by simp [hlen, Nat.succ_mul]) fun i h1 h2 => ?_
      rw [List.length_map, List.length_range] at h1
      have hlt : n * r + i < values.length := by
        rw [hlen, Nat.succ_mul]
        omega
      rw [List.getElem_map, List.getElem_range, List.getD_eq_getElem _ _ hlt, List.getElem_drop]
    rw [hsame, hlast, List.take_append_drop]

/-- The dimensions that are packed. -/
def SliceInfo.dims (slice : SliceInfo) : DimensionArray :=
  { nrDims := slice.rank, dims := (List.range slice.rank.toNat).map slice.dim }

theorem SliceInfo.WellFormed.dims_ok (h : slice.WellFormed) : slice.dims.Ok := by
  have hrank := h.rank_nonneg
  have hrank' := h.rank_le
  have hlen : slice.dims.dims.length = slice.rank.toNat := by
    rw [SliceInfo.dims, List.length_map, List.length_range]
  constructor
  · rw [hlen]
    exact (Int.toNat_of_nonneg hrank).symm
  · rw [hlen]
    omega
  · intro dim hdim
    obtain ⟨d, _, rfl⟩ := List.mem_map.mp hdim
    exact h.dim_ok d
  · intro dim hdim
    rw [SliceInfo.dims] at hdim
    dsimp only at hdim
    rcases hn : slice.rank.toNat with _ | n
    · rw [hn] at hdim
      exact absurd hdim (List.not_mem_nil)
    · rw [hn, List.range_succ_eq_map, List.map_cons, List.drop_one, List.tail_cons] at hdim
      obtain ⟨d, hd, rfl⟩ := List.mem_map.mp hdim
      obtain ⟨d', _, rfl⟩ := List.mem_map.mp hd
      exact Nat.le_refl 1

/-- The number of slices that are read back. -/
theorem SliceInfo.WellFormed.nrSlices_dims (h : slice.WellFormed) :
    (slice.dims.nrSlices : Int) = slice.unpacked.nrSlices := by
  have hpos := h.nrSlices_pos
  have hrank := h.rank_nonneg
  unfold DimensionArray.nrSlices SliceInfo.dims SliceInfo.unpacked
  rcases hn : slice.rank.toNat with _ | n
  · rw [if_pos (by omega)]
    rfl
  · rw [if_neg (by omega), List.range_succ_eq_map]
    show ((((List.range slice.nrSlices.toNat).map _).length : Nat) : Int) = _
    rw [List.length_map, List.length_range]
    omega

/-- The arrays made of the dimensions are the ones that were packed. -/
theorem SliceInfo.Agree.values_dims (hagree : slice.Agree) (h : slice.WellFormed) :
    (slice.dims.values slice.dims.nrSlices).map Prod.fst = slice.starts ∧
      (slice.dims.values slice.dims.nrSlices).map Prod.snd = slice.counts := by
  have hpos := h.nrSlices_pos
  have hrank := h.rank_nonneg
  have hnr := h.nrSlices_dims
  have hstarts : slice.starts.length = slice.nrSlices.toNat * slice.rank.toNat := by
    have hlen := h.starts_length
    rw [← Int.toNat_of_nonneg hrank, ← Int.toNat_of_nonneg (by omega : 0 ≤ slice.nrSlices)] at hlen
    exact_mod_cast hlen
  have hcounts : slice.counts.length = slice.nrSlices.toNat * slice.rank.toNat := by
    have hlen := h.counts_length
    rw [← Int.toNat_of_nonneg hrank, ← Int.toNat_of_nonneg (by omega : 0 ≤ slice.nrSlices)] at hlen
    exact_mod_cast hlen
  by_cases hzero : slice.rank.toNat = 0
  · -- without dimensions there is nothing in the arrays
    have hvalues : slice.dims.values slice.dims.nrSlices = [] := by
      refine List.length_eq_zero_iff.mp ?_
      rw [values_length, SliceInfo.dims, List.length_map, List.length_range, hzero, Nat.mul_zero]
    rw [hzero, Nat.mul_zero] at hstarts hcounts
    rw [hvalues, List.length_eq_zero_iff.mp hstarts, List.length_eq_zero_iff.mp hcounts]
    exact ⟨rfl, rfl⟩
  · have heq : slice.dims.nrSlices = slice.nrSlices.toNat := by
      rw [SliceInfo.unpacked, if_neg (by omega)] at hnr
      omega
    have hvalues : slice.dims.values slice.nrSlices.toNat =
        (List.range slice.nrSlices.toNat).flatMap fun k =>
          (List.range slice.rank.toNat).map fun d =>
            (slice.starts.getD (k * slice.rank.toNat + d) 0,
              slice.counts.getD (k * slice.rank.toNat + d) 0) := by
      unfold DimensionArray.values SliceInfo.dims
      refine List.flatMap_congr fun k hk => ?_
      rw [List.map_map]
      refine List.map_congr_left fun d hd => ?_
      obtain ⟨hstart, hcount⟩ := hagree.valueOf_dim (List.mem_range.mp hk) (List.mem_range.mp hd)
      exact Prod.ext hstart hcount
    rw [heq, hvalues, List.map_flatMap, List.map_flatMap]
    simp only [List.map_map]
    exact ⟨eq_flatMap_rows hstarts, eq_flatMap_rows hcounts⟩

theorem SliceInfo.WellFormed.getSliceInfo_dims (h : slice.WellFormed) (hagree : slice.Agree) :
    slice.dims.getSliceInfo = .ok slice.unpacked := by
  have hrank := h.rank_nonneg
  have hpos := h.nrSlices_pos
  have hnr := h.nrSlices_dims
  have hlen : slice.dims.dims.length = slice.rank.toNat := by
    rw [SliceInfo.dims, List.length_map, List.length_range]
  obtain ⟨st, hat, heq⟩ := getSliceInfo_at h.dims_ok
  obtain ⟨hstarts, hcounts⟩ := hat.full (values_length slice.dims slice.dims.nrSlices)
  have hvalues := hagree.values_dims h
  rw [heq, hnr, hat.rank_eq, hlen, Int.toNat_of_nonneg hrank, hstarts, hcounts, hvalues.1,
    hvalues.2]
  unfold SliceInfo.unpacked
  split
  · rfl
  · rfl

/-- The dimensions are read back. -/
theorem SliceInfo.WellFormed.unpack_dims (h : slice.WellFormed) (rest : List (Token Bytes)) :
    DimensionArray.unpack (slice.pack ++ rest) = .ok (slice.dims, rest) := by
  have hrank := h.rank_nonneg
  have hrank' := h.rank_le
  have h8 : maxDimensions = 8 := rfl
  have hheader : (unpackArrayHeader : Unpack Bytes Thrown Nat) (slice.pack ++ rest) =
      .ok (slice.rank.toNat, (List.range slice.rank.toNat).flatMap (fun dimNr =>
        Token.arrayHeader 2 ::
          if dimNr = 0 then slice.packStarts ++ slice.packCounts
          else [.int (slice.starts.getD dimNr 0), .int (slice.counts.getD dimNr 0)]) ++ rest) :=
    unpackArrayHeader_cons (by omega) _
  have hdims := unpackDims_packsAs (n := slice.rank.toNat) h.unpack_dim rest
  have hinner := h.dims_ok.inner
  rw [DimensionArray.unpack, bind_ok (catchType_ok hheader _),
    bind_ok (refuseIf_false (by omega) _ _), bind_ok hdims, bind_ok (refuseIf_false ?_ _ _)]
  · rw [SliceInfo.dims, Int.toNat_of_nonneg hrank]
    rfl
  · rintro ⟨dim, hdim, hlt⟩
    exact absurd (hinner dim hdim) (by omega)

/-- **Slices that are packed are read back.** -/
theorem fromUnpacker_pack (malformed : Bytes → JString) (h : slice.WellFormed)
    (hagree : slice.Agree) (rest : List (Token Bytes)) :
    SliceInfo.fromUnpacker malformed (slice.pack ++ rest) = .ok (slice.unpacked, rest) := by
  have hunpack := h.unpack_dims rest
  have hnext : (hasNext : Unpack Bytes Thrown Bool) (slice.pack ++ rest) =
      .ok (true, slice.pack ++ rest) := rfl
  have hpeek : (peek : Unpack Bytes Thrown (Token Bytes)) (slice.pack ++ rest) =
      .ok (.arrayHeader slice.rank.toNat, slice.pack ++ rest) := rfl
  rw [SliceInfo.fromUnpacker, bind_ok hnext, bind_ok (refuseIf_false (by decide) _ _),
    bind_ok hpeek]
  dsimp only
  rw [bind_ok hunpack, h.getSliceInfo_dims hagree]
  rfl

/-! ## 4. What is accepted -/

theorem unpackLongs_ok {n : Nat} {s s' : List (Token Bytes)} {values : List Int}
    (h : unpackLongs n s = .ok (values, s')) :
    values.length = n ∧ (∀ v ∈ values, IsLong v) ∧ s = values.map Token.int ++ s' := by
  induction n generalizing s s' values with
  | zero =>
    cases h
    exact ⟨rfl, fun v hv => absurd hv List.not_mem_nil, rfl⟩
  | succ n ih =>
    rw [unpackLongs] at h
    obtain ⟨v, s₁, hv, h₁⟩ := of_bind_ok h
    obtain ⟨vs, s₂, hvs, h₂⟩ := of_bind_ok h₁
    cases h₂
    obtain ⟨hlong, rfl⟩ := unpackLong_ok hv
    obtain ⟨hlen, hall, rfl⟩ := ih hvs
    exact ⟨congrArg (· + 1) hlen, List.forall_mem_cons.mpr ⟨hlong, hall⟩, rfl⟩

/-- An array that is accepted stands in the stream. -/
theorem unpackLongArray_ok {s s' : List (Token Bytes)} {values : List Int}
    (h : unpackLongArray maxSlices s = .ok (values, s')) :
    ∃ ts, s = ts ++ s' ∧ PacksAs values ts := by
  rw [unpackLongArray] at h
  obtain ⟨n, s₁, hn, h₁⟩ := of_bind_ok h
  obtain ⟨_, heq⟩ := unpackArrayHeader_ok hn
  split at h₁
  · cases h₁
  · rename_i hle
    obtain ⟨hlen, hall, hs₁⟩ := unpackLongs_ok h₁
    refine ⟨.arrayHeader values.length :: values.map Token.int, ?_, .array hall ?_⟩
    · rw [heq, hs₁, hlen]
      rfl
    · rw [hlen]
      exact Nat.not_lt.mp hle

theorem unpackLongArrayOrScalar_ok {s s' : List (Token Bytes)} {values : List Int}
    (h : unpackLongArrayOrScalar maxSlices s = .ok (values, s')) :
    ∃ ts, s = ts ++ s' ∧ PacksAs values ts := by
  rw [unpackLongArrayOrScalar] at h
  obtain ⟨t, s₁, ht, h₁⟩ := of_bind_ok h
  rw [peek_ok ht] at h₁
  split at h₁
  · obtain ⟨value, s₂, hvalue, h₂⟩ := of_bind_ok h₁
    cases h₂
    obtain ⟨hlong, heq⟩ := unpackLong_ok hvalue
    exact ⟨[.int value], heq, .scalar hlong⟩
  · exact unpackLongArray_ok h₁

theorem of_refuseIf_ok {c : Prop} [Decidable c] {message : String} {u : Unit}
    {s s' : List (Token Bytes)} (h : refuseIf c message s = .ok (u, s')) : ¬ c ∧ s' = s := by
  unfold refuseIf at h
  split at h
  · cases h
  · cases h
    exact ⟨by assumption, rfl⟩

theorem of_catchType_ok {message : String} {x : Unpack Bytes Thrown α} {s : List (Token Bytes)}
    {r : α × List (Token Bytes)} (h : catchType message x s = .ok r) : x s = .ok r := by
  unfold catchType at h
  split at h
  · cases h
  · exact h

/-- The dimensions as they stand in the stream. -/
inductive Encodes : List DimensionInfo → List (Token Bytes) → Prop
  | nil : Encodes [] []
  | cons {dim : DimensionInfo} {dims : List DimensionInfo} {starts counts ts : List (Token Bytes)}
      (hstarts : PacksAs dim.start starts) (hcounts : PacksAs dim.count counts)
      (h : Encodes dims ts) : Encodes (dim :: dims) (.arrayHeader 2 :: (starts ++ counts) ++ ts)

theorem dimensionInfo_ok {s s' : List (Token Bytes)} {dim : DimensionInfo}
    (h : DimensionInfo.unpack s = .ok (dim, s')) :
    ∃ starts counts, PacksAs dim.start starts ∧ PacksAs dim.count counts ∧
      s = .arrayHeader 2 :: (starts ++ counts) ++ s' := by
  obtain ⟨n, s₁, hn, h₁⟩ := of_bind_ok (of_catchType_ok h)
  obtain ⟨_, s₂, htwo, h₂⟩ := of_bind_ok h₁
  obtain ⟨start, s₃, hstart, h₃⟩ := of_bind_ok h₂
  obtain ⟨count, s₄, hcount, h₄⟩ := of_bind_ok h₃
  obtain ⟨_, s₅, hlen, h₅⟩ := of_bind_ok h₄
  obtain ⟨_, s₆, hpos, h₆⟩ := of_bind_ok h₅
  cases h₆
  obtain ⟨_, hs⟩ := unpackArrayHeader_ok hn
  obtain ⟨hn2, hs₂⟩ := of_refuseIf_ok htwo
  obtain ⟨starts, hs₃, hstarts⟩ := unpackLongArrayOrScalar_ok hstart
  obtain ⟨counts, hs₄, hcounts⟩ := unpackLongArrayOrScalar_ok hcount
  obtain ⟨_, hs₅⟩ := of_refuseIf_ok hlen
  obtain ⟨_, hs₆⟩ := of_refuseIf_ok hpos
  refine ⟨starts, counts, hstarts, hcounts, ?_⟩
  rw [hs, ← hs₂, hs₃, hs₄, ← hs₅, ← hs₆, not_not.mp hn2, List.cons_append, List.append_assoc]

theorem unpackDims_ok {n : Nat} {s s' : List (Token Bytes)} {dims : List DimensionInfo}
    (h : unpackDims n s = .ok (dims, s')) :
    dims.length = n ∧ ∃ ts, s = ts ++ s' ∧ Encodes dims ts := by
  induction n generalizing s s' dims with
  | zero =>
    cases h
    exact ⟨rfl, [], rfl, .nil⟩
  | succ n ih =>
    rw [unpackDims] at h
    obtain ⟨dim, s₁, hdim, h₁⟩ := of_bind_ok h
    obtain ⟨rest, s₂, hrest, h₂⟩ := of_bind_ok h₁
    cases h₂
    obtain ⟨starts, counts, hstarts, hcounts, heq⟩ := dimensionInfo_ok hdim
    obtain ⟨hlen, ts, rfl, hts⟩ := ih hrest
    refine ⟨congrArg (· + 1) hlen, _, ?_, .cons hstarts hcounts hts⟩
    rw [heq, List.append_assoc]

theorem dimensionArray_ok {n : Nat} {s s' : List (Token Bytes)} {darray : DimensionArray}
    (h : DimensionArray.unpack (.arrayHeader n :: s) = .ok (darray, s')) :
    darray.dims.length = n ∧ ∃ ts, s = ts ++ s' ∧ Encodes darray.dims ts := by
  obtain ⟨nrDims, s₁, hheader, h₁⟩ := of_bind_ok h
  obtain ⟨_, s₂, hmax, h₂⟩ := of_bind_ok h₁
  obtain ⟨dims, s₃, hdims, h₃⟩ := of_bind_ok h₂
  obtain ⟨_, s₄, hinner, h₄⟩ := of_bind_ok h₃
  cases h₄
  obtain ⟨_, heq⟩ := unpackArrayHeader_ok (of_catchType_ok hheader)
  obtain ⟨_, hs₂⟩ := of_refuseIf_ok hmax
  obtain ⟨_, hs₄⟩ := of_refuseIf_ok hinner
  cases heq
  rw [hs₂] at hdims
  rw [hs₄]
  exact unpackDims_ok hdims

/-- The element of a row in the rows one after the other. -/
theorem getD_flatMap_range {β : Type} {f : Nat → List β} {r n : Nat}
    (hlen : ∀ k < n, (f k).length = r) {k d : Nat} (hk : k < n) (hd : d < r) (z : β) :
    ((List.range n).flatMap f).getD (k * r + d) z = (f k).getD d z := by
  induction n with
  | zero => cases hk
  | succ n ih =>
    have hrows : ((List.range n).flatMap f).length = n * r := by
      rw [List.length_flatMap, List.map_congr_left fun k hk =>
        hlen k (Nat.lt_succ_of_lt (List.mem_range.mp hk)), List.map_const', List.sum_replicate_nat,
        List.length_range]
    rw [List.range_succ, List.flatMap_append, List.flatMap_singleton]
    rcases Nat.lt_or_eq_of_le (Nat.le_of_lt_succ hk) with hlt | rfl
    · have hle := Nat.mul_le_mul_right r (Nat.succ_le_of_lt hlt)
      rw [Nat.succ_mul] at hle
      rw [List.getD_append _ _ _ _ (by omega)]
      exact ih (fun k hk => hlen k (Nat.lt_succ_of_lt hk)) hlt
    · rw [List.getD_append_right _ _ _ _ (by omega), hrows, Nat.add_sub_cancel_left]

/-- The arrays made of dimensions, slice by slice and dimension by dimension. -/
theorem getSliceInfo_getD {this : DimensionArray} (h : this.Ok) {slice : SliceInfo}
    (hslice : this.getSliceInfo = .ok slice) :
    slice.nrSlices = this.nrSlices ∧ slice.rank = this.dims.length ∧
      ∀ k < this.nrSlices, ∀ (d : Nat) (hd : d < this.dims.length),
        slice.starts.getD (k * this.dims.length + d) 0 = valueOf this.dims[d].start k ∧
          slice.counts.getD (k * this.dims.length + d) 0 = valueOf this.dims[d].count k := by
  obtain ⟨st, hat, heq⟩ := getSliceInfo_at h
  rw [heq] at hslice
  cases hslice
  obtain ⟨hstarts, hcounts⟩ := hat.full (values_length this _)
  refine ⟨rfl, hat.rank_eq, fun k hk d hd => ?_⟩
  have hrow : ∀ f : Int × Int → Int,
      ((this.values this.nrSlices).map f).getD (k * this.dims.length + d) 0 =
        f (valueOf this.dims[d].start k, valueOf this.dims[d].count k) := by
    intro f
    rw [DimensionArray.values, List.map_flatMap,
      getD_flatMap_range (fun k _ => by rw [List.length_map, List.length_map]) hk hd,
      List.getD_eq_getElem _ _ (by rw [List.length_map, List.length_map]; exact hd),
      List.getElem_map, List.getElem_map]
  dsimp only
  rw [hstarts, hcounts]
  exact ⟨hrow Prod.fst, hrow Prod.snd⟩

/-- The slices an array stands for agree in all dimensions but the first. -/
theorem getSliceInfo_agree {this : DimensionArray} (h : this.Ok) {slice : SliceInfo}
    (hslice : this.getSliceInfo = .ok slice) : slice.Agree := by
  obtain ⟨hnr, hrank, hvalues⟩ := getSliceInfo_getD h hslice
  have hpos := (nrSlices_bounds h).1
  intro k hk d hd1 hd
  rw [hnr, Int.toNat_natCast] at hk
  rw [hrank, Int.toNat_natCast] at hd ⊢
  -- beyond the first dimension there is one start, and so one count
  have hone : this.dims[d].start.length ≤ 1 := by
    refine h.inner _ (List.mem_drop_iff_getElem.mpr ⟨d - 1, by omega, ?_⟩)
    exact getElem_congr_idx (by omega)
  have hok := h.dims_ok _ (List.getElem_mem hd)
  have hcount := hok.count_length
  have hsame : ∀ values : List Int, values.length ≤ 1 → valueOf values k = valueOf values 0 := by
    intro values hle
    rw [valueOf, valueOf, if_neg (by omega), if_neg (by omega)]
  have hk0 := hvalues k hk d hd
  have h00 := hvalues 0 hpos d hd
  rw [Nat.zero_mul, Nat.zero_add] at h00
  rw [hk0.1, hk0.2, h00.1, h00.2]
  exact ⟨hsame _ hone, hsame _ (by omega)⟩

/-- **The compact form loses nothing**: slices that agree in all dimensions but the first are read
back, and nested arrays that are accepted stand for such slices, with the starts and the counts
of the first dimension one for each slice, or one count for all. -/
theorem compact_lossless (malformed : Bytes → JString) :
    (∀ slice : SliceInfo, slice.WellFormed → 1 ≤ slice.rank → slice.Agree → ∀ rest,
      SliceInfo.fromUnpacker malformed (slice.pack ++ rest) = .ok (slice, rest)) ∧
    ∀ n s slice rest, SliceInfo.fromUnpacker malformed (.arrayHeader n :: s) = .ok (slice, rest) →
      slice.rank = n ∧ slice.Agree ∧ ∃ dims ts, dims.length = n ∧ Encodes dims ts ∧ s = ts ++ rest ∧
        ∀ first ∈ dims.head?, slice.nrSlices = first.start.length ∧
          ∀ k < first.start.length,
            slice.starts.getD (k * n) 0 = first.start.getD k 0 ∧
              slice.counts.getD (k * n) 0 =
                if first.count.length = 1 then first.count.getD 0 0 else first.count.getD k 0 := by
  refine ⟨fun slice h hrank hagree rest => ?_, fun n s slice rest hslice => ?_⟩
  · have hunpacked : slice.unpacked = slice := if_neg (by omega)
    rw [fromUnpacker_pack malformed h hagree, hunpacked]
  · obtain ⟨next, s₁, hnext, h₁⟩ := of_bind_ok hslice
    cases hnext
    obtain ⟨_, s₂, hrefuse, h₂⟩ := of_bind_ok h₁
    obtain ⟨_, rfl⟩ := of_refuseIf_ok hrefuse
    obtain ⟨t, s₃, hpeek, h₃⟩ := of_bind_ok h₂
    cases hpeek
    obtain ⟨darray, s₄, hdarray, h₄⟩ := of_bind_ok h₃
    have hok : darray.Ok := by
      have hends := unpacks_dimensionArray (.arrayHeader n :: s)
      rw [hdarray] at hends
      exact hends
    have hinfo : darray.getSliceInfo = .ok slice ∧ s₄ = rest := by
      cases hget : darray.getSliceInfo with
      | error e =>
        rw [hget] at h₄
        cases h₄
      | ok info =>
        rw [hget] at h₄
        cases h₄
        exact ⟨rfl, rfl⟩
    obtain ⟨hget, rfl⟩ := hinfo
    obtain ⟨hlen, ts, hts, hencodes⟩ := dimensionArray_ok hdarray
    obtain ⟨hnr, hrank, hvalues⟩ := getSliceInfo_getD hok hget
    refine ⟨by rw [hrank, hlen], getSliceInfo_agree hok hget, darray.dims, ts, hlen, hencodes, hts,
      fun first hfirst => ?_⟩
    rcases hdims : darray.dims with _ | ⟨dim, dims⟩
    · rw [hdims] at hfirst
      cases hfirst
    · rw [hdims] at hfirst
      cases hfirst
      have hnr' : darray.nrSlices = first.start.length := by rw [DimensionArray.nrSlices, hdims]
      have hpos : 0 < darray.dims.length := by rw [hdims]; exact Nat.succ_pos _
      have hdim : darray.dims[0] = first := by simp only [hdims, List.getElem_cons_zero]
      rw [hnr'] at hnr hvalues
      refine ⟨hnr, fun k hk => ?_⟩
      obtain ⟨hstart, hcount⟩ := hvalues k hk 0 hpos
      have hcounts := (hok.dims_ok _ (List.getElem_mem hpos)).count_length
      rw [hdim] at hstart hcount hcounts
      rw [← hlen, ← Nat.add_zero (k * _), hstart, hcount, valueOf, valueOf]
      constructor
      · split
        · rfl
        · have hk0 : k = 0 := by omega
          rw [hk0]
      · by_cases hone : first.count.length = 1
        · rw [if_neg (by omega), if_pos hone]
        · rw [if_pos (by omega), if_neg hone]

/-- Two slices of two dimensions, with two counts in the first. -/
def twoSlices : SliceInfo := { nrSlices := 2, rank := 2, starts := [0, 1, 7, 1], counts :=
    [3, 4, 5, 4] }

theorem compact_lossless_twoSlices :
    SliceInfo.fromUnpacker (fun _ => []) (twoSlices.pack ++ []) = .ok (twoSlices, []) ∧
      twoSlices.Agree := by
  have hwf : twoSlices.WellFormed := by
    have hlong : ∀ values : List Int, (∀ v ∈ values, 0 ≤ v ∧ v < 8) → ∀ v ∈ values, IsLong v :=
      fun values h v hv => ⟨by have := h v hv; omega, by have := h v hv; omega⟩
    exact ⟨by decide, by decide, by decide, by decide, by decide, by decide,
      hlong _ (by decide), hlong _ (by decide)⟩
  have hagree : twoSlices.Agree := by
    intro k hk d hd1 hd
    have hk' : k = 0 ∨ k = 1 := by
      have : k < 2 := hk
      omega
    have hd' : d = 1 := by
      have : d < 2 := hd
      omega
    subst hd'
    rcases hk' with rfl | rfl <;> decide
  have hread := (compact_lossless fun _ => []).1 twoSlices hwf (by decide) hagree []
  exact ⟨hread, ((compact_lossless fun _ => []).2 2 _ twoSlices [] hread).2.1⟩

end HdfStream.Webapp
