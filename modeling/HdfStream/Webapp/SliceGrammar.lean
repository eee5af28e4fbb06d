/-
# The grammar of slice strings

The strings `new SliceInfo(slice_descriptor)` accepts are lists of slices with semicolons between
them; a slice is a list of ranges with commas, or blank; a range is an index or two of them with a
colon, with blanks around each.  `SliceList` is this grammar with the ranges a string stands for,
without the splitting and trimming of the parser.

`parse_iff` says that the parser accepts what the grammar has and fills the arrays with its ranges;
`parse_refuses` that it throws an `InvalidSliceException` for all else.  The clients write ranges as
`start:end`; what they write is read back within the limits of the parser (`parse_render`).
-/
import HdfStream.Lib.Separated
import HdfStream.Webapp.SliceInfo
import Mathlib.Data.List.Forall2

namespace HdfStream.Webapp

open Java Outcome

/-! ## 1. The grammar -/

/-- The field is an integer of type `long`, up to surrounding blanks. -/
def LongField (field : JString) (n : Int) : Prop := number (trim field) = some n ∧ IsLong n

/-- An index, or two of them with a colon: the start and the count they stand for. -/
inductive RangeField : JString → Int × Int → Prop
  | single {field : JString} {a : Int} (hcolon : ':' ∉ field) (ha : LongField field a)
      (h0 : 0 ≤ a) (hlt : a < 9223372036854775807) : RangeField field (a, 1)
  | range {first second : JString} {a b : Int} (hfirst : ':' ∉ first) (hsecond : ':' ∉ second)
      (ha : LongField first a) (hb : LongField second b) (h0 : 0 ≤ a) (hle : a ≤ b) :
      RangeField (first ++ ':' :: second) (a, b - a)

/-- A blank slice, or ranges with commas. -/
inductive SlicePiece : JString → List (Int × Int) → Prop
  | blank {piece : JString} (h : trim piece = []) : SlicePiece piece []
  | fields {piece : JString} {fields : List JString} {ranges : List (Int × Int)}
      (hsep : Separated ',' piece fields) (hranges : List.Forall₂ RangeField fields ranges)
      (hle : fields.length ≤ maxDimensions) : SlicePiece piece ranges

/-- Slices with semicolons, all with the same number of dimensions. -/
structure SliceList (s : JString) (slices : List (List (Int × Int))) : Prop where
  length_le : charLength s ≤ maxStringLength
  pieces : ∃ pieces, Separated ';' s pieces ∧ List.Forall₂ SlicePiece pieces slices
  nrSlices_le : slices.length ≤ maxSlices
  same_rank : ∀ a ∈ slices, ∀ b ∈ slices, a.length = b.length

/-- The arrays of the slices, slice by slice. -/
def SliceInfo.ofSlices (slices : List (List (Int × Int))) : SliceInfo where
  nrSlices := slices.length
  rank := (slices.headD []).length
  starts := slices.flatten.map Prod.fst
  counts := slices.flatten.map Prod.snd

/-- The exception for a string that is not accepted. -/
def Thrown.IsInvalidSlice : Thrown → Prop
  | .invalidSlice _ => True
  | _ => False

/-! ## 2. Ranges -/

theorem valueOfLong_ok_iff {s : JString} {v : BitVec 64} :
    valueOfLong s = .ok v ↔ ∃ n, number s = some n ∧ IsLong n ∧ v = BitVec.ofInt 64 n := by
  unfold valueOfLong
  split
  · rename_i n hn
    constructor
    · intro h
      split at h
      · rename_i hlong
        cases h
        exact ⟨n, hn, ⟨by omega, by omega⟩, rfl⟩
      · cases h
    · rintro ⟨m, hm, hlong, rfl⟩
      rw [hn] at hm
      cases hm
      unfold IsLong at hlong
      rw [if_pos (by omega)]
  · rename_i hn
    constructor
    · intro h
      cases h
    · rintro ⟨m, hm, _⟩
      rw [hn] at hm
      cases hm

theorem toInt_ofInt {n : Int} (h : IsLong n) : (BitVec.ofInt 64 n).toInt = n := by
  rw [BitVec.toInt_ofInt]
  exact wrapLong_eq h.1 h.2

/-- What `Long.parseLong` makes of a field. -/
theorem parseLong_iff {field : JString} {n : Int} :
    (∃ v, valueOfLong (trim field) = .ok v ∧ v.toInt = n) ↔ LongField field n := by
  constructor
  · rintro ⟨v, hv, rfl⟩
    obtain ⟨n, hn, hlong, rfl⟩ := valueOfLong_ok_iff.mp hv
    rw [toInt_ofInt hlong]
    exact ⟨hn, hlong⟩
  · rintro ⟨hn, hlong⟩
    exact ⟨_, valueOfLong_ok_iff.mpr ⟨n, hn, hlong, rfl⟩, toInt_ofInt hlong⟩

theorem LongField.unique {field : JString} {n m : Int} (hn : LongField field n)
    (hm : LongField field m) : n = m := Option.some.inj (hn.1.symm.trans hm.1)

theorem not_longField {field : JString} {e : JString} (h : valueOfLong (trim field) = .error e)
    (n : Int) : ¬ LongField field n := by
  intro hn
  obtain ⟨v, hv, _⟩ := parseLong_iff.mpr hn
  rw [h] at hv
  cases hv

/-- A start and an end, before they are checked. -/
inductive Bounds : JString → Int × Int → Prop
  | single {field : JString} {a : Int} (hcolon : ':' ∉ field) (ha : LongField field a) :
      Bounds field (a, wrapLong (a + 1))
  | range {first second : JString} {a b : Int} (hfirst : ':' ∉ first) (hsecond : ':' ∉ second)
      (ha : LongField first a) (hb : LongField second b) :
      Bounds (first ++ ':' :: second) (a, b)

/-- `parseRange` finds the start and the end, if there are. -/
theorem parseRange_ends (dim : JString) :
    Ends (fun e => e.IsInvalidSlice ∧ ∀ r, ¬ Bounds dim r)
      (fun r => Bounds dim r ∧ ∀ r', Bounds dim r' → r' = r) (parseRange dim) := by
  unfold parseRange
  split
  · rename_i field hsplit
    obtain ⟨rfl, hcolon⟩ := separated_singleton.mp (separated_iff.mpr hsplit)
    have hsingle : ∀ r, Bounds dim r → ∃ a, LongField dim a ∧ r = (a, wrapLong (a + 1)) := by
      intro r hr
      cases hr with
      | single _ ha => exact ⟨_, ha, rfl⟩
      | range => exact absurd (List.mem_append_right _ List.mem_cons_self) hcolon
    split
    · rename_i start hstart
      have ha := parseLong_iff.mp ⟨start, hstart, rfl⟩
      refine ⟨.single hcolon ha, fun r hr => ?_⟩
      obtain ⟨a, ha', rfl⟩ := hsingle r hr
      rw [ha'.unique ha]
    · rename_i e he
      refine ⟨trivial, fun r hr => ?_⟩
      obtain ⟨a, ha, _⟩ := hsingle r hr
      exact not_longField he a ha
  · rename_i first second hsplit
    obtain ⟨rfl, hfirst, hsecond⟩ := separated_pair.mp (separated_iff.mpr hsplit)
    have hrange : ∀ r, Bounds (first ++ ':' :: second) r →
        ∃ a b, LongField first a ∧ LongField second b ∧ r = (a, b) := by
      intro r hr
      generalize hdim : first ++ ':' :: second = dim at hr hsplit
      cases hr with
      | single hcolon _ =>
        rw [← hdim] at hcolon
        exact absurd (List.mem_append_right _ List.mem_cons_self) hcolon
      | @range first' second' a b hfirst' hsecond' ha hb =>
        have hsplit' := separated_iff.mp (separated_pair.mpr ⟨rfl, hfirst', hsecond'⟩)
        rw [hsplit] at hsplit'
        cases hsplit'
        exact ⟨a, b, ha, hb, rfl⟩
    split
    · rename_i start stop hstart hstop
      have ha := parseLong_iff.mp ⟨start, hstart, rfl⟩
      have hb := parseLong_iff.mp ⟨stop, hstop, rfl⟩
      refine ⟨.range hfirst hsecond ha hb, fun r hr => ?_⟩
      obtain ⟨a, b, ha', hb', rfl⟩ := hrange r hr
      rw [ha'.unique ha, hb'.unique hb]
    · rename_i hnone
      refine ⟨trivial, fun r hr => ?_⟩
      obtain ⟨a, b, ha, hb, _⟩ := hrange r hr
      obtain ⟨v, hv, _⟩ := parseLong_iff.mpr ha
      obtain ⟨w, hw, _⟩ := parseLong_iff.mpr hb
      exact hnone v w hv hw
  · rename_i hone htwo
    refine ⟨trivial, fun r hr => ?_⟩
    cases hr with
    | single hcolon _ => exact hone _ (separated_iff.mp (separated_singleton.mpr ⟨rfl, hcolon⟩))
    | range hfirst hsecond _ _ =>
      exact htwo _ _ (separated_iff.mp (separated_pair.mpr ⟨rfl, hfirst, hsecond⟩))

/-- A range is a start and an end that pass the check, with the count they make. -/
theorem rangeField_iff {dim : JString} {r : Int × Int} :
    RangeField dim r ↔ ∃ start stop, Bounds dim (start, stop) ∧
      ¬ (start < 0 ∨ stop < 0 ∨ wrapLong (stop - start) < 0) ∧
        r = (start, wrapLong (stop - start)) := by
  constructor
  · intro h
    cases h with
    | @single field a hcolon ha h0 hlt =>
      have hstop : wrapLong (a + 1) = a + 1 := wrapLong_eq (by omega) (by omega)
      refine ⟨a, _, .single hcolon ha, ?_, ?_⟩
      · rw [hstop, wrapLong_eq (by omega) (by omega)]
        omega
      · rw [hstop, wrapLong_eq (by omega) (by omega)]
        exact Prod.ext rfl (by dsimp only; omega)
    | @range first second a b hfirst hsecond ha hb h0 hle =>
      have hlong := hb.2
      unfold IsLong at hlong
      have hcount : wrapLong (b - a) = b - a := wrapLong_eq (by omega) (by omega)
      refine ⟨a, b, .range hfirst hsecond ha hb, ?_, by rw [hcount]⟩
      rw [hcount]
      omega
  · rintro ⟨start, stop, hbounds, hcheck, rfl⟩
    generalize hp : (start, stop) = p at hbounds
    cases hbounds with
    | @single field a hcolon ha =>
      cases hp
      have hlong := ha.2
      unfold IsLong at hlong
      by_cases hmax : start = 9223372036854775807
      · -- the end wraps
        rw [hmax] at hcheck
        exact absurd (Or.inr (Or.inl (by decide))) hcheck
      · have hstop : wrapLong (start + 1) = start + 1 := wrapLong_eq (by omega) (by omega)
        rw [hstop, wrapLong_eq (by omega) (by omega)] at hcheck ⊢
        have hone : start + 1 - start = 1 := by omega
        rw [hone]
        exact .single hcolon ha (by omega) (by omega)
    | @range first second a b hfirst hsecond ha hb =>
      cases hp
      have hlong := ha.2
      have hlong' := hb.2
      unfold IsLong at hlong hlong'
      have hcount : wrapLong (stop - start) = stop - start := wrapLong_eq (by omega) (by omega)
      rw [hcount] at hcheck ⊢
      exact .range hfirst hsecond ha hb (by omega) (by omega)

/-- **One dimension**: the parser finds the range, if there is one. -/
theorem parseDim_ends (dim : JString) :
    Ends (fun e => e.IsInvalidSlice ∧ ∀ r, ¬ RangeField dim r)
      (fun r => RangeField dim r ∧ ∀ r', RangeField dim r' → r' = r) (parseDim dim) := by
  unfold parseDim
  have h := parseRange_ends dim
  cases hrange : parseRange dim with
  | error e =>
    rw [hrange] at h
    refine ⟨h.1, fun r hr => ?_⟩
    obtain ⟨start, stop, hbounds, _⟩ := rangeField_iff.mp hr
    exact h.2 _ hbounds
  | ok r =>
    obtain ⟨start, stop⟩ := r
    rw [hrange] at h
    obtain ⟨hbounds, hunique⟩ := h
    have hall : ∀ r', RangeField dim r' →
        ¬ (start < 0 ∨ stop < 0 ∨ wrapLong (stop - start) < 0) ∧
          r' = (start, wrapLong (stop - start)) := by
      intro r' hr'
      obtain ⟨start', stop', hbounds', hcheck, rfl⟩ := rangeField_iff.mp hr'
      cases hunique _ hbounds'
      exact ⟨hcheck, rfl⟩
    show Ends _ _ (if start < 0 ∨ stop < 0 ∨ wrapLong (stop - start) < 0 then
      invalidSlice "Slice indexes must not be negative" else .ok (start, wrapLong (stop - start)))
    split
    · rename_i hcheck
      exact ⟨trivial, fun r' hr' => (hall r' hr').1 hcheck⟩
    · rename_i hcheck
      exact ⟨rangeField_iff.mpr ⟨start, stop, hbounds, hcheck, rfl⟩, fun r' hr' => (hall r' hr').2⟩

/-! ## 3. One slice -/

/-- A slice is its dimensions, each a range. -/
theorem slicePiece_iff {piece : JString} {ranges : List (Int × Int)} :
    SlicePiece piece ranges ↔
      List.Forall₂ RangeField (dimsOf piece) ranges ∧ (dimsOf piece).length ≤ maxDimensions := by
  unfold dimsOf
  by_cases hblank : trim piece = []
  · rw [if_pos (List.length_eq_zero_iff.mpr hblank), List.forall₂_nil_left_iff]
    constructor
    · intro h
      cases h with
      | blank => exact ⟨rfl, Nat.zero_le _⟩
      | @fields fields _ hsep hranges _ =>
        -- a blank piece is one field, which is no number
        exfalso
        have hblanks := trim_eq_nil_iff.mp hblank
        have hcomma : ',' ∉ piece := fun hmem => absurd (hblanks _ hmem) (by decide)
        have hone := separated_iff.mp (separated_singleton.mpr ⟨rfl, hcomma⟩)
        rw [separated_iff.mp hsep] at hone
        subst hone
        obtain ⟨r, rest, hr, _, _⟩ := List.forall₂_cons_left_iff.mp hranges
        cases hr with
        | single _ ha =>
          have hnumber := ha.1
          rw [hblank] at hnumber
          cases hnumber
        | range =>
          exact absurd (hblanks ':' (List.mem_append_right _ List.mem_cons_self)) (by decide)
    · rintro ⟨rfl, _⟩
      exact .blank hblank
  · rw [if_neg (fun h => hblank (List.length_eq_zero_iff.mp h))]
    constructor
    · intro h
      cases h with
      | blank h => exact absurd h hblank
      | fields hsep hranges hle =>
        rw [separated_iff.mp hsep]
        exact ⟨hranges, hle⟩
    · rintro ⟨hranges, hle⟩
      exact .fields (separated_iff.mpr rfl) hranges hle

theorem SlicePiece.length_eq {piece : JString} {ranges : List (Int × Int)}
    (h : SlicePiece piece ranges) : ranges.length = (dimsOf piece).length :=
  (slicePiece_iff.mp h).1.length_eq.symm

theorem RangeField.unique : Relator.RightUnique RangeField := by
  intro dim r r' hr hr'
  have h := parseDim_ends dim
  cases hparse : parseDim dim with
  | error e =>
    rw [hparse] at h
    exact absurd hr (h.2 r)
  | ok r₀ =>
    rw [hparse] at h
    rw [h.2 r hr, h.2 r' hr']

theorem SlicePiece.unique : Relator.RightUnique SlicePiece := by
  intro piece ranges ranges' h h'
  exact RangeField.unique.forall₂ (slicePiece_iff.mp h).1 (slicePiece_iff.mp h').1

/-- **The dimensions of one slice** are put behind those of the slices before, if all are
ranges. -/
theorem putDims_ends {rank n : Nat} {values : List (Int × Int)} {dims : List JString} {st : Filling}
    (h : st.At rank n values) (hspace : values.length + dims.length ≤ n) (hn : n < 2147483648) :
    Ends (fun e => e.IsInvalidSlice ∧ ∀ ranges, ¬ List.Forall₂ RangeField dims ranges)
      (fun st' => ∃ ranges, List.Forall₂ RangeField dims ranges ∧ st'.At rank n (values ++ ranges))
      (dims.foldlM (fun st dim => do
        let (start, count) ← parseDim dim
        Filling.put st start count) st) := by
  induction dims generalizing values st with
  | nil => exact ⟨[], .nil, by rwa [List.append_nil]⟩
  | cons dim dims ih =>
    rw [List.length_cons] at hspace
    rw [List.foldlM_cons]
    have hdim := parseDim_ends dim
    cases hparse : parseDim dim with
    | error e =>
      rw [hparse] at hdim
      refine ⟨hdim.1, fun ranges h' => ?_⟩
      obtain ⟨r, rest, hr, _, _⟩ := List.forall₂_cons_left_iff.mp h'
      exact hdim.2 r hr
    | ok r =>
      obtain ⟨start, count⟩ := r
      rw [hparse] at hdim
      obtain ⟨st₁, hput, h₁⟩ := h.put (by omega) hn start count
      have hrest := ih h₁ (by rw [List.length_append, List.length_singleton]; omega)
      show Ends _ _ (do
        let st ← Filling.put st start count
        dims.foldlM (fun st dim => do
          let (start, count) ← parseDim dim
          Filling.put st start count) st)
      rw [hput]
      refine Ends.mono (hrest.weaken fun e he => ⟨he.1, fun ranges h' => ?_⟩) fun st' hst' => ?_
      · obtain ⟨r, rest, _, htail, _⟩ := List.forall₂_cons_left_iff.mp h'
        exact he.2 rest htail
      · obtain ⟨ranges, hranges, hat⟩ := hst'
        refine ⟨(start, count) :: ranges, .cons hdim.1 hranges, ?_⟩
        rwa [List.append_assoc] at hat

/-! ## 4. All slices -/

theorem exists_of_mem {α β : Type*} {R : α → β → Prop} {l : List α} {m : List β}
    (h : List.Forall₂ R l m) {a : α} (ha : a ∈ l) : ∃ b ∈ m, R a b := by
  induction h with
  | nil => cases ha
  | cons hab _ ih =>
    rcases List.mem_cons.mp ha with rfl | ha
    · exact ⟨_, List.mem_cons_self, hab⟩
    · obtain ⟨b, hb, hR⟩ := ih ha
      exact ⟨b, List.mem_cons_of_mem _ hb, hR⟩

/-- The slices of these pieces, all with the same number of dimensions. -/
def AreSlices (pieces : List JString) (slices : List (List (Int × Int))) : Prop :=
  List.Forall₂ SlicePiece pieces slices ∧ ∀ a ∈ slices, ∀ b ∈ slices, a.length = b.length

/-- After the slices `before` of `nrSlices`. -/
def Placed (nrSlices : Nat) (before : List (JString × Nat)) (st : Filling) : Prop :=
  if before = [] then st.offset = 0
  else ∃ (rank : Nat) (slices : List (List (Int × Int))), rank ≤ maxDimensions ∧
    List.Forall₂ SlicePiece (before.map Prod.fst) slices ∧
    (∀ p ∈ before, (dimsOf p.1).length = rank) ∧
    st.At rank (nrSlices * rank) slices.flatten

theorem length_flatten_slices {rank : Nat} {before : List (JString × Nat)}
    {slices : List (List (Int × Int))}
    (hslices : List.Forall₂ SlicePiece (before.map Prod.fst) slices)
    (hrank : ∀ p ∈ before, (dimsOf p.1).length = rank) :
    slices.flatten.length = before.length * rank := by
  induction before generalizing slices with
  | nil =>
    rw [List.map_nil, List.forall₂_nil_left_iff] at hslices
    rw [hslices, List.length_nil, Nat.zero_mul]
    rfl
  | cons p before ih =>
    rw [List.map_cons, List.forall₂_cons_left_iff] at hslices
    obtain ⟨ranges, rest, hranges, hrest, rfl⟩ := hslices
    rw [List.flatten_cons, List.length_append, hranges.length_eq, hrank p List.mem_cons_self,
      ih hrest fun p hp => hrank p (List.mem_cons_of_mem _ hp), List.length_cons, Nat.succ_mul,
      Nat.add_comm]

/-- **One slice.** -/
theorem parseSlice_ends {pieces : List JString} (hnr : pieces.length ≤ maxSlices)
    {before : List (JString × Nat)} {slice : JString × Nat} {st : Filling}
    (hbefore : before ++ [slice] <+: pieces.zipIdx) (h : Placed pieces.length before st) :
    Ends (fun e => e.IsInvalidSlice ∧ ∀ slices, ¬ AreSlices pieces slices)
      (Placed pieces.length (before ++ [slice])) (parseSlice pieces.length st slice) := by
  have hlt : before.length < pieces.length := by
    have hle := hbefore.length_le
    rw [List.length_append, List.length_singleton, List.length_zipIdx] at hle
    exact hle
  have hindex : slice.2 = before.length := by
    have hslice := hbefore.getElem (i := before.length) (by simp)
    rw [List.getElem_concat_length rfl, List.getElem_zipIdx] at hslice
    rw [hslice, Nat.zero_add]
  have hmem : ∀ p ∈ before ++ [slice], p.1 ∈ pieces := fun p hp =>
    List.fst_mem_of_mem_zipIdx (hbefore.mem hp)
  have hlast := hmem slice (List.mem_append_right _ List.mem_cons_self)
  have hbound : ∀ rank, rank ≤ maxDimensions → pieces.length * rank < 2147483648 :=
    fun rank hrank =>
    Nat.lt_of_le_of_lt (Nat.mul_le_mul hnr hrank) (by decide)
  -- the dimensions of this slice, whatever is before it
  have hput : ∀ (slices : List (List (Int × Int))) (st₁ : Filling),
      (dimsOf slice.1).length ≤ maxDimensions →
      List.Forall₂ SlicePiece (before.map Prod.fst) slices →
      (∀ p ∈ before, (dimsOf p.1).length = (dimsOf slice.1).length) →
      st₁.At (dimsOf slice.1).length (pieces.length * (dimsOf slice.1).length) slices.flatten →
      Ends (fun e => e.IsInvalidSlice ∧ ∀ slices, ¬ AreSlices pieces slices)
        (Placed pieces.length (before ++ [slice]))
        ((dimsOf slice.1).foldlM (fun st dim => do
          let (start, count) ← parseDim dim
          Filling.put st start count) st₁) := by
    intro slices st₁ hrank hslices hsame hat
    have hspace : slices.flatten.length + (dimsOf slice.1).length ≤
        pieces.length * (dimsOf slice.1).length := by
      rw [length_flatten_slices hslices hsame, ← Nat.succ_mul]
      exact Nat.mul_le_mul_right _ hlt
    refine Ends.mono ((putDims_ends hat hspace (hbound _ hrank)).weaken fun e he =>
      ⟨he.1, fun all hall => ?_⟩) fun st₂ h₂ => ?_
    · obtain ⟨ranges, _, hranges⟩ := exists_of_mem hall.1 hlast
      exact he.2 ranges (slicePiece_iff.mp hranges).1
    · obtain ⟨ranges, hranges, hat'⟩ := h₂
      rw [Placed, if_neg (List.append_ne_nil_of_right_ne_nil _ (List.cons_ne_nil _ _))]
      refine ⟨_, slices ++ [ranges], hrank, ?_, ?_, ?_⟩
      · rw [List.map_append]
        exact List.rel_append hslices (.cons (slicePiece_iff.mpr ⟨hranges, hrank⟩) .nil)
      · intro p hp
        rcases List.mem_append.mp hp with hp | hp
        · exact hsame p hp
        · rw [List.mem_singleton.mp hp]
      · rw [List.flatten_append, List.flatten_singleton]
        exact hat'
  unfold parseSlice
  dsimp only
  split
  · rename_i hdims
    refine ⟨trivial, fun all hall => ?_⟩
    obtain ⟨ranges, _, hranges⟩ := exists_of_mem hall.1 hlast
    exact absurd (slicePiece_iff.mp hranges).2 (Nat.not_le.mpr hdims)
  rename_i hdims
  replace hdims : (dimsOf slice.1).length ≤ maxDimensions := Nat.le_of_not_lt hdims
  by_cases hfirst : slice.2 = 0
  · have hbefore : before = [] := List.length_eq_zero_iff.mp (hindex.symm.trans hfirst)
    rw [Placed, if_pos hbefore] at h
    have hsize : wrapInt ((pieces.length : Int) * ((dimsOf slice.1).length : Int)) =
        ((pieces.length * (dimsOf slice.1).length : Nat) : Int) := by
      have := hbound _ hdims
      rw [← Int.natCast_mul, wrapInt_eq (by omega) (by omega)]
    obtain ⟨st₁, hnew, hat⟩ := Filling.new_at (dimsOf slice.1).length
      (pieces.length * (dimsOf slice.1).length) h
    rw [if_pos hfirst, hsize, hnew]
    refine hput [] st₁ hdims ?_ (fun p hp => ?_) hat
    · rw [hbefore]
      exact .nil
    · rw [hbefore] at hp
      cases hp
  · have hbefore : before ≠ [] := by
      intro hnil
      rw [hnil] at hindex
      exact hfirst hindex
    rw [Placed, if_neg hbefore] at h
    obtain ⟨rank, slices, hrank, hslices, hsame, hat⟩ := h
    rw [if_neg hfirst]
    by_cases heq : rank = (dimsOf slice.1).length
    · subst heq
      rw [if_neg (not_not_intro hat.rank_eq)]
      exact hput slices st hdims hslices hsame hat
    · -- another number of dimensions than the first slice
      have hne : st.rank ≠ ((dimsOf slice.1).length : Int) := by
        rw [hat.rank_eq]
        omega
      rw [if_pos hne]
      refine ⟨trivial, fun all hall => ?_⟩
      obtain ⟨p, hp⟩ := List.exists_mem_of_ne_nil _ hbefore
      obtain ⟨a, ha, hpa⟩ := exists_of_mem hall.1 (hmem p (List.mem_append_left _ hp))
      obtain ⟨b, hb, hpb⟩ := exists_of_mem hall.1 hlast
      have hlen := hall.2 a ha b hb
      rw [hpa.length_eq, hpb.length_eq, hsame p hp] at hlen
      exact heq hlen

theorem sliceList_iff {s : JString} {slices : List (List (Int × Int))} :
    SliceList s slices ↔ charLength s ≤ maxStringLength ∧ (s.splitOn ';').length ≤ maxSlices ∧
      AreSlices (s.splitOn ';') slices := by
  constructor
  · rintro ⟨hle, ⟨pieces, hsep, hslices⟩, hnr, hsame⟩
    rw [separated_iff.mp hsep, hslices.length_eq]
    exact ⟨hle, hnr, hslices, hsame⟩
  · rintro ⟨hle, hnr, hslices, hsame⟩
    rw [hslices.length_eq] at hnr
    exact ⟨hle, ⟨_, separated_iff.mpr rfl, hslices⟩, hnr, hsame⟩

theorem SliceList.unique {s : JString} {slices slices' : List (List (Int × Int))}
    (h : SliceList s slices) (h' : SliceList s slices') : slices = slices' :=
  SlicePiece.unique.forall₂ (sliceList_iff.mp h).2.2.1 (sliceList_iff.mp h').2.2.1

/-- **The parser finds the slices, if there are**, and refuses the string if there are none. -/
theorem parse_ends (s : JString) :
    Ends (fun e => e.IsInvalidSlice ∧ ∀ slices, ¬ SliceList s slices)
      (fun slice => ∃ slices, SliceList s slices ∧ slice = .ofSlices slices)
        (SliceInfo.parse s) := by
  unfold SliceInfo.parse
  split
  · rename_i hlong
    exact ⟨trivial, fun slices h => Nat.not_le.mpr hlong h.length_le⟩
  rename_i hlong
  dsimp only
  split
  · rename_i hmany
    exact ⟨trivial, fun slices h => Nat.not_le.mpr hmany (sliceList_iff.mp h).2.1⟩
  rename_i hmany
  have hpieces : s.splitOn ';' ≠ [] := List.splitOn_ne_nil _ s
  have hslices : ∀ slices, AreSlices (s.splitOn ';') slices → SliceList s slices := fun slices h =>
    sliceList_iff.mpr ⟨Nat.le_of_not_lt hlong, Nat.le_of_not_lt hmany, h⟩
  have hnone : (∀ slices, ¬ AreSlices (s.splitOn ';') slices) → ∀ slices, ¬ SliceList s slices :=
    fun h slices hs => h slices (sliceList_iff.mp hs).2.2
  generalize s.splitOn ';' = pieces at hmany hpieces hslices hnone
  refine Ends.bind (P := Placed pieces.length pieces.zipIdx)
    (Ends.weaken (Ends.foldlM (I := Placed pieces.length) (fun before slice st hprefix h =>
      parseSlice_ends (Nat.le_of_not_lt hmany) hprefix h) rfl)
        fun e he => ⟨he.1, hnone he.2⟩) fun st hst => ?_
  have hne : pieces.zipIdx ≠ [] := by
    rw [← List.length_pos_iff, List.length_zipIdx]
    exact List.length_pos_iff.mpr hpieces
  rw [Placed, if_neg hne] at hst
  obtain ⟨rank, slices, _, hforall, hrank, hat⟩ := hst
  have hlen := length_flatten_slices hforall hrank
  rw [List.length_zipIdx] at hlen
  obtain ⟨hstarts, hcounts⟩ := hat.full hlen
  rw [List.zipIdx_map_fst] at hforall
  have hlengths : ∀ a ∈ slices, a.length = rank := by
    intro a ha
    obtain ⟨piece, hpiece, hflip⟩ := exists_of_mem hforall.flip ha
    obtain ⟨k, hk, rfl⟩ := List.mem_iff_getElem.mp hpiece
    have hpair : (pieces[k], k) ∈ pieces.zipIdx := by
      rw [List.mem_zipIdx_iff_getElem?]
      exact List.getElem?_eq_getElem hk
    rw [SlicePiece.length_eq hflip]
    exact hrank _ hpair
  have hnr : pieces.length = slices.length := hforall.length_eq
  have hfirst : (slices.headD []).length = rank := by
    rcases hs : slices with _ | ⟨a, rest⟩
    · rw [hs, List.length_nil] at hnr
      exact absurd (List.length_eq_zero_iff.mp hnr) hpieces
    · exact hlengths a (by rw [hs]; exact List.mem_cons_self)
  refine ⟨slices, hslices slices ⟨hforall, fun a ha b hb => ?_⟩, ?_⟩
  · rw [hlengths a ha, hlengths b hb]
  · rw [SliceInfo.ofSlices, hfirst, ← hstarts, ← hcounts, ← hat.rank_eq, ← hnr]

theorem parse_iff {s : JString} {slice : SliceInfo} :
    SliceInfo.parse s = .ok slice ↔ ∃ slices, SliceList s slices ∧ slice = .ofSlices slices := by
  have h := parse_ends s
  constructor
  · intro hparse
    rw [hparse] at h
    exact h
  · rintro ⟨slices, hs, rfl⟩
    cases hparse : SliceInfo.parse s with
    | error e =>
      rw [hparse] at h
      exact absurd hs (h.2 slices)
    | ok slice =>
      rw [hparse] at h
      obtain ⟨slices', hs', rfl⟩ := h
      rw [hs.unique hs']

/-- Every string that is not accepted is refused with an `InvalidSliceException`. -/
theorem parse_refuses {s : JString} {e : Thrown} (h : SliceInfo.parse s = .error e) :
    e.IsInvalidSlice := by
  have hends := parse_ends s
  rw [h] at hends
  exact hends.1

/-! ## 5. Slices as the clients write them -/

/-- A range as `start:end`. -/
def renderRange (r : Int × Int) : JString := decimal r.1 ++ ':' :: decimal (r.1 + r.2)

/-- The slice string of `slice_url`. -/
def renderSlice (ranges : List (Int × Int)) : JString := [','].intercalate (ranges.map renderRange)

def renderSlices (slices : List (List (Int × Int))) : JString :=
  [';'].intercalate (slices.map renderSlice)

/-- A range that does not end beyond the largest `long`. -/
def IsRange (r : Int × Int) : Prop := 0 ≤ r.1 ∧ 0 ≤ r.2 ∧ r.1 + r.2 < 9223372036854775808

theorem notMem_decimal {n : Int} (hn : 0 ≤ n) {c : Char} (hc : c.isDigit = false) :
    c ∉ decimal n := by
  intro hmem
  rw [decimal, if_neg (Int.not_lt.mpr hn)] at hmem
  rw [Nat.isDigit_of_mem_toDigits (by decide) (by decide) hmem] at hc
  cases hc

theorem longField_decimal {n : Int} (hn : 0 ≤ n) (hlt : n < 9223372036854775808) :
    LongField (decimal n) n := by
  have hblank : ∀ c ∈ decimal n, ¬ c ≤ ' ' := by
    intro c hc hle
    have hdigit : c.isDigit = false := by
      rw [Char.isDigit, Bool.and_eq_false_iff]
      exact .inl (decide_eq_false fun h => absurd (UInt32.le_trans h hle) (by decide))
    exact notMem_decimal hn hdigit hc
  rw [LongField, trim_eq_self hblank]
  exact ⟨number_decimal n, by omega, hlt⟩

theorem rangeField_render {r : Int × Int} (h : IsRange r) : RangeField (renderRange r) r := by
  obtain ⟨h1, h2, h3⟩ := h
  have hrange := RangeField.range (notMem_decimal h1 (by decide))
    (notMem_decimal (by omega : 0 ≤ r.1 + r.2) (by decide)) (longField_decimal h1 (by omega))
    (longField_decimal (by omega) h3) h1 (by omega)
  have hcount : r.1 + r.2 - r.1 = r.2 := by omega
  rwa [hcount] at hrange

theorem notMem_renderRange {r : Int × Int} (h : IsRange r) {c : Char} (hc : c.isDigit = false)
    (hcolon : c ≠ ':') : c ∉ renderRange r := by
  obtain ⟨h1, h2, _⟩ := h
  rw [renderRange, List.mem_append, List.mem_cons, not_or, not_or]
  exact ⟨notMem_decimal h1 hc, hcolon, notMem_decimal (by omega) hc⟩

theorem slicePiece_render {ranges : List (Int × Int)} (h : ∀ r ∈ ranges, IsRange r)
    (hle : ranges.length ≤ maxDimensions) : SlicePiece (renderSlice ranges) ranges := by
  rcases ranges with _ | ⟨r, rest⟩
  · exact .blank rfl
  · have hfree : ∀ field ∈ (r :: rest).map renderRange, ',' ∉ field := by
      intro field hfield
      obtain ⟨r', hr', rfl⟩ := List.mem_map.mp hfield
      exact notMem_renderRange (h r' hr') (by decide) (by decide)
    have hsep : Separated ',' (renderSlice (r :: rest)) ((r :: rest).map renderRange) :=
      ⟨List.cons_ne_nil _ _, hfree, rfl⟩
    refine .fields hsep ?_ ?_
    · rw [List.forall₂_map_left_iff, List.forall₂_same]
      exact fun r' hr' => rangeField_render (h r' hr')
    · rw [List.length_map]
      exact hle

/-- What the clients write is in the grammar. -/
theorem sliceList_render {slices : List (List (Int × Int))} (hne : slices ≠ [])
    (hnr : slices.length ≤ maxSlices) (hranges : ∀ ranges ∈ slices, ∀ r ∈ ranges, IsRange r)
    (hrank : ∀ ranges ∈ slices, ranges.length ≤ maxDimensions)
    (hsame : ∀ a ∈ slices, ∀ b ∈ slices, a.length = b.length)
    (hle : charLength (renderSlices slices) ≤ maxStringLength) :
    SliceList (renderSlices slices) slices := by
  refine ⟨hle, ⟨slices.map renderSlice, ⟨?_, ?_, rfl⟩, ?_⟩, hnr, hsame⟩
  · exact fun h => hne (List.map_eq_nil_iff.mp h)
  · intro piece hpiece
    obtain ⟨ranges, hmem, rfl⟩ := List.mem_map.mp hpiece
    refine notMem_intercalate (by decide) fun field hfield => ?_
    obtain ⟨r, hr, rfl⟩ := List.mem_map.mp hfield
    exact notMem_renderRange (hranges ranges hmem r hr) (by decide) (by decide)
  · rw [List.forall₂_map_left_iff, List.forall₂_same]
    exact fun ranges hmem => slicePiece_render (hranges ranges hmem) (hrank ranges hmem)

/-- **The parser accepts its grammar and nothing else**, refuses the rest with an
`InvalidSliceException`, and reads back what the clients write within its limits. -/
theorem sliceString_exact :
    (∀ s slice, SliceInfo.parse s = .ok slice ↔
      ∃ slices, SliceList s slices ∧ slice = .ofSlices slices) ∧
    (∀ s e, SliceInfo.parse s = .error e → e.IsInvalidSlice) ∧
    ∀ slices, slices ≠ [] → slices.length ≤ maxSlices →
      (∀ ranges ∈ slices, ∀ r ∈ ranges, IsRange r) →
      (∀ ranges ∈ slices, ranges.length ≤ maxDimensions) →
      (∀ a ∈ slices, ∀ b ∈ slices, a.length = b.length) →
      charLength (renderSlices slices) ≤ maxStringLength →
      SliceInfo.parse (renderSlices slices) = .ok (.ofSlices slices) :=
  ⟨fun _ _ => parse_iff, fun _ _ => parse_refuses, fun slices hne hnr hranges hrank hsame hle =>
    parse_iff.mpr ⟨slices, sliceList_render hne hnr hranges hrank hsame hle, rfl⟩⟩

/-- One slice of a matrix. -/
theorem sliceString_exact_matrix :
    SliceInfo.parse (renderSlices [[(0, 3), (2, 5)]]) = .ok (.ofSlices [[(0, 3), (2, 5)]]) := by
  refine sliceString_exact.2.2 [[(0, 3), (2, 5)]] (by decide) (by decide) ?_ (by decide) (by decide)
    (by decide)
  intro ranges hranges r hr
  rw [List.mem_singleton.mp hranges] at hr
  rcases List.mem_cons.mp hr with rfl | hr
  · exact ⟨by decide, by decide, by decide⟩
  · rw [List.mem_singleton.mp hr]
    exact ⟨by decide, by decide, by decide⟩

/-- A slice of nine dimensions is not read back. -/
theorem nineDims_refused :
    ¬ ∀ slices : List (List (Int × Int)), (∀ ranges ∈ slices, ∀ r ∈ ranges, IsRange r) →
      SliceInfo.parse (renderSlices slices) = .ok (.ofSlices slices) := by
  intro h
  have hparse := h [List.replicate 9 (0, 1)] fun ranges hranges r hr => by
    rw [List.mem_singleton.mp hranges] at hr
    rw [List.eq_of_mem_replicate hr]
    exact ⟨by decide, by decide, by decide⟩
  have hwf := parse_wellFormed (renderSlices [List.replicate 9 (0, 1)])
  rw [hparse] at hwf
  exact absurd hwf.rank_le (by decide)

end HdfStream.Webapp
