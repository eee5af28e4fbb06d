/-
# Selecting by halves

`select_slices` selects the same points as `select_slices_direct`, as long as the library is
willing: every entry is read once, and every dataspace that is made on the way is closed, on all
paths (`Recursed`).  The check in debug mode counts the points modulo 2^64 and passes if the
hyperslabs are disjoint (`nrExpected_eq`).  `selectSlices_spec` puts it together.

The check does not look whether `H5Sget_simple_extent_ndims` fails, and no result of `H5Sclose` is
looked at, so these may fail although `select_slices` returns 0 (`ndims_failure_ignored`).
-/
import HdfStream.Select.Model
import Mathlib.Algebra.BigOperators.Ring.Finset
import Mathlib.Order.Interval.Finset.Nat

namespace HdfStream.Select

/-! ## 1. Logs -/

def reads (events : List Event) : List Nat :=
  events.filterMap fun | .read i => some i | _ => none

def creates (events : List Event) : List Int :=
  events.filterMap fun | .created id => some id | _ => none

def closes (events : List Event) : List Int :=
  events.filterMap fun | .closed id => some id | _ => none

@[simp] theorem reads_append (e e' : List Event) : reads (e ++ e') = reads e ++ reads e' :=
  List.filterMap_append

@[simp] theorem creates_append (e e' : List Event) : creates (e ++ e') = creates e ++ creates e' :=
  List.filterMap_append

@[simp] theorem closes_append (e e' : List Event) : closes (e ++ e') = closes e ++ closes e' :=
  List.filterMap_append

/-- No call but `H5Sclose` has failed. -/
def OnlyClose (events : List Event) : Prop := ∀ call, .failed call ∈ events → call = .close

/-- A call that makes a dataspace or changes a selection has failed. -/
def SelectFailed (events : List Event) : Prop := ∃ call, call.selects = true ∧ .failed call ∈ events

theorem onlyClose_append {e e' : List Event} (h : OnlyClose e) (h' : OnlyClose e') :
    OnlyClose (e ++ e') := fun call hcall => (List.mem_append.mp hcall).elim (h call) (h' call)

theorem SelectFailed.left {e : List Event} (h : SelectFailed e) (e' : List Event) :
    SelectFailed (e ++ e') :=
  h.imp fun _ hcall => ⟨hcall.1, List.mem_append_left _ hcall.2⟩

theorem SelectFailed.right {e' : List Event} (h : SelectFailed e') (e : List Event) :
    SelectFailed (e ++ e') :=
  h.imp fun _ hcall => ⟨hcall.1, List.mem_append_right _ hcall.2⟩

/-- A log of `H5Sclose` for the identifiers `ids`. -/
structure Closing (ids : List Int) (events : List Event) : Prop where
  reads : reads events = []
  creates : creates events = []
  closes : closes events = ids
  failed : OnlyClose events

theorem closing_nil : Closing [] [] := ⟨rfl, rfl, rfl, fun _ h => by cases h⟩

theorem Closing.append {ids ids' : List Int} {e e' : List Event} (h : Closing ids e)
    (h' : Closing ids' e') : Closing (ids ++ ids') (e ++ e') where
  reads := by rw [reads_append, h.reads, h'.reads, List.nil_append]
  creates := by rw [creates_append, h.creates, h'.creates, List.nil_append]
  closes := by rw [closes_append, h.closes, h'.closes]
  failed := onlyClose_append h.failed h'.failed

/-! ## 2. Steps -/

/-- Identifiers are handed out in order. -/
structure World.Ok (w : World) : Prop where
  nonneg : 0 ≤ w.nextId
  fresh : ∀ id, w.nextId ≤ id → w.spaces id = none

/-- From `w` to `w'`, with the log `events`; the dataspaces with identifiers below `base` are as
they were, and of the arrays the first entries alone may have changed. -/
structure Frame (base : Int) (w w' : World) (events : List Event) : Prop where
  ok : w'.Ok
  nextId : w.nextId ≤ w'.nextId
  old : ∀ id, id < base → w'.spaces id = w.spaces id
  start : ∀ i, i ≠ 0 → w'.start i = w.start i
  count : ∀ i, i ≠ 0 → w'.count i = w.count i
  log : w'.log = w.log ++ events

theorem Frame.refl {w : World} (hw : w.Ok) (base : Int) : Frame base w w [] :=
  ⟨hw, le_refl _, fun _ _ => rfl, fun _ _ => rfl, fun _ _ => rfl, (List.append_nil _).symm⟩

theorem Frame.trans {base : Int} {w w' w'' : World} {e e' : List Event} (h : Frame base w w' e)
    (h' : Frame base w' w'' e') : Frame base w w'' (e ++ e') where
  ok := h'.ok
  nextId := h.nextId.trans h'.nextId
  old := fun id hid => (h'.old id hid).trans (h.old id hid)
  start := fun i hi => (h'.start i hi).trans (h.start i hi)
  count := fun i hi => (h'.count i hi).trans (h.count i hi)
  log := by rw [h'.log, h.log, List.append_assoc]

theorem Frame.mono {base base' : Int} {w w' : World} {e : List Event} (h : Frame base w w' e)
    (hle : base' ≤ base) : Frame base' w w' e :=
  { h with old := fun id hid => h.old id (lt_of_lt_of_le hid hle) }

theorem frame_record {w : World} (hw : w.Ok) (base : Int) (e : Event) :
    Frame base w (w.record e) [e] :=
  ⟨⟨hw.nonneg, hw.fresh⟩, le_refl _, fun _ _ => rfl, fun _ _ => rfl, fun _ _ => rfl, rfl⟩

theorem frame_tick {w : World} (hw : w.Ok) (base : Int) : Frame base w w.tick [] :=
  ⟨⟨hw.nonneg, hw.fresh⟩, le_refl _, fun _ _ => rfl, fun _ _ => rfl, fun _ _ => rfl,
    (List.append_nil _).symm⟩

theorem frame_failed {w : World} (hw : w.Ok) (base : Int) (call : Call) :
    Frame base w (w.tick.record (.failed call)) [.failed call] :=
  (frame_tick hw base).trans (frame_record (frame_tick hw base).ok base _)

theorem frame_create {w : World} (hw : w.Ok) (s : Dataspace) :
    Frame w.nextId w (w.create s).2 [.created w.nextId] where
  ok := by
    refine ⟨by have := hw.nonneg; simp only [World.create]; omega, fun id hid => ?_⟩
    have hid : w.nextId + 1 ≤ id := hid
    exact (Function.update_of_ne (by omega) _ _).trans (hw.fresh id (by omega))
  nextId := by simp only [World.create]; omega
  old := fun id hid => Function.update_of_ne (by omega) _ _
  start := fun _ _ => rfl
  count := fun _ _ => rfl
  log := rfl

theorem frame_set {w : World} (hw : w.Ok) {base id : Int} (hbase : base ≤ id) (hid : id < w.nextId)
    (s : Option Dataspace) : Frame base w (w.set id s) [] where
  ok := ⟨hw.nonneg, fun j hj => by
    have hj : w.nextId ≤ j := hj
    exact (Function.update_of_ne (by omega) _ _).trans (hw.fresh j hj)⟩
  nextId := le_refl _
  old := fun j hj => Function.update_of_ne (by omega) _ _
  start := fun _ _ => rfl
  count := fun _ _ => rfl
  log := (List.append_nil _).symm

theorem World.Ok.lt_nextId {w : World} (hw : w.Ok) {id : Int} {s : Dataspace}
    (hs : w.spaces id = some s) : id < w.nextId := by
  by_contra hle
  rw [hw.fresh id (by omega)] at hs
  cases hs

/-! ## 3. Calls of the library -/

section

variable (fails : Nat → Bool)

theorem run_bind {σ α β : Type} {x : StateM σ α} {s s' : σ} {a : α} (h : x s = (a, s'))
    (f : α → StateM σ β) : (x >>= f) s = f a s' := by
  have hbind : (x >>= f) s = f (x s).1 (x s).2 := rfl
  rw [hbind, h]

theorem run_pure {σ α : Type} (a : α) (s : σ) : (pure a : StateM σ α) s = (a, s) := rfl

theorem run_discard {σ α : Type} (x : StateM σ α) (s : σ) : discard x s = ((), (x s).2) := rfl

/-- A call fails or does what it is meant to do. -/
theorem h5_cases {call : Call} {effect : World → Option (Int × World)} {w : World}
    {out : Int × World}
    (h : effect w.tick = some out) :
    h5 fails call effect w = (-1, w.tick.record (.failed call)) ∨ h5 fails call effect w = out := by
  rw [h5, h]
  by_cases hfail : fails w.calls = true
  · exact .inl (if_pos hfail)
  · exact .inr (if_neg hfail)

theorem h5_none {call : Call} {effect : World → Option (Int × World)} {w : World}
    (h : effect w.tick = none) : h5 fails call effect w = (-1, w.tick.record (.failed call)) := by
  rw [h5, h]

theorem h5Scopy_cases {w : World} {id : Int} {s : Dataspace} (hs : w.spaces id = some s) :
    h5Scopy fails id w = (-1, w.tick.record (.failed .copy)) ∨
      h5Scopy fails id w = (w.nextId, (w.tick.create s).2) :=
  h5_cases fails (congrArg (Option.map w.tick.create) hs)

theorem h5SselectNone_cases {w : World} {id : Int} {s : Dataspace} (hs : w.spaces id = some s) :
    h5SselectNone fails id w = (-1, w.tick.record (.failed .selectNone)) ∨
      h5SselectNone fails id w = (0, w.tick.set id (some { s with selection := ∅ })) :=
  h5_cases fails (congrArg (Option.map fun s => (0, w.tick.set id (some { s with selection := ∅ })))
    hs)

theorem h5SselectHyperslab_cases {w : World} {id : Int} {s : Dataspace}
    (hs : w.spaces id = some s) :
    h5SselectHyperslab fails id w = (-1, w.tick.record (.failed .selectHyperslab)) ∨
      s.rank ≠ 0 ∧ h5SselectHyperslab fails id w = (0, w.tick.set id
        (some { s with selection := s.selection ∪ hyperslab s.rank w.start w.count })) := by
  have hs : w.tick.spaces id = some s := hs
  by_cases hrank : s.rank = 0
  · refine .inl (h5_none fails ?_)
    simp only [hs, Option.bind_some, if_pos hrank]
  · refine (h5_cases fails ?_).imp_right fun h => ⟨hrank, h⟩
    simp only [hs, Option.bind_some, if_neg hrank]
    rfl

theorem h5ScombineSelect_cases {w : World} {id₁ id₂ : Int} {s₁ s₂ : Dataspace}
    (hs₁ : w.spaces id₁ = some s₁) (hs₂ : w.spaces id₂ = some s₂) (hrank : s₁.rank = s₂.rank) :
    h5ScombineSelect fails id₁ id₂ w = (-1, w.tick.record (.failed .combineSelect)) ∨
      h5ScombineSelect fails id₁ id₂ w =
        (w.nextId, (w.tick.create { s₁ with selection := s₁.selection ∪ s₂.selection }).2) := by
  have hs₁ : w.tick.spaces id₁ = some s₁ := hs₁
  have hs₂ : w.tick.spaces id₂ = some s₂ := hs₂
  refine h5_cases fails ?_
  simp only [hs₁, hs₂, Option.bind_some, if_pos hrank]
  rfl

theorem h5SselectCopy_cases {w : World} {dst src : Int} {d s : Dataspace}
    (hd : w.spaces dst = some d) (hs : w.spaces src = some s) (hrank : d.rank = s.rank) :
    h5SselectCopy fails dst src w = (-1, w.tick.record (.failed .selectCopy)) ∨
      h5SselectCopy fails dst src w =
        (0, w.tick.set dst (some { d with selection := s.selection })) := by
  have hd : w.tick.spaces dst = some d := hd
  have hs : w.tick.spaces src = some s := hs
  refine h5_cases fails ?_
  simp only [hd, hs, Option.bind_some, if_pos hrank]

/-- `H5Sclose`, whether it fails or not. -/
theorem h5Sclose_frame {w : World} (hw : w.Ok) {base id : Int} (hbase : base ≤ id) :
    ∃ events, Frame base w (h5Sclose fails id w).2 events ∧ Closing [id] events ∧
      ∀ j, j ≠ id → (h5Sclose fails id w).2.spaces j = w.spaces j := by
  have hrecord := frame_record hw base (.closed id)
  have hfailed : h5Sclose fails id w =
        (-1, (w.record (.closed id)).tick.record (.failed .close)) →
      ∃ events, Frame base w (h5Sclose fails id w).2 events ∧ Closing [id] events ∧
        ∀ j, j ≠ id → (h5Sclose fails id w).2.spaces j = w.spaces j := fun h => by
    refine ⟨[.closed id] ++ [.failed .close], ?_, ⟨rfl, rfl, rfl, ?_⟩, fun j _ => ?_⟩
    · rw [h]
      exact hrecord.trans (frame_failed hrecord.ok base .close)
    · intro call hcall
      rcases List.mem_cons.mp hcall with hcall | hcall
      · cases hcall
      · cases List.mem_singleton.mp hcall
        rfl
    · rw [h]
      rfl
  cases hs : w.spaces id with
  | none =>
    refine hfailed (h5_none fails ?_)
    exact congrArg (Option.map _) hs
  | some s =>
    have hset : (w.record (.closed id)).tick.spaces id = some s := hs
    rcases @h5_cases fails .close (fun w => (w.spaces id).map fun _ => (0, w.set id none))
      (w.record (.closed id)) _
      (congrArg (Option.map fun _ => (0, (w.record (.closed id)).tick.set id none)) hset) with h | h
    · exact hfailed h
    · have heq : h5Sclose fails id w = (0, (w.record (.closed id)).tick.set id none) := h
      refine ⟨[.closed id], ?_, ⟨rfl, rfl, rfl, fun call hcall => ?_⟩, fun j hj => ?_⟩
      · rw [heq]
        have htick := frame_tick hrecord.ok base
        have hset := frame_set htick.ok hbase (hw.lt_nextId hs) none
        exact hrecord.trans (htick.trans hset)
      · cases List.mem_singleton.mp hcall
      · rw [heq]
        exact Function.update_of_ne hj _ _

theorem closeIfOpen_frame {w : World} (hw : w.Ok) {base id : Int} (hid : 0 ≤ id → base ≤ id) :
    ∃ events w', closeIfOpen fails id w = ((), w') ∧ Frame base w w' events ∧
      Closing ([id].filter fun id => 0 ≤ id) events := by
  rw [closeIfOpen]
  by_cases hpos : 0 ≤ id
  · obtain ⟨events, hframe, hclosing, _⟩ := h5Sclose_frame fails hw (hid hpos)
    refine ⟨events, _, ?_, hframe, ?_⟩
    · rw [if_pos hpos]
      rfl
    · rwa [List.filter_singleton, decide_eq_true hpos]
  · refine ⟨[], w, ?_, Frame.refl hw base, ?_⟩
    · rw [if_neg hpos]
      rfl
    · rw [List.filter_singleton, decide_eq_false hpos]
      exact closing_nil

/-- `cleanup` closes the dataspaces there are. -/
theorem cleanup_frame {w : World} (hw : w.Ok) {base result left right : Int}
    (hresult : 0 ≤ result → base ≤ result) (hleft : 0 ≤ left → base ≤ left)
    (hright : 0 ≤ right → base ≤ right) :
    (cleanup fails result left right w).1 = -1 ∧
      ∃ events, Frame base w (cleanup fails result left right w).2 events ∧
        Closing ([result, left, right].filter fun id => 0 ≤ id) events := by
  obtain ⟨e₁, w₁, hrun₁, hframe₁, hclosing₁⟩ := closeIfOpen_frame fails hw hresult
  obtain ⟨e₂, w₂, hrun₂, hframe₂, hclosing₂⟩ := closeIfOpen_frame fails hframe₁.ok hleft
  obtain ⟨e₃, w₃, hrun₃, hframe₃, hclosing₃⟩ := closeIfOpen_frame fails hframe₂.ok hright
  have hrun : cleanup fails result left right w = (-1, w₃) := by
    rw [cleanup, run_bind hrun₁, run_bind hrun₂, run_bind hrun₃]
    rfl
  rw [hrun]
  refine ⟨rfl, e₁ ++ (e₂ ++ e₃), hframe₁.trans (hframe₂.trans hframe₃), ?_⟩
  have hsplit : [result, left, right].filter (fun id => 0 ≤ id) =
      [result].filter (fun id => 0 ≤ id) ++ ([left].filter (fun id => 0 ≤ id) ++
        [right].filter fun id => 0 ≤ id) := by
    rw [← List.filter_append, ← List.filter_append]
    rfl
  rw [hsplit]
  exact hclosing₁.append (hclosing₂.append hclosing₃)

end

/-! ## 4. Adding hyperslabs one after the other -/

section

variable (fails : Nat → Bool) {selectStart selectCount : Nat → UInt64}

/-- The hyperslab of entry `i`. -/
def slab (selectStart selectCount : Nat → UInt64) (rank : Nat) (w : World) (i : Nat) :
    Finset (List Nat) :=
  hyperslab rank (Function.update w.start 0 (selectStart i))
    (Function.update w.count 0 (selectCount i))

/-- The points of the entries from `first` on. -/
def slabs (selectStart selectCount : Nat → UInt64) (rank : Nat) (w : World) (first nr : Nat) :
    Finset (List Nat) :=
  (Finset.Ico first (first + nr)).biUnion (slab selectStart selectCount rank w)

theorem Frame.slab {base : Int} {w w' : World} {e : List Event} (h : Frame base w w' e)
    (rank i : Nat) :
    Select.slab selectStart selectCount rank w' i = Select.slab selectStart selectCount rank
      w i := by
  have hupdate : ∀ {f g : Nat → UInt64}, (∀ j, j ≠ 0 → g j = f j) → ∀ v : UInt64,
      Function.update g 0 v = Function.update f 0 v := by
    intro f g hfg v
    funext j
    by_cases hj : j = 0
    · rw [hj, Function.update_self, Function.update_self]
    · rw [Function.update_of_ne hj, Function.update_of_ne hj, hfg j hj]
  rw [Select.slab, Select.slab, hupdate h.start, hupdate h.count]

theorem Frame.slabs {base : Int} {w w' : World} {e : List Event} (h : Frame base w w' e)
    (rank first nr : Nat) :
    Select.slabs selectStart selectCount rank w' first nr =
      Select.slabs selectStart selectCount rank w first nr := by
  have hslab : Select.slab selectStart selectCount rank w' = Select.slab selectStart selectCount
    rank w :=
    funext (h.slab rank)
  rw [Select.slabs, hslab, Select.slabs]

theorem slabs_zero (rank : Nat) (w : World) (first : Nat) :
    slabs selectStart selectCount rank w first 0 = ∅ := by
  rw [slabs, Nat.add_zero, Finset.Ico_self, Finset.biUnion_empty]

theorem slabs_add (rank : Nat) (w : World) (first m n : Nat) :
    slabs selectStart selectCount rank w first (m + n) =
      slabs selectStart selectCount rank w first m ∪
        slabs selectStart selectCount rank w (first + m) n := by
  rw [slabs, slabs, slabs, ← Finset.union_biUnion, Nat.add_assoc,
    Finset.Ico_union_Ico_eq_Ico (by omega) (by omega)]

theorem slabs_one (rank : Nat) (w : World) (first : Nat) :
    slabs selectStart selectCount rank w first 1 = slab selectStart selectCount rank w first := by
  have hone : Finset.Ico first (first + 1) = {first} := by
    ext i
    rw [Finset.mem_Ico, Finset.mem_singleton]
    omega
  rw [slabs, hone, Finset.singleton_biUnion]

/-- What a loop over entries does to the dataspace `id`. -/
structure Entries (fails : Nat → Bool) (selectStart selectCount : Nat → UInt64) (id : Int)
    (s : Dataspace)
    (nr first : Nat) (w : World) (err : Int) (w' : World) (events : List Event) : Prop where
  frame : Frame id w w' events
  nextId : w'.nextId = w.nextId
  others : ∀ j, j ≠ id → w'.spaces j = w.spaces j
  creates : creates events = []
  closes : closes events = []
  rank : 0 ≤ err → nr = 0 ∨ s.rank ≠ 0
  selected : 0 ≤ err → err = 0 ∧ reads events = List.range' first nr ∧
    (∀ call, .failed call ∉ events) ∧
    w'.spaces id =
      some { s with selection := s.selection ∪ slabs selectStart selectCount s.rank w first nr }
  failed : err < 0 → SelectFailed events ∧ ∃ m, m ≤ nr ∧ reads events = List.range' first m

theorem selectEntries_entries {w : World} (hw : w.Ok) {id : Int} {s : Dataspace}
    (hs : w.spaces id = some s) (nr first : Nat) :
    ∃ events, Entries fails selectStart selectCount id s nr first w
      (selectEntries fails selectStart selectCount id nr first w).1
      (selectEntries fails selectStart selectCount id nr first w).2 events := by
  induction nr generalizing w s first with
  | zero =>
    refine ⟨[], Frame.refl hw id, rfl, fun _ _ => rfl, rfl, rfl, fun _ => .inl rfl,
      fun _ => ⟨rfl, rfl, ?_, ?_⟩, fun h => ?_⟩
    · exact fun call hcall => by cases hcall
    · rw [slabs_zero, Finset.union_empty]
      exact hs
    · exact absurd h (Int.lt_irrefl 0)
  | succ nr ih =>
    -- the world after `start[0]` and `count[0]` are set
    have hset : Frame id w (setFirst selectStart selectCount first w).2 [.read first] :=
      ⟨⟨hw.nonneg, hw.fresh⟩, le_refl _, fun _ _ => rfl, fun i hi => Function.update_of_ne hi _ _,
        fun i hi => Function.update_of_ne hi _ _, rfl⟩
    have hrun : selectEntries fails selectStart selectCount id (nr + 1) first w =
        (h5SselectHyperslab fails id >>= fun err => if err < 0 then pure err
          else selectEntries fails selectStart selectCount id nr (first + 1))
          (setFirst selectStart selectCount first w).2 := rfl
    have hopen : (setFirst selectStart selectCount first w).2.spaces id = some s := hs
    rcases h5SselectHyperslab_cases fails hopen with hfail | ⟨hrank, hdone⟩
    · rw [hrun, run_bind hfail, if_pos (by decide), run_pure]
      refine ⟨[.read first] ++ [.failed .selectHyperslab], hset.trans (frame_failed hset.ok id _),
        rfl,
        fun _ _ => rfl, rfl, rfl, fun h => ?_, fun h => ?_, fun _ => ⟨?_, 1, by omega, rfl⟩⟩
      · exact absurd h (show ¬ (0 : Int) ≤ -1 by decide)
      · exact absurd h (show ¬ (0 : Int) ≤ -1 by decide)
      · exact ⟨.selectHyperslab, rfl, List.mem_append_right _ (List.mem_singleton.mpr rfl)⟩
    · rw [hrun, run_bind hdone, if_neg (Int.lt_irrefl 0)]
      have htick := frame_tick hset.ok id
      have hslab : slab selectStart selectCount s.rank w first = hyperslab s.rank
          (setFirst selectStart selectCount first w).2.start
          (setFirst selectStart selectCount first w).2.count := rfl
      rw [← hslab]
      have hframe := hset.trans (htick.trans (frame_set htick.ok (le_refl id) (hw.lt_nextId hs)
        (some { s with selection := s.selection ∪ slab selectStart selectCount s.rank w first })))
      obtain ⟨events, h⟩ := ih hframe.ok (Function.update_self id _ _) (first + 1)
      refine ⟨[.read first] ++ ([] ++ []) ++ events, hframe.trans h.frame, h.nextId, fun j hj =>
        ?_, ?_, ?_,
        fun _ => .inr hrank, fun hpos => ?_, fun hneg => ?_⟩
      · rw [h.others j hj]
        exact Function.update_of_ne hj _ _
      · rw [creates_append, h.creates]
        rfl
      · rw [closes_append, h.closes]
        rfl
      · obtain ⟨hzero, hreads, hnone, hspace⟩ := h.selected hpos
        refine ⟨hzero, ?_, fun call hcall => ?_, ?_⟩
        · rw [reads_append, hreads, List.range'_succ]
          rfl
        · rcases List.mem_append.mp hcall with hcall | hcall
          · cases List.mem_singleton.mp hcall
          · exact hnone call hcall
        · rw [hspace, hframe.slabs, Finset.union_assoc, Nat.add_comm nr 1, slabs_add, slabs_one]
      · obtain ⟨hfailed, m, hm, hreads⟩ := h.failed hneg
        refine ⟨hfailed.right _, m + 1, by omega, ?_⟩
        rw [reads_append, hreads, List.range'_succ]
        rfl

/-! ## 5. Selecting by halves -/

/-- What `select_slices_recursive` does with the entries from `first` on: it returns a new dataspace
in which they are selected, or fails since a call of the library has failed. -/
structure Recursed (selectStart selectCount : Nat → UInt64) (s : Dataspace) (first nr : Nat)
    (w : World)
    (result : Int) (w' : World) (events : List Event) : Prop where
  frame : Frame w.nextId w w' events
  rank : 0 ≤ result → nr = 0 ∨ s.rank ≠ 0
  selected : 0 ≤ result → w.nextId ≤ result ∧ reads events = List.range' first nr ∧
    OnlyClose events ∧
    (creates events).Perm (closes events ++ [result]) ∧
    w'.spaces result = some { s with selection := slabs selectStart selectCount s.rank w first nr }
  failed : result < 0 → SelectFailed events ∧ (∃ m, m ≤ nr ∧ reads events = List.range' first m) ∧
    (creates events).Perm (closes events)

/-- **The error exits**: `cleanup` closes what has been made. -/
theorem recursed_cleanup {s : Dataspace} {first nr m : Nat} {w w₁ : World} {events : List Event}
    (hframe : Frame w.nextId w w₁ events) {result left right : Int}
    (hresult : 0 ≤ result → w.nextId ≤ result) (hleft : 0 ≤ left → w.nextId ≤ left)
    (hright : 0 ≤ right → w.nextId ≤ right) (hfailed : SelectFailed events) (hm : m ≤ nr)
    (hreads : reads events = List.range' first m)
    (hperm : (creates events).Perm
      (closes events ++ [result, left, right].filter fun id => 0 ≤ id)) :
    ∃ events', Recursed selectStart selectCount s first nr w (cleanup fails result left right w₁).1
      (cleanup fails result left right w₁).2 events' := by
  obtain ⟨hminus, e, hcleanup, hclosing⟩ :=
    cleanup_frame fails hframe.ok hresult hleft hright
  rw [hminus]
  refine ⟨events ++ e, hframe.trans hcleanup, fun h => absurd h (show ¬ (0 : Int) ≤ -1 by decide),
    fun h => absurd h (show ¬ (0 : Int) ≤ -1 by decide), fun _ => ⟨hfailed.left e, ⟨m, hm, ?_⟩, ?_⟩⟩
  · rw [reads_append, hclosing.reads, List.append_nil, hreads]
  · rw [creates_append, closes_append, hclosing.creates, hclosing.closes, List.append_nil]
    exact hperm

/-- A few entries are added one after the other. -/
theorem recursed_leaf {w : World} (hw : w.Ok) {file : Int} {s : Dataspace}
    (hs : w.spaces file = some s) {nr : Nat} (hnr : nr ≤ 8) (first : Nat) :
    ∃ events, Recursed selectStart selectCount s first nr w
      (selectSlicesRecursive fails selectStart selectCount file first nr w).1
      (selectSlicesRecursive fails selectStart selectCount file first nr w).2 events := by
  rw [selectSlicesRecursive, if_pos hnr]
  have htick := frame_tick hw w.nextId
  rcases h5Scopy_cases fails hs with hcopy | hcopy
  · rw [run_bind hcopy, if_pos (by decide)]
    exact recursed_cleanup fails (m := 0) (frame_failed hw w.nextId .copy)
      (fun h => absurd h (by decide))
      (fun h => absurd h (by decide)) (fun h => absurd h (by decide))
      ⟨.copy, rfl, List.mem_singleton.mpr rfl⟩ (Nat.zero_le _) rfl (List.Perm.refl [])
  have hcreate : Frame w.nextId w (w.tick.create s).2 ([] ++ [.created w.nextId]) :=
    htick.trans (frame_create htick.ok s)
  have hnonneg : ¬ w.nextId < 0 := by have := hw.nonneg; omega
  have hopen : (w.tick.create s).2.spaces w.nextId = some s := Function.update_self _ _ _
  have hfilter : [w.nextId, -1, -1].filter (fun id => 0 ≤ id) = [w.nextId] := by
    simp [hw.nonneg]
  rw [run_bind hcopy, if_neg hnonneg]
  rcases h5SselectNone_cases fails hopen with hnone | hnone
  · rw [run_bind hnone, if_pos (by decide)]
    refine recursed_cleanup fails (m := 0) (hcreate.trans (frame_failed hcreate.ok _ .selectNone))
      (fun _ => le_refl _) (fun h => absurd h (by decide)) (fun h => absurd h (by decide))
      ⟨.selectNone, rfl, List.mem_append_right _ (List.mem_singleton.mpr rfl)⟩
        (Nat.zero_le _) rfl ?_
    rw [hfilter]
    exact List.Perm.refl _
  have htick₂ := frame_tick hcreate.ok w.nextId
  have hempty := hcreate.trans (htick₂.trans (frame_set htick₂.ok (le_refl w.nextId)
    (htick₂.ok.lt_nextId hopen) (some { s with selection := ∅ })))
  rw [run_bind hnone, if_neg (Int.lt_irrefl 0)]
  obtain ⟨e, hentries⟩ := @selectEntries_entries fails selectStart selectCount _ hempty.ok _ _
    (Function.update_self w.nextId _ _) nr first
  generalize hrun : selectEntries fails selectStart selectCount w.nextId nr first
    ((w.tick.create s).2.tick.set w.nextId (some { s with selection := ∅ })) = out at hentries
  obtain ⟨err, w₂⟩ := out
  rw [run_bind hrun]
  have hall := hempty.trans hentries.frame
  by_cases herr : err < 0
  · obtain ⟨hfailed, m, hm, hreads⟩ := hentries.failed herr
    rw [if_pos herr]
    refine recursed_cleanup fails hall (fun _ => le_refl _) (fun h => absurd h (by decide))
      (fun h => absurd h (by decide)) (hfailed.right _) hm ?_ ?_
    · rw [reads_append, hreads]
      rfl
    · rw [hfilter, creates_append, closes_append, hentries.creates, hentries.closes]
      exact List.Perm.refl _
  · obtain ⟨_, hreads, hnone, hspace⟩ := hentries.selected (Int.not_lt.mp herr)
    rw [if_neg herr, run_pure]
    refine ⟨_, hall, fun _ => hentries.rank (Int.not_lt.mp herr), fun _ =>
      ⟨le_refl _, ?_, ?_, ?_, ?_⟩,
      fun h => absurd h hnonneg⟩
    · rw [reads_append, hreads]
      rfl
    · intro call hcall
      rcases List.mem_append.mp hcall with hcall | hcall
      · cases List.mem_singleton.mp hcall
      · exact absurd hcall (hnone call)
    · rw [creates_append, closes_append, hentries.creates, hentries.closes]
      exact List.Perm.refl _
    · rw [hspace, Finset.empty_union, hempty.slabs]

/-- **The two halves together**, and their dataspaces are closed. -/
theorem recursed_halves {s : Dataspace} {first nr : Nat} {w w₁ w₂ : World} {left right : Int}
    {e₁ e₂ : List Event} (hnr : 0 < nr)
    (hleft : Recursed selectStart selectCount s first (nr / 2) w left w₁ e₁) (hneg₁ : ¬ left < 0)
    (hright : Recursed selectStart selectCount s (first + nr / 2) (nr - nr / 2) w₁ right w₂ e₂)
    (hneg₂ : ¬ right < 0) {combine : StateM World Int}
    (hprogram : combine = do
      let result ← h5ScombineSelect fails left right
      if result < 0 then cleanup fails result left right
      else do
        discard (h5Sclose fails left)
        discard (h5Sclose fails right)
        return result) :
    ∃ events, Recursed selectStart selectCount s first nr w (combine w₂).1 (combine w₂).2
      events := by
  obtain ⟨hge₁, hreads₁, honly₁, hperm₁, hspace₁⟩ := hleft.selected (Int.not_lt.mp hneg₁)
  obtain ⟨hge₂, hreads₂, honly₂, hperm₂, hspace₂⟩ := hright.selected (Int.not_lt.mp hneg₂)
  have hlt₁ := hleft.frame.ok.lt_nextId hspace₁
  have hlt₂ := hright.frame.ok.lt_nextId hspace₂
  have hframe₂ := hleft.frame.trans (hright.frame.mono hleft.frame.nextId)
  have hreads : reads (e₁ ++ e₂) = List.range' first nr := by
    rw [reads_append, hreads₁, hreads₂, List.range'_append_1,
      Nat.add_sub_of_le (Nat.div_le_self _ _)]
  have hperm : (creates (e₁ ++ e₂)).Perm (closes (e₁ ++ e₂) ++ [left, right]) := by
    rw [creates_append, closes_append]
    refine List.perm_iff_count.mpr fun a => ?_
    have h₁ := hperm₁.count_eq a
    have h₂ := hperm₂.count_eq a
    have hsplit : [left, right] = [left] ++ [right] := rfl
    rw [hsplit]
    simp only [List.count_append] at h₁ h₂ ⊢
    omega
  rw [hprogram]
  have hspace₁' : w₂.spaces left = _ := (hright.frame.old left hlt₁).trans hspace₁
  rcases h5ScombineSelect_cases fails hspace₁' hspace₂ rfl with hcombine | hcombine
  · have hfilter : [-1, left, right].filter (fun id => 0 ≤ id) = [left, right] := by
      simp [Int.not_lt.mp hneg₁, Int.not_lt.mp hneg₂]
    rw [run_bind hcombine, if_pos (by decide)]
    refine recursed_cleanup fails (hframe₂.trans (frame_failed hright.frame.ok _ .combineSelect))
      (fun h => absurd h (by decide)) (fun _ => hge₁) (fun _ => hleft.frame.nextId.trans hge₂)
      ⟨.combineSelect, rfl, List.mem_append_right _ (List.mem_singleton.mpr rfl)⟩
        (le_refl nr) ?_ ?_
    · rw [reads_append, hreads]
      exact List.append_nil _
    · have hnil : creates [.failed .combineSelect] = [] ∧ closes [.failed .combineSelect] = [] :=
        ⟨rfl, rfl⟩
      rw [hfilter, creates_append, closes_append, hnil.1, hnil.2, List.append_nil,
        List.append_nil]
      exact hperm
  · have htick := frame_tick hright.frame.ok w₂.nextId
    generalize hboth : Dataspace.mk s.rank
      (slabs selectStart selectCount s.rank w first (nr / 2) ∪
      slabs selectStart selectCount s.rank w₁ (first + nr / 2) (nr - nr / 2)) = both at hcombine
    have hcreate := htick.trans (frame_create htick.ok both)
    have hnonneg : ¬ w₂.nextId < 0 := Int.not_lt.mpr hright.frame.ok.nonneg
    rw [run_bind hcombine, if_neg hnonneg, run_bind (run_discard _ _), run_bind (run_discard _ _),
      run_pure]
    obtain ⟨e₃, hclose₃, hclosing₃, hothers₃⟩ := h5Sclose_frame fails hcreate.ok hge₁
    obtain ⟨e₄, hclose₄, hclosing₄, hothers₄⟩ := h5Sclose_frame fails hclose₃.ok
      (hleft.frame.nextId.trans hge₂)
    have hall := hframe₂.trans
      ((hcreate.mono (hright.frame.nextId.trans' hleft.frame.nextId)).trans
      (hclose₃.trans hclose₄))
    have hclosing := hclosing₃.append hclosing₄
    have hrank : nr = 0 ∨ s.rank ≠ 0 :=
      .inr ((hright.rank (Int.not_lt.mp hneg₂)).resolve_left (by omega))
    refine ⟨_, hall, fun _ => hrank,
      fun _ => ⟨hleft.frame.nextId.trans hright.frame.nextId, ?_, ?_, ?_, ?_⟩,
      fun h => absurd h hnonneg⟩
    · rw [reads_append, hreads, reads_append, hclosing.reads]
      exact List.append_nil _
    · refine onlyClose_append (onlyClose_append honly₁ honly₂)
        (onlyClose_append ?_ hclosing.failed)
      exact fun call hcall => by cases List.mem_singleton.mp hcall
    · rw [creates_append (e₁ ++ e₂), creates_append ([] ++ _), closes_append (e₁ ++ e₂),
        closes_append ([] ++ _), hclosing.creates, hclosing.closes, List.append_nil]
      refine List.perm_iff_count.mpr fun a => ?_
      have h := hperm.count_eq a
      have hcreated : creates ([] ++ [.created w₂.tick.nextId]) = [w₂.nextId] := rfl
      have hclosed : closes ([] ++ [.created w₂.tick.nextId]) = [] := rfl
      rw [hcreated, hclosed]
      simp only [List.count_append, List.nil_append, List.singleton_append] at h ⊢
      omega
    · rw [hothers₄ _ (by omega), hothers₃ _ (by omega)]
      have hself : (w₂.tick.create both).2.spaces w₂.nextId = some both :=
        Function.update_self _ _ _
      rw [hself, ← hboth, hleft.frame.slabs, ← slabs_add, Nat.add_sub_of_le (Nat.div_le_self _ _)]

/-- **`select_slices_recursive`** on any range of entries. -/
theorem selectSlicesRecursive_recursed {w : World} (hw : w.Ok) {file : Int} {s : Dataspace}
    (hs : w.spaces file = some s) (first nr : Nat) :
    ∃ events, Recursed selectStart selectCount s first nr w
      (selectSlicesRecursive fails selectStart selectCount file first nr w).1
      (selectSlicesRecursive fails selectStart selectCount file first nr w).2 events := by
  induction nr using Nat.strong_induction_on generalizing w first with
  | _ nr ih =>
    by_cases hnr : nr ≤ 8
    · exact recursed_leaf fails hw hs hnr first
    rw [selectSlicesRecursive, if_neg hnr]
    -- the left half
    obtain ⟨e₁, hleft⟩ := ih (nr / 2) (by omega) hw hs first
    generalize hrun₁ : selectSlicesRecursive fails selectStart selectCount file first (nr / 2) w =
      out₁ at hleft
    obtain ⟨left, w₁⟩ := out₁
    dsimp only at hleft
    rw [run_bind hrun₁]
    by_cases hneg₁ : left < 0
    · obtain ⟨hfailed, ⟨m, hm, hreads⟩, hperm⟩ := hleft.failed hneg₁
      have hfilter : [-1, left, -1].filter (fun id => 0 ≤ id) = [] := by simp [hneg₁]
      rw [if_pos hneg₁]
      refine recursed_cleanup fails hleft.frame (fun h => absurd h (by decide))
        (fun h => absurd hneg₁ (Int.not_lt.mpr h)) (fun h => absurd h (by decide)) hfailed
        (by omega) hreads ?_
      rwa [hfilter, List.append_nil]
    obtain ⟨hge₁, hreads₁, honly₁, hperm₁, hspace₁⟩ := hleft.selected (Int.not_lt.mp hneg₁)
    have hlt₁ := hleft.frame.ok.lt_nextId hspace₁
    rw [if_neg hneg₁]
    -- the right half
    have hopen : w₁.spaces file = some s := (hleft.frame.old file (hw.lt_nextId hs)).trans hs
    obtain ⟨e₂, hright⟩ := ih (nr - nr / 2) (by omega) hleft.frame.ok hopen (first + nr / 2)
    generalize hrun₂ : selectSlicesRecursive fails selectStart selectCount file (first + nr / 2)
      (nr - nr / 2) w₁ = out₂ at hright
    obtain ⟨right, w₂⟩ := out₂
    dsimp only at hright
    rw [run_bind hrun₂]
    have hframe₂ := hleft.frame.trans (hright.frame.mono hleft.frame.nextId)
    by_cases hneg₂ : right < 0
    · obtain ⟨hfailed, ⟨m, hm, hreads⟩, hperm⟩ := hright.failed hneg₂
      have hfilter : [-1, left, right].filter (fun id => 0 ≤ id) = [left] := by
        simp [Int.not_lt.mp hneg₁, hneg₂]
      rw [if_pos hneg₂]
      refine recursed_cleanup fails hframe₂ (fun h => absurd h (by decide)) (fun _ => hge₁)
        (fun h => absurd hneg₂ (Int.not_lt.mpr h)) (hfailed.right e₁)
        (show nr / 2 + m ≤ nr by omega) ?_ ?_
      · rw [reads_append, hreads₁, hreads, List.range'_append_1]
      · rw [hfilter, creates_append, closes_append]
        refine List.perm_iff_count.mpr fun a => ?_
        have h₁ := hperm₁.count_eq a
        have h₂ := hperm.count_eq a
        simp only [List.count_append] at h₁ ⊢
        omega
    rw [if_neg hneg₂]
    exact recursed_halves fails (by omega) hleft hneg₁ hright hneg₂ rfl

end

/-! ## 6. Counting -/

section

variable {selectStart selectCount : Nat → UInt64}

theorem card_hyperslab_succ (rank : Nat) (start count : Nat → UInt64) :
    (hyperslab (rank + 1) start count).card =
      (count 0).toNat * (hyperslab rank (fun i => start (i + 1)) fun i => count (i + 1)).card := by
  rw [hyperslab, Finset.card_map, Finset.card_product, Finset.card_range]

/-- The product over the dimensions from `k` on. -/
theorem foldl_mul_count (rank : Nat) (start count : Nat → UInt64) (k : Nat) (n : UInt64) :
    (List.range' k rank).foldl (fun n i => n * count i) n =
      n * UInt64.ofNat (hyperslab rank start fun i => count (i + k)).card := by
  induction rank generalizing start k n with
  | zero =>
    have hone : (hyperslab 0 start fun i => count (i + k)).card = 1 := Finset.card_singleton _
    rw [hone]
    exact (UInt64.mul_one n).symm
  | succ rank ih =>
    rw [List.range'_succ, List.foldl_cons, ih (fun i => start (i + 1)) (k + 1), card_hyperslab_succ,
      UInt64.ofNat_mul, UInt64.ofNat_toNat, Nat.zero_add, ← UInt64.mul_assoc]
    refine congrArg (fun f => n * count k * UInt64.ofNat (hyperslab rank _ f).card) ?_
    funext i
    rw [Nat.add_right_comm, Nat.add_assoc]

/-- The sum over the entries. -/
theorem foldl_add_count (nr : Nat) :
    (List.range nr).foldl (fun n i => n + selectCount i) 0 =
      UInt64.ofNat (∑ i ∈ Finset.range nr, (selectCount i).toNat) := by
  induction nr with
  | zero => rfl
  | succ nr ih =>
    rw [List.range_succ, List.foldl_append, ih, Finset.sum_range_succ, UInt64.ofNat_add,
      UInt64.ofNat_toNat]
    rfl

/-- **What the check expects**: the number of points modulo 2^64, if no two entries share one. -/
theorem nrExpected_eq {rank nr : Nat} (hrank : nr = 0 ∨ rank ≠ 0) (w : World)
    (hdisjoint : ∀ i < nr, ∀ j < nr, i ≠ j →
      Disjoint (slab selectStart selectCount rank w i) (slab selectStart selectCount rank w j)) :
    nrExpected selectCount w.count nr rank =
      UInt64.ofNat (slabs selectStart selectCount rank w 0 nr).card := by
  rcases Nat.eq_zero_or_pos nr with rfl | hpos
  · have hzero : ∀ l : List Nat, l.foldl (fun n i => n * w.count i) 0 = 0 := fun l => by
      induction l with
      | nil => rfl
      | cons i l ih => rw [List.foldl_cons, UInt64.zero_mul, ih]
    rw [slabs_zero]
    exact hzero _
  obtain ⟨rank, rfl⟩ := Nat.exists_eq_succ_of_ne_zero (hrank.resolve_left (by omega))
  -- a slab is an interval times the same points in the other dimensions
  have hcard : ∀ i, (slab selectStart selectCount (rank + 1) w i).card = (selectCount i).toNat *
      (hyperslab rank (fun i => w.start (i + 1)) fun i => w.count (i + 1)).card := fun i => by
    rw [slab, card_hyperslab_succ]
    simp only [Function.update_self, Function.update_of_ne (Nat.succ_ne_zero _)]
  have hunion : (slabs selectStart selectCount (rank + 1) w 0 nr).card =
      ∑ i ∈ Finset.range nr, (slab selectStart selectCount (rank + 1) w i).card := by
    rw [slabs, Nat.zero_add, Nat.Ico_zero_eq_range]
    exact Finset.card_biUnion fun i hi j hj hne =>
      hdisjoint i (Finset.mem_range.mp hi) j (Finset.mem_range.mp hj) hne
  have hdims : (↑(rank + 1) : Int).toNat - 1 = rank := by omega
  rw [Nat.succ_eq_add_one, hunion, nrExpected, hdims,
    foldl_mul_count rank (fun i => w.start (i + 1)) w.count 1, foldl_add_count, ← UInt64.ofNat_mul,
    Finset.sum_mul]
  exact congrArg UInt64.ofNat (Finset.sum_congr rfl fun i _ => (hcard i).symm)

end

/-! ## 7. The whole -/

section

variable (fails : Nat → Bool) (selectStart selectCount : Nat → UInt64)

/-- `select_slices_direct`, if it succeeds. -/
theorem selectSlicesDirect_selection {w : World} (hw : w.Ok) {file : Int} {s : Dataspace}
    (hs : w.spaces file = some s) (nr : Nat)
    (h : 0 ≤ (selectSlicesDirect fails selectStart selectCount file nr w).1) :
    (selectSlicesDirect fails selectStart selectCount file nr w).2.spaces file =
      some { s with selection := slabs selectStart selectCount s.rank w 0 nr } := by
  rw [selectSlicesDirect] at h ⊢
  rcases h5SselectNone_cases fails hs with hnone | hnone
  · rw [run_bind hnone, if_pos (by decide), run_pure] at h
    exact absurd h (show ¬ (0 : Int) ≤ -1 by decide)
  · rw [run_bind hnone, if_neg (Int.lt_irrefl 0)] at h ⊢
    have htick := frame_tick hw file
    have hempty := htick.trans (frame_set htick.ok (le_refl file) (htick.ok.lt_nextId hs)
      (some { s with selection := ∅ }))
    obtain ⟨e, hentries⟩ := @selectEntries_entries fails selectStart selectCount _ hempty.ok _ _
      (Function.update_self file _ _) nr 0
    obtain ⟨_, _, _, hspace⟩ := hentries.selected h
    rw [hspace, Finset.empty_union, hempty.slabs]

/-- What `select_slices` does. -/
structure Selects (selectStart selectCount : Nat → UInt64) (file : Int) (s : Dataspace) (nr : Nat)
    (w : World) (err : Int) (w' : World) (events : List Event) : Prop where
  log : w'.log = w.log ++ events
  /-- Every entry is read once. -/
  reads : ∃ m, m ≤ nr ∧ reads events = List.range m ∧ (¬ SelectFailed events → m = nr)
  /-- Every dataspace that is made is closed. -/
  closed : (creates events).Perm (closes events)
  others : ∀ id, id < w.nextId → id ≠ file → w'.spaces id = w.spaces id
  /-- The selection of `select_slices_direct`. -/
  selected : ¬ SelectFailed events → ∀ fails,
    0 ≤ (selectSlicesDirect fails selectStart selectCount file nr w).1 →
      w'.spaces file = (selectSlicesDirect fails selectStart selectCount file nr w).2.spaces file
  failed : SelectFailed events → err < 0
  uncounted : .failed .getSelectNpoints ∈ events →
    (∀ rank, (nrExpected selectCount w.count nr rank).toInt64.toInt ≠ -1) → err < 0
  /-- The check passes. -/
  counted : OnlyClose events → (∀ i < nr, ∀ j < nr, i ≠ j →
    Disjoint (slab selectStart selectCount s.rank w i) (slab selectStart selectCount s.rank w j)) →
    err = 0

theorem nrExpected_congr {count count' : Nat → UInt64} (h : ∀ i, i ≠ 0 → count' i = count i)
    (nr : Nat) (rank : Int) :
    nrExpected selectCount count' nr rank = nrExpected selectCount count nr rank := by
  have hfold : ∀ (l : List Nat) (n : UInt64), (∀ i ∈ l, i ≠ 0) →
      l.foldl (fun n i => n * count' i) n = l.foldl (fun n i => n * count i) n := by
    intro l
    induction l with
    | nil => exact fun _ _ => rfl
    | cons i l ih =>
      intro n hl
      rw [List.foldl_cons, List.foldl_cons, h i (hl i List.mem_cons_self)]
      exact ih _ fun j hj => hl j (List.mem_cons_of_mem _ hj)
  refine hfold _ _ fun i hi => ?_
  have := List.left_le_of_mem_range' hi
  omega

/-- What the check does. -/
structure Checked (selectCount : Nat → UInt64) (s : Dataspace) (nr : Nat) (err : Int) (w : World)
    (result : Int) (w' : World) (events : List Event) : Prop where
  log : w'.log = w.log ++ events
  spaces : w'.spaces = w.spaces
  quiet : reads events = [] ∧ creates events = [] ∧ closes events = []
  calls : ∀ call, .failed call ∈ events → call = .getSelectNpoints ∨ call = .getSimpleExtentNdims
  returned : result = -1 ∨ result = err
  uncounted : .failed .getSelectNpoints ∈ events →
    (∀ rank, (nrExpected selectCount w.count nr rank).toInt64.toInt ≠ -1) → result = -1
  passes : (∀ call, .failed call ∉ events) → nrExpected selectCount w.count nr s.rank = UInt64.ofNat
    s.selection.card →
    result = err

theorem checkCount_checked {w : World} {file : Int} {s : Dataspace} (hs : w.spaces file = some s)
    (nr : Nat) (err : Int) :
    ∃ events, Checked selectCount s nr err w (checkCount fails selectCount file nr err w).1
      (checkCount fails selectCount file nr err w).2 events := by
  have hnpoints : h5SgetSelectNpoints fails file w =
    (-1, w.tick.record (.failed .getSelectNpoints)) ∨
      h5SgetSelectNpoints fails file w = ((UInt64.ofNat s.selection.card).toInt64.toInt, w.tick) :=
    h5_cases fails (congrArg (Option.map fun s : Dataspace =>
      ((UInt64.ofNat s.selection.card).toInt64.toInt, w.tick)) hs)
  have hndims : ∀ w₁ : World, w₁.spaces = w.spaces →
      h5SgetSimpleExtentNdims fails file w₁ = (-1, w₁.tick.record (.failed .getSimpleExtentNdims)) ∨
      h5SgetSimpleExtentNdims fails file w₁ = ((s.rank : Int), w₁.tick) := fun w₁ hspaces =>
    h5_cases fails (congrArg (Option.map fun s : Dataspace => ((s.rank : Int), w₁.tick))
      ((congrFun hspaces file).trans hs))
  have hget : ∀ w₁ : World, (get : StateM World World) w₁ = (w₁, w₁) := fun _ => rfl
  have hite : ∀ (c : Prop) [Decidable c] (w₁ : World),
      (if c then pure (-1) else pure err : StateM World Int) w₁ = (if c then -1 else err, w₁) := by
    intro c _ w₁
    split <;> rfl
  have hor : ∀ (c : Prop) [Decidable c], (if c then (-1 : Int) else err) = -1 ∨
      (if c then (-1 : Int) else err) = err := by
    intro c _
    by_cases hc : c
    · exact .inl (if_pos hc)
    · exact .inr (if_neg hc)
  rw [checkCount]
  rcases hnpoints with hn | hn
  · rcases hndims (w.tick.record (.failed .getSelectNpoints)) rfl with hd | hd
    · rw [run_bind hn, run_bind hd, run_bind (hget _), hite]
      refine ⟨[.failed .getSelectNpoints, .failed .getSimpleExtentNdims], ?_, rfl, ⟨rfl, rfl, rfl⟩,
        ?_,
        hor _, fun _ h => if_pos (h _), fun h => absurd List.mem_cons_self (h .getSelectNpoints)⟩
      · exact List.append_assoc _ _ _
      · intro call hcall
        rcases List.mem_cons.mp hcall with hcall | hcall
        · exact .inl (Event.failed.inj hcall)
        · exact .inr (Event.failed.inj (List.mem_singleton.mp hcall))
    · rw [run_bind hn, run_bind hd, run_bind (hget _), hite]
      refine ⟨[.failed .getSelectNpoints], rfl, rfl, ⟨rfl, rfl, rfl⟩, fun call hcall => ?_, hor _,
        fun _ h => if_pos (h _), fun h => absurd List.mem_cons_self (h .getSelectNpoints)⟩
      exact .inl (Event.failed.inj (List.mem_singleton.mp hcall))
  · rcases hndims w.tick rfl with hd | hd
    · rw [run_bind hn, run_bind hd, run_bind (hget _), hite]
      refine ⟨[.failed .getSimpleExtentNdims], rfl, rfl, ⟨rfl, rfl, rfl⟩, fun call hcall =>
        ?_, hor _,
        fun hcall => ?_, fun h => absurd List.mem_cons_self (h .getSimpleExtentNdims)⟩
      · exact .inr (Event.failed.inj (List.mem_singleton.mp hcall))
      · cases List.mem_singleton.mp hcall
    · rw [run_bind hn, run_bind hd, run_bind (hget _), hite]
      refine ⟨[], (List.append_nil _).symm, rfl, ⟨rfl, rfl, rfl⟩,
        fun _ hcall => absurd hcall List.not_mem_nil, hor _,
        fun hcall => absurd hcall List.not_mem_nil, fun _ heq => if_neg ?_⟩
      exact not_not.mpr (congrArg (fun n => n.toInt64.toInt) heq)

theorem onlyClose_not_selectFailed {events : List Event} (h : OnlyClose events) :
    ¬ SelectFailed events := by
  rintro ⟨call, hselects, hcall⟩
  rw [h call hcall] at hselects
  cases hselects

/-- The selection is copied into the dataspace of the file, and the dataspace it was made in is
closed. -/
structure Copied (file dspace : Int) (s d : Dataspace) (w : World) (err : Int) (w' : World)
    (events : List Event) : Prop where
  log : w'.log = w.log ++ events
  quiet : reads events = [] ∧ creates events = [] ∧ closes events = [dspace]
  others : ∀ id, id ≠ file → id ≠ dspace → w'.spaces id = w.spaces id
  count : ∀ i, i ≠ 0 → w'.count i = w.count i
  calls : ∀ call, .failed call ∈ events → call = .selectCopy ∨ call = .close
  copied : err = 0 ∧ OnlyClose events ∧ w'.spaces file = some { s with selection := d.selection } ∨
    err = -1 ∧ SelectFailed events ∧ w'.spaces file = some s

theorem selectCopy_copied {w : World} (hw : w.Ok) {file dspace : Int} {s d : Dataspace}
    (hs : w.spaces file = some s) (hd : w.spaces dspace = some d) (hrank : s.rank = d.rank)
    (hne : file ≠ dspace) :
    ∃ err w₁ events, h5SselectCopy fails file dspace w = (err, w₁) ∧
      Copied file dspace s d w err (h5Sclose fails dspace w₁).2 events := by
  have hbase : min file dspace ≤ dspace := min_le_right _ _
  rcases h5SselectCopy_cases fails hs hd hrank with hcopy | hcopy
  · have hfailed := frame_failed hw (min file dspace) .selectCopy
    obtain ⟨e, hclose, hclosing, hothers⟩ := h5Sclose_frame fails hfailed.ok hbase
    refine ⟨_, _, [.failed .selectCopy] ++ e, hcopy, (hfailed.trans hclose).log, ⟨?_, ?_, ?_⟩,
      fun id _ hid => hothers id hid, (hfailed.trans hclose).count, fun call hcall => ?_,
      .inr ⟨rfl, ⟨.selectCopy, rfl, List.mem_append_left _ (List.mem_singleton.mpr rfl)⟩, ?_⟩⟩
    · rw [reads_append, hclosing.reads]
      rfl
    · rw [creates_append, hclosing.creates]
      rfl
    · rw [closes_append, hclosing.closes]
      rfl
    · rcases List.mem_append.mp hcall with hcall | hcall
      · exact .inl (Event.failed.inj (List.mem_singleton.mp hcall))
      · exact .inr (hclosing.failed call hcall)
    · exact (hothers file hne).trans hs
  · have htick := frame_tick hw (min file dspace)
    have hset := htick.trans (frame_set htick.ok (min_le_left file dspace) (htick.ok.lt_nextId hs)
      (some { s with selection := d.selection }))
    obtain ⟨e, hclose, hclosing, hothers⟩ := h5Sclose_frame fails hset.ok hbase
    refine ⟨_, _, [] ++ [] ++ e, hcopy, (hset.trans hclose).log,
      ⟨hclosing.reads, hclosing.creates, hclosing.closes⟩, fun id hfile hid => ?_,
      (hset.trans hclose).count, fun call hcall => .inr (hclosing.failed call hcall),
        .inl ⟨rfl, hclosing.failed, ?_⟩⟩
    · exact (hothers id hid).trans (Function.update_of_ne hfile _ _)
    · exact (hothers file hne).trans (Function.update_self file _ _)

/-- The halves could not be selected. -/
theorem Recursed.selects {w w₁ : World} {file : Int} {s : Dataspace} {nr : Nat} {dspace : Int}
    {e₁ : List Event} (hrec : Recursed selectStart selectCount s 0 nr w dspace w₁ e₁)
    (hneg : dspace < 0) : Selects selectStart selectCount file s nr w (-1) w₁ e₁ := by
  obtain ⟨hfailed, ⟨m, hm, hreads⟩, hperm⟩ := hrec.failed hneg
  have hminus : (-1 : Int) < 0 := by decide
  refine ⟨hrec.frame.log, ⟨m, hm, ?_, fun h => absurd hfailed h⟩, hperm,
    fun id hid _ => hrec.frame.old id hid, fun h => absurd hfailed h, fun _ => hminus,
    fun _ _ => hminus, fun h => absurd hfailed (onlyClose_not_selectFailed h)⟩
  rw [hreads, List.range_eq_range']

/-- The log up to the check has no other failures than these. -/
theorem failed_before_check {e₁ e₂ : List Event} {file dspace : Int} {s d : Dataspace}
    {w₁ w₃ : World} {err : Int} (honly : OnlyClose e₁)
    (hcopied : Copied file dspace s d w₁ err w₃ e₂) {call : Call}
    (hcall : .failed call ∈ e₁ ++ e₂) : call = .selectCopy ∨ call = .close := by
  rcases List.mem_append.mp hcall with hcall | hcall
  · exact .inr (honly call hcall)
  · exact hcopied.calls call hcall

/-- The result is 0 if no call that matters has failed. -/
theorem Copied.err_eq_zero {e₁ e₂ : List Event} {file dspace : Int} {s d : Dataspace}
    {w₁ w₃ : World} {err : Int} (hcopied : Copied file dspace s d w₁ err w₃ e₂)
    (h : OnlyClose (e₁ ++ e₂)) : err = 0 := by
  rcases hcopied.copied with ⟨hzero, _⟩ | ⟨_, hfailed, _⟩
  · exact hzero
  · exact absurd (hfailed.right e₁) (onlyClose_not_selectFailed h)

/-- **Up to the check**, the selection is that of `select_slices_direct`. -/
theorem selects_copied {w w₁ w₃ : World} (hw : w.Ok) {file : Int} {s : Dataspace}
    (hs : w.spaces file = some s) {nr : Nat} {dspace err : Int} {e₁ e₂ : List Event}
    (hrec : Recursed selectStart selectCount s 0 nr w dspace w₁ e₁) (hneg : ¬ dspace < 0)
    (hcopied : Copied file dspace s
      { s with selection := slabs selectStart selectCount s.rank w 0 nr } w₁ err w₃ e₂) :
    Selects selectStart selectCount file s nr w err w₃ (e₁ ++ e₂) := by
  obtain ⟨hge, hreads, honly, hperm, -⟩ := hrec.selected (Int.not_lt.mp hneg)
  refine ⟨?_, ⟨nr, le_refl nr, ?_, fun _ => rfl⟩, ?_, ?_, ?_, ?_, ?_,
    fun h _ => hcopied.err_eq_zero h⟩
  · rw [hcopied.log, hrec.frame.log, List.append_assoc]
  · rw [reads_append, hcopied.quiet.1, List.append_nil, hreads, List.range_eq_range']
  · rw [creates_append, closes_append, hcopied.quiet.2.1, hcopied.quiet.2.2, List.append_nil]
    exact hperm
  · intro id hid hid'
    exact (hcopied.others id hid' (by omega)).trans (hrec.frame.old id hid)
  · intro hnot fails' hdirect
    rw [selectSlicesDirect_selection fails' selectStart selectCount hw hs nr hdirect]
    rcases hcopied.copied with ⟨_, _, hspace₃⟩ | ⟨_, hfailed, _⟩
    · exact hspace₃
    · exact absurd (hfailed.right e₁) hnot
  · rintro ⟨call, hselects, hcall⟩
    rcases hcopied.copied with ⟨_, honly₂, _⟩ | ⟨herr, _⟩
    · exact absurd ⟨call, hselects, hcall⟩
        (onlyClose_not_selectFailed (onlyClose_append honly honly₂))
    · omega
  · intro h
    rcases failed_before_check honly hcopied h with hcall | hcall <;> cases hcall

/-- **The check** leaves the selection as it is, and passes if the entries are disjoint. -/
theorem selects_checked {w w₁ w₃ w' : World} {file : Int} {s s₃ : Dataspace} {nr : Nat}
    {dspace err result : Int} {e₁ e₂ e₃ : List Event}
    (hrec : Recursed selectStart selectCount s 0 nr w dspace w₁ e₁) (hneg : ¬ dspace < 0)
    (hcopied : Copied file dspace s
      { s with selection := slabs selectStart selectCount s.rank w 0 nr } w₁ err w₃ e₂)
    (h : Selects selectStart selectCount file s nr w err w₃ (e₁ ++ e₂))
    (hopen : w₃.spaces file = some s₃) (hrank : s₃.rank = s.rank)
    (hchecked : Checked selectCount s₃ nr err w₃ result w' e₃) :
    Selects selectStart selectCount file s nr w result w' (e₁ ++ e₂ ++ e₃) := by
  obtain ⟨-, -, honly, -, -⟩ := hrec.selected (Int.not_lt.mp hneg)
  have hcount : ∀ rank, nrExpected selectCount w₃.count nr rank =
      nrExpected selectCount w.count nr rank := fun rank =>
    nrExpected_congr selectCount
      (fun i hi => (hcopied.count i hi).trans (hrec.frame.count i hi)) nr rank
  obtain ⟨m, hm, hreads, hall⟩ := h.reads
  refine ⟨?_, ⟨m, hm, ?_, fun hnot => hall fun hf => hnot (hf.left e₃)⟩, ?_,
    fun id hid hid' => ?_, fun hnot fails' hdirect => ?_, fun hf => ?_, fun hf hwide => ?_,
    fun hclose hdisjoint => ?_⟩
  · rw [hchecked.log, h.log, List.append_assoc]
  · rw [reads_append, hreads, hchecked.quiet.1, List.append_nil]
  · rw [creates_append, closes_append, hchecked.quiet.2.1, hchecked.quiet.2.2, List.append_nil,
      List.append_nil]
    exact h.closed
  · rw [hchecked.spaces]
    exact h.others id hid hid'
  · rw [hchecked.spaces]
    exact h.selected (fun hf => hnot (hf.left e₃)) fails' hdirect
  · -- the calls of the check select nothing
    have hbefore : SelectFailed (e₁ ++ e₂) := by
      obtain ⟨call, hselects, hcall⟩ := hf
      rcases List.mem_append.mp hcall with hcall | hcall
      · exact ⟨call, hselects, hcall⟩
      · rcases hchecked.calls call hcall with rfl | rfl <;> cases hselects
    have hnegative := h.failed hbefore
    rcases hchecked.returned with hreturned | hreturned <;> omega
  · rcases List.mem_append.mp hf with hf | hf
    · rcases failed_before_check honly hcopied hf with hcall | hcall <;> cases hcall
    · rw [hchecked.uncounted hf fun rank => by rw [hcount]; exact hwide rank]
      decide
  · have honly' : OnlyClose (e₁ ++ e₂) := fun call hcall =>
      hclose call (List.mem_append_left _ hcall)
    have hnone : ∀ call, .failed call ∉ e₃ := fun call hcall => by
      have hclose := hclose call (List.mem_append_right _ hcall)
      rcases hchecked.calls call hcall with hcall' | hcall' <;> cases hcall'.symm.trans hclose
    have hspace₃ : s₃.selection = slabs selectStart selectCount s.rank w 0 nr := by
      rcases hcopied.copied with ⟨_, _, hspace₃⟩ | ⟨_, hfailed, _⟩
      · rw [hopen] at hspace₃
        rw [Option.some.inj hspace₃]
      · exact absurd (hfailed.right e₁) (onlyClose_not_selectFailed honly')
    rw [← hcopied.err_eq_zero honly']
    refine hchecked.passes hnone ?_
    rw [hcount, hspace₃, hrank]
    exact nrExpected_eq (hrec.rank (Int.not_lt.mp hneg)) w hdisjoint

/-- **`select_slices`.**  Every entry is read once, every dataspace that is made is closed, and the
selection is that of `select_slices_direct`, unless a call that makes a dataspace or changes a
selection has failed; then the result is negative.  The check in debug mode passes if no two entries
share a point. -/
theorem selectSlices_spec (debug : Bool) {w : World} (hw : w.Ok) {file : Int} {s : Dataspace}
    (hs : w.spaces file = some s) (nr : Nat) :
    ∃ events, Selects selectStart selectCount file s nr w
      (selectSlices fails selectStart selectCount debug file nr w).1
      (selectSlices fails selectStart selectCount debug file nr w).2 events := by
  obtain ⟨e₁, hrec⟩ := @selectSlicesRecursive_recursed fails selectStart selectCount w hw file
    s hs 0 nr
  generalize hrun₁ : selectSlicesRecursive fails selectStart selectCount file 0 nr w = out₁ at hrec
  obtain ⟨dspace, w₁⟩ := out₁
  dsimp only at hrec
  have hfile := hw.lt_nextId hs
  rw [selectSlices, run_bind hrun₁]
  by_cases hneg : dspace < 0
  · rw [if_pos hneg, run_pure]
    exact ⟨e₁, hrec.selects selectStart selectCount hneg⟩
  obtain ⟨hge, -, -, -, hspace⟩ := hrec.selected (Int.not_lt.mp hneg)
  rw [if_neg hneg]
  have hopen : w₁.spaces file = some s := (hrec.frame.old file hfile).trans hs
  have hne : file ≠ dspace := by omega
  obtain ⟨err, w₂, e₂, hcopy, hcopied⟩ := selectCopy_copied fails hrec.frame.ok hopen hspace rfl hne
  rw [run_bind hcopy, run_bind (run_discard _ _)]
  generalize (h5Sclose fails dspace w₂).2 = w₃ at hcopied
  have hselects := selects_copied selectStart selectCount hw hs hrec hneg hcopied
  cases debug with
  | false =>
    rw [if_neg Bool.false_ne_true, run_pure]
    exact ⟨e₁ ++ e₂, hselects⟩
  | true =>
    rw [if_pos rfl]
    obtain ⟨s₃, hopen₃, hrank₃⟩ : ∃ s₃, w₃.spaces file = some s₃ ∧ s₃.rank = s.rank := by
      rcases hcopied.copied with ⟨_, _, hspace₃⟩ | ⟨_, _, hspace₃⟩
      · exact ⟨_, hspace₃, rfl⟩
      · exact ⟨_, hspace₃, rfl⟩
    obtain ⟨e₃, hchecked⟩ := checkCount_checked fails selectCount hopen₃ nr err
    exact ⟨e₁ ++ e₂ ++ e₃, selects_checked selectStart selectCount hrec hneg hcopied hselects hopen₃
      hrank₃ hchecked⟩

end

/-- A dataspace with one dimension. -/
def oneSpace : World where
  calls := 0
  nextId := 1
  spaces := fun id => if id = 0 then some ⟨1, ∅⟩ else none
  start := fun _ => 0
  count := fun _ => 0
  log := []

/-- Twenty intervals of two points, with the check. -/
theorem selectSlices_spec_row :
    ∃ events, Selects (fun i => UInt64.ofNat (3 * i)) (fun _ => 2) 0 ⟨1, ∅⟩ 20 oneSpace
      (selectSlices (fun _ => false) (fun i => UInt64.ofNat (3 * i)) (fun _ => 2) true 0 20
        oneSpace).1
      (selectSlices (fun _ => false) (fun i => UInt64.ofNat (3 * i)) (fun _ => 2) true 0 20
        oneSpace).2
      events := by
  have hok : oneSpace.Ok := ⟨by decide, fun id hid => if_neg fun h => by
    rw [h] at hid
    exact absurd hid (by decide)⟩
  exact selectSlices_spec (fun _ => false) (fun i => UInt64.ofNat (3 * i)) (fun _ => 2) true hok
    (if_pos rfl) 20

/-- `H5Sget_simple_extent_ndims` fails, and `select_slices` returns 0. -/
theorem ndims_failure_ignored :
    (selectSlices (fun n => n == 6) (fun _ => 0) (fun _ => 2) true 0 1 oneSpace).1 = 0 ∧
      Event.failed .getSimpleExtentNdims ∈
        (selectSlices (fun n => n == 6) (fun _ => 0) (fun _ => 2) true 0 1 oneSpace).2.log := by
  rw [selectSlices, selectSlicesRecursive, if_pos (by decide)]
  decide +kernel

end HdfStream.Select
