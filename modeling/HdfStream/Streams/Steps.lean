/-
# One step keeps the invariant

One lemma for each way a reference is acquired, handed on or released, one for `free`, and from
them `Inv.exec` for every careful step.
-/
import HdfStream.Streams.Invariant

namespace HdfStream.Streams

open Counting

variable {n : Nat} {s s' : State} {t : Nat} {pc : ThreadPc}

/-! ## 1. References -/

theorem start_inv (n : Nat) : Inv n start where
  streams :=
    { inRange := fun t d _ hd => by cases hd
      reading := fun t d _ hd => by cases hd
      marking := fun t d _ hd => by cases hd
      alone := fun t t' d _ _ hd => by cases hd
      closing := fun t d _ hd => by cases hd
      closer := fun t t' d _ _ hd => by cases hd
      opened := fun d _ => rfl
      released := fun d hd => by cases hd }
  count := by
    have hcalls : nrCalls n start.thread = 0 :=
      Nat.count_iff_forall_not.mpr fun t _ hholds => by cases hholds
    rw [hcalls]
    rfl
  quiet hfreed := by cases hfreed
  stopping := rfl
  allocated := rfl
  ptr _ := rfl
  noThrow hthrown := by cases hthrown
  fault := rfl
  failedRelease := rfl

/-- A thread moves and keeps what it has. -/
theorem Inv.setThread (h : Inv n s) (ht : t < n)
    (hstream : ∀ d, pc.stream? = some d → d < s.nrStreams) (hreading : pc.reading? = none)
    (hmarking : pc.marking? = none) (hclosing : pc.closing? = (s.thread t).closing?)
    (hholds : pc.holds = (s.thread t).holds) : Inv n (s.setThread t pc) where
  streams := h.streams.move hstream hreading hmarking hclosing
  count := by
    simp only [State.setThread, nrCalls_same ht hholds]
    exact h.count
  quiet hfreed := by
    simp only [State.setThread, nrCalls_same ht hholds]
    exact h.quiet hfreed
  stopping := h.stopping
  allocated := h.allocated
  ptr := h.ptr
  noThrow := h.noThrow
  fault := h.fault
  failedRelease := h.failedRelease

/-- The library is not freed while a call has a reference. -/
theorem Inv.not_freed_of_call (h : Inv n s) (ht : t < n) (hholds : (s.thread t).holds = true) :
    s.free.freed = false := by
  rw [Bool.eq_false_iff]
  intro hfreed
  have hpos := nrCalls_pos ht hholds
  have := (h.quiet hfreed).2
  omega

/-- The library is not freed while a stream has a reference. -/
theorem Inv.not_freed_of_open (h : Inv n s) {d : Nat} (hd : d < s.nrStreams)
    (hzero : (s.stream d).releases = 0) : s.free.freed = false := by
  rw [Bool.eq_false_iff]
  intro hfreed
  have hpos := nrOpen_pos hd hzero
  have := (h.quiet hfreed).1
  omega

/-- A native call may start while the library is not freed. -/
theorem Inv.useLibrary (h : Inv n s) (hfreed : s.free.freed = false) : s.useLibrary = s := by
  have hallocated := h.allocated
  rw [hfreed] at hallocated
  have hfault : (s.fault || !s.allocated) = s.fault := by
    rw [hallocated, Bool.not_false, Bool.not_true, Bool.or_false]
  rw [State.useLibrary, hfault]

theorem FreePc.released_of_not_freed {pc : FreePc} (h : pc.freed = false) :
    pc.released = false := by
  cases pc <;> first | rfl | cases h

theorem FreePc.freed_of_released {pc : FreePc} (h : pc.released = true) : pc.freed = true := by
  cases pc <;> first | rfl | cases h

theorem FreePc.freed_of_not_stopped {pc : FreePc} (h : pc.stopped = false) :
    pc.freed = false := by
  cases pc <;> first | rfl | cases h

/-- A method that holds a reference is called. -/
theorem Inv.call (h : Inv n s) (ht : t < n) {m : Method} {lib : HDFStream}
    (hpc : s.thread t = .outside) (hlib : acquireReference s.lib = some lib)
    (hcount : s.lib.refCount + 1 < 2 ^ 31) :
    Inv n ({ s with lib := lib }.setThread t (.checking m)) := by
  unfold acquireReference at hlib
  split at hlib
  · cases hlib
  rename_i hopen
  rw [not_or, Bool.not_eq_true] at hopen
  cases hlib
  have hstopped : s.free.stopped = false := h.stopping.symm.trans hopen.2
  have hfreed := FreePc.freed_of_not_stopped hstopped
  have hreleased := FreePc.released_of_not_freed hfreed
  have hold := h.count
  rw [hreleased] at hold
  refine ⟨h.streams.move (fun d hd => by cases hd) rfl rfl (by rw [hpc]; rfl), ?_, ?_, h.stopping,
    h.allocated, h.ptr, h.noThrow, h.fault, h.failedRelease⟩
  · have hwrap : toInt32 (s.lib.refCount + 1) = s.lib.refCount + 1 :=
      Int.bmod_eq_of_le_mul_two (by omega) (by omega)
    simp only [State.setThread, hwrap, hreleased,
      nrCalls_gain ht (show (s.thread t).holds = false by rw [hpc]; rfl)
        (show (ThreadPc.checking m).holds = true from rfl)]
    push_cast
    simp only [Bool.false_eq_true, if_false] at hold ⊢
    omega
  · intro hfreed'
    rw [State.setThread, hfreed] at hfreed'
    cases hfreed'

/-- A call or a stream releases its reference. -/
theorem Inv.release_eq (h : Inv n s) (hfreed : s.free.freed = false)
    (hpos : 0 < nrOpen s.nrStreams s.stream + nrCalls n s.thread) (done : State → State) :
    Streams.release s done =
      done { s with lib := { s.lib with refCount := s.lib.refCount - 1 } } := by
  have hcount := h.count
  rw [FreePc.released_of_not_freed hfreed] at hcount
  simp only [Bool.false_eq_true, if_false] at hcount
  rw [Streams.release, releaseReference, if_neg (by omega)]

/-- A call ends with `releaseReference`. -/
theorem Inv.release (h : Inv n s) (ht : t < n) (hpc : s.thread t = .releasing) :
    Inv n ((release s id).setThread t .outside) := by
  have hholds : (s.thread t).holds = true := by rw [hpc]; rfl
  have hfreed := h.not_freed_of_call ht hholds
  have hpos := nrCalls_pos ht hholds
  have hlose := nrCalls_lose .outside ht hholds rfl
  have hcount := h.count
  rw [h.release_eq hfreed (by omega)]
  refine ⟨h.streams.move (fun d hd => by cases hd) rfl rfl (by rw [hpc]; rfl), ?_, ?_, h.stopping,
    h.allocated, h.ptr, h.noThrow, h.fault, h.failedRelease⟩
  · show s.lib.refCount - 1 + (if s.free.released then 1 else 0) =
      1 + nrOpen s.nrStreams s.stream + nrCalls n (Function.update s.thread t .outside)
    omega
  · intro hfreed'
    exact absurd (hfreed'.symm.trans hfreed) (by decide)

/-- The reference of a call goes to the new stream. -/
theorem Inv.newStream (h : Inv n s) (ht : t < n) (hpc : s.thread t = .native .openStream) :
    Inv n (({ s with nrStreams := s.nrStreams + 1 }.setStream s.nrStreams .new).setThread t
      .outside) := by
  have hholds : (s.thread t).holds = true := by rw [hpc]; rfl
  have hfreed := h.not_freed_of_call ht hholds
  have hlose := nrCalls_lose .outside ht hholds rfl
  have hcount := h.count
  refine ⟨(h.streams.newStream rfl rfl).move (fun d hd => by cases hd) rfl rfl (by rw [hpc]; rfl),
    ?_, ?_, h.stopping, h.allocated, h.ptr, h.noThrow, h.fault, h.failedRelease⟩
  · have hnew : nrOpen (s.nrStreams + 1) (Function.update s.stream s.nrStreams .new) =
        nrOpen s.nrStreams s.stream + 1 := nrOpen_new rfl
    show s.lib.refCount + (if s.free.released then 1 else 0) =
      1 + nrOpen (s.nrStreams + 1) (Function.update s.stream s.nrStreams .new) +
        nrCalls n (Function.update s.thread t .outside)
    omega
  · intro hfreed'
    exact absurd (hfreed'.symm.trans hfreed) (by decide)

/-- A thread starts to read a stream. -/
theorem Inv.startRead (h : Inv n s) (ht : t < n) {d : Nat} (hpc : s.thread t = .readClosed d)
    (hopen : (s.stream d).closed = false) (hmark : Unmarked n s d) :
    Inv n (s.setThread t (.readChunk d)) := by
  have hcalls : nrCalls n (Function.update s.thread t (.readChunk d)) = nrCalls n s.thread :=
    nrCalls_same ht (by rw [hpc]; rfl)
  refine ⟨h.streams.startRead ht hpc hopen hmark, ?_, ?_, h.stopping, h.allocated, h.ptr,
    h.noThrow, h.fault, h.failedRelease⟩
  · simp only [State.setThread, hcalls]
    exact h.count
  · simp only [State.setThread, hcalls]
    exact h.quiet

/-- A thread is about to close a stream. -/
theorem Inv.startClose (h : Inv n s) (ht : t < n) {d : Nat} (hpc : s.thread t = .checkClosed d)
    (hopen : (s.stream d).closed = false) (hmark : Unmarked n s d) (hread : Unread n s d) :
    Inv n (s.setThread t (.markClosed d)) := by
  have hcalls : nrCalls n (Function.update s.thread t (.markClosed d)) = nrCalls n s.thread :=
    nrCalls_same ht (by rw [hpc]; rfl)
  refine ⟨h.streams.startClose ht hpc hopen hmark hread, ?_, ?_, h.stopping, h.allocated, h.ptr,
    h.noThrow, h.fault, h.failedRelease⟩
  · simp only [State.setThread, hcalls]
    exact h.count
  · simp only [State.setThread, hcalls]
    exact h.quiet

/-- The end of a stream is noted. -/
theorem Inv.markEnd (h : Inv n s) {d : Nat} (hd : d < s.nrStreams) :
    Inv n (s.setStream d (s.stream d).markEnd) := by
  have hstreams : nrOpen s.nrStreams (Function.update s.stream d (s.stream d).markEnd) =
      nrOpen s.nrStreams s.stream := nrOpen_same hd rfl
  refine ⟨h.streams.setStream rfl rfl, ?_, ?_, h.stopping, h.allocated, h.ptr, h.noThrow, h.fault,
    h.failedRelease⟩
  · simp only [State.setStream, hstreams]
    exact h.count
  · simp only [State.setStream, hstreams]
    exact h.quiet

/-- `closed` is set. -/
theorem Inv.markClosed (h : Inv n s) (ht : t < n) {d : Nat} (hpc : s.thread t = .markClosed d) :
    Inv n ((s.setStream d (s.stream d).markClosed).useLibrary.setThread t
      (.freeStream d)) := by
  have hopen := h.streams.marking t d ht (by rw [hpc]; rfl)
  have hd := h.streams.inRange t d ht (by rw [hpc]; rfl)
  have hfreed := h.not_freed_of_open hd (h.streams.opened d hopen)
  have hallocated := h.allocated
  have hcalls : nrCalls n (Function.update s.thread t (.freeStream d)) = nrCalls n s.thread :=
    nrCalls_same ht (by rw [hpc]; rfl)
  have hstreams : nrOpen s.nrStreams
      (Function.update s.stream d (s.stream d).markClosed) =
        nrOpen s.nrStreams s.stream := nrOpen_same hd rfl
  refine ⟨h.streams.markClosed ht hpc, ?_, ?_, h.stopping, h.allocated, h.ptr, h.noThrow, ?_,
    h.failedRelease⟩
  · simp only [State.setThread, State.setStream, State.useLibrary, hcalls, hstreams]
    exact h.count
  · intro hfreed'
    exact absurd (hfreed'.symm.trans hfreed) (by decide)
  · simp only [State.setThread, State.setStream, State.useLibrary, h.fault, hallocated, hfreed,
      Bool.not_false, Bool.not_true, Bool.or_false]

/-- A stream ends with `releaseReference`. -/
theorem Inv.closeRelease (h : Inv n s) (ht : t < n) {d : Nat}
    (hpc : s.thread t = .closeRelease d) :
    Inv n ((Streams.release s fun s => s.setStream d (s.stream d).release).setThread t
      .outside) := by
  obtain ⟨_, hzero⟩ := h.streams.closing t d ht (by rw [hpc]; rfl)
  have hd := h.streams.inRange t d ht (by rw [hpc]; rfl)
  have hfreed := h.not_freed_of_open hd hzero
  have hpos := nrOpen_pos hd hzero
  have hcalls : nrCalls n (Function.update s.thread t .outside) = nrCalls n s.thread :=
    nrCalls_same ht (by rw [hpc]; rfl)
  have hstreams := nrOpen_lose (s.stream d).release hd hzero (Nat.succ_ne_zero _)
  have hcount := h.count
  rw [h.release_eq hfreed (by omega)]
  refine ⟨h.streams.closeRelease ht hpc, ?_, ?_, h.stopping, h.allocated, h.ptr, h.noThrow,
    h.fault, h.failedRelease⟩
  · show s.lib.refCount - 1 + (if s.free.released then 1 else 0) =
      1 + nrOpen s.nrStreams (Function.update s.stream d (s.stream d).release) +
        nrCalls n (Function.update s.thread t .outside)
    omega
  · intro hfreed'
    exact absurd (hfreed'.symm.trans hfreed) (by decide)

/-! ## 2. `free` -/

/-- `free` moves on before it has called `c_free`. -/
theorem Inv.setFree (h : Inv n s) {free : FreePc} (hfreed : s.free.freed = false)
    (hfreed' : free.freed = false) (hstopped : free.stopped = s.free.stopped) :
    Inv n { s with free := free } := by
  have hcount := h.count
  rw [FreePc.released_of_not_freed hfreed] at hcount
  refine ⟨h.streams, ?_, fun hf => ?_, h.stopping.trans hstopped.symm, ?_, fun _ => h.ptr hfreed,
    ?_, h.fault, h.failedRelease⟩
  · rw [FreePc.released_of_not_freed hfreed']
    exact hcount
  · exact absurd (hf.symm.trans hfreed') (by decide)
  · rw [hfreed', ← hfreed]
    exact h.allocated
  · rintro rfl
    cases hfreed'

/-- `c_free` is called when there is no other reference. -/
theorem Inv.startFree (h : Inv n s) (hfreed : s.free.freed = false)
    (hstopped : s.free.stopped = true) (hone : s.lib.refCount ≤ 1) : Inv n (startFree s) := by
  have hcount := h.count
  rw [FreePc.released_of_not_freed hfreed] at hcount
  simp only [Bool.false_eq_true, if_false] at hcount
  refine ⟨h.streams, ?_, fun _ => ⟨?_, ?_⟩, h.stopping.trans hstopped, rfl, fun hf => (by cases hf),
    (by rintro ⟨⟩), h.fault, h.failedRelease⟩
  · show s.lib.refCount + 0 = _
    simp only [Streams.startFree]
    omega
  · show nrOpen s.nrStreams s.stream = 0
    omega
  · show nrCalls n s.thread = 0
    omega

/-- A step of `free`. -/
theorem Inv.freeStep (h : Inv n s) (hs : freeStep s = some s') : Inv n s' := by
  have hcount := h.count
  have hquiet := h.quiet
  have hstopping := h.stopping
  have hallocated := h.allocated
  cases hfree : s.free with
  | notCalled =>
    have hfreed : s.free.freed = false := by rw [hfree]; rfl
    rw [Streams.freeStep, hfree] at hs
    cases hs
    rw [h.ptr hfreed]
    exact h.setFree hfreed rfl (by rw [hfree]; rfl)
  | shutDown =>
    rw [Streams.freeStep, hfree] at hs
    cases hs
    rw [hfree] at hcount hallocated
    exact ⟨h.streams, hcount, fun hf => (by cases hf), rfl, hallocated,
      fun _ => h.ptr (by rw [hfree]; rfl), (by rintro ⟨⟩), h.fault, h.failedRelease⟩
  | waiting =>
    have hfreed : s.free.freed = false := by rw [hfree]; rfl
    rw [Streams.freeStep, hfree] at hs
    cases hs
    split
    · exact h.setFree hfreed rfl (by rw [hfree]; rfl)
    · exact h.startFree hfreed (by rw [hfree]; rfl) (by omega)
  | sleeping =>
    have hfreed : s.free.freed = false := by rw [hfree]; rfl
    rw [Streams.freeStep, hfree] at hs
    cases hs
    exact h.setFree hfreed rfl (by rw [hfree]; rfl)
  | freeing =>
    rw [Streams.freeStep, hfree] at hs
    cases hs
    rw [hfree] at hcount hquiet hallocated hstopping
    exact ⟨h.streams, hcount, fun _ => hquiet rfl, hstopping, hallocated, fun hf => (by cases hf),
      (by rintro ⟨⟩), h.fault, h.failedRelease⟩
  | clearPtr =>
    rw [Streams.freeStep, hfree] at hs
    cases hs
    rw [hfree] at hcount hquiet hallocated hstopping
    exact ⟨h.streams, hcount, fun _ => hquiet rfl, hstopping, hallocated, fun hf => (by cases hf),
      (by rintro ⟨⟩), h.fault, h.failedRelease⟩
  | releasing =>
    rw [hfree] at hcount hquiet hallocated hstopping
    obtain ⟨hopen, hcalls⟩ := hquiet rfl
    have hone : s.lib.refCount = 1 := by
      rw [hopen, hcalls] at hcount
      simpa [FreePc.released] using hcount
    rw [Streams.freeStep, hfree] at hs
    simp only [releaseReference, if_neg (show ¬ s.lib.refCount ≤ 0 by omega)] at hs
    cases hs
    refine ⟨h.streams, ?_, fun _ => hquiet rfl, hstopping, hallocated, fun hf => (by cases hf),
      (by rintro ⟨⟩), h.fault, h.failedRelease⟩
    show s.lib.refCount - 1 + 1 = _
    simp only [hopen, hcalls, hone]
    rfl
  | finalCheck =>
    rw [hfree] at hcount hquiet hallocated hstopping
    obtain ⟨hopen, hcalls⟩ := hquiet rfl
    have hzero : s.lib.refCount = 0 := by
      rw [hopen, hcalls] at hcount
      simp only [FreePc.released, if_true] at hcount
      omega
    rw [Streams.freeStep, hfree] at hs
    simp only [hzero, ne_eq, not_true_eq_false, if_false] at hs
    cases hs
    exact ⟨h.streams, hcount, fun _ => hquiet rfl, hstopping, hallocated, fun hf => (by cases hf),
      (by rintro ⟨⟩), h.fault, h.failedRelease⟩
  | returned =>
    rw [Streams.freeStep, hfree] at hs
    cases hs
  | thrown =>
    rw [Streams.freeStep, hfree] at hs
    cases hs

/-! ## 3. All steps -/

/-- A thread moves to a point where it has nothing, from one where it had nothing. -/
theorem Inv.idle (h : Inv n s) (ht : t < n) (hstream : ∀ d, pc.stream? = some d → d < s.nrStreams)
    (hpc : pc.reading? = none ∧ pc.marking? = none ∧ pc.closing? = none ∧ pc.holds = false)
    (hold : (s.thread t).closing? = none ∧ (s.thread t).holds = false) :
    Inv n (s.setThread t pc) :=
  h.setThread ht hstream hpc.1 hpc.2.1 (hpc.2.2.1.trans hold.1.symm) (hpc.2.2.2.trans hold.2.symm)

/-- A method is called, and the checks of its arguments. -/
theorem Inv.callStep (h : Inv n s) (ht : t < n) {m : Method} (hsmall : s.lib.refCount + 1 < 2 ^ 31)
    (hs : threadStep s t (.call t m) = some s') : Inv n s' := by
  dsimp only [Streams.threadStep] at hs
  split at hs
  · rename_i hpc
    split at hs
    · cases hs
      exact h
    · rename_i lib hlib
      cases hs
      exact h.call ht hpc hlib hsmall
  · cases hs

theorem Inv.checkStep (h : Inv n s) (ht : t < n) {pass : Bool}
    (hs : threadStep s t (.check t pass) = some s') : Inv n s' := by
  dsimp only [Streams.threadStep] at hs
  split at hs
  · rename_i m hpc
    have hholds : (s.thread t).holds = true := by rw [hpc]; rfl
    have hfreed := h.not_freed_of_call ht hholds
    rw [h.useLibrary hfreed] at hs
    split at hs
    · cases hs
      exact h.setThread ht (fun d hd => by cases hd) rfl rfl (by rw [hpc]; rfl) hholds.symm
    · cases hs
      exact h.setThread ht (fun d hd => by cases hd) rfl rfl (by rw [hpc]; rfl) hholds.symm
  · cases hs

/-- A native call returns. -/
theorem Inv.retStep (h : Inv n s) (ht : t < n) {success : Bool}
    (hs : threadStep s t (.ret t success) = some s') : Inv n s' := by
  dsimp only [Streams.threadStep] at hs
  split at hs
  · rename_i hpc
    split at hs
    · cases hs
      exact h.newStream ht hpc
    · cases hs
      exact h.setThread ht (fun d hd => by cases hd) rfl rfl (by rw [hpc]; rfl) (by rw [hpc]; rfl)
  · rename_i hpc
    cases hs
    exact h.setThread ht (fun d hd => by cases hd) rfl rfl (by rw [hpc]; rfl) (by rw [hpc]; rfl)
  · cases hs

theorem Inv.releaseStep (h : Inv n s) (ht : t < n)
    (hs : threadStep s t (.release t) = some s') : Inv n s' := by
  dsimp only [Streams.threadStep] at hs
  split at hs
  · rename_i hpc
    cases hs
    exact h.release ht hpc
  · cases hs

/-- `read` or `close` of a stream is called. -/
theorem Inv.enterStep (h : Inv n s) (ht : t < n) {a : Action} {d : Nat}
    (ha : a = .read t d ∨ a = .close t d) (hs : threadStep s t a = some s') : Inv n s' := by
  rcases ha with rfl | rfl
  · dsimp only [Streams.threadStep] at hs
    split at hs
    · rename_i hpc
      split at hs
      · rename_i hd
        cases hs
        split
        · exact h
        · refine h.idle ht (fun d' hd' => ?_) ⟨rfl, rfl, rfl, rfl⟩ (by rw [hpc]; exact ⟨rfl, rfl⟩)
          cases hd'
          exact hd
      · cases hs
    · cases hs
  · dsimp only [Streams.threadStep] at hs
    split at hs
    · rename_i hpc
      split at hs
      · rename_i hd
        cases hs
        refine h.idle ht (fun d' hd' => ?_) ⟨rfl, rfl, rfl, rfl⟩ (by rw [hpc]; exact ⟨rfl, rfl⟩)
        cases hd'
        exact hd
      · cases hs
    · cases hs

/-- The checks of `read`: the end of the stream, and whether it is closed. -/
theorem Inv.readEndStep (h : Inv n s) (ht : t < n)
    (hs : threadStep s t (.readEnd t) = some s') : Inv n s' := by
  have hrange := h.streams.inRange t
  dsimp only [Streams.threadStep] at hs
  split at hs
  · rename_i d hpc
    rw [hpc] at hrange
    cases hs
    split
    · exact h.idle ht (fun d' hd' => by cases hd') ⟨rfl, rfl, rfl, rfl⟩
        (by rw [hpc]; exact ⟨rfl, rfl⟩)
    · exact h.idle ht (fun d' hd' => hrange d' ht hd') ⟨rfl, rfl, rfl, rfl⟩
        (by rw [hpc]; exact ⟨rfl, rfl⟩)
  · cases hs

theorem Inv.readClosedStep (h : Inv n s) (ht : t < n) {buffered : Bool}
    (hcareful : Careful n s (.readClosed t buffered))
    (hs : threadStep s t (.readClosed t buffered) = some s') : Inv n s' := by
  have hrange := h.streams.inRange t
  dsimp only [Streams.threadStep] at hs
  split at hs
  · rename_i d hpc
    rw [hpc] at hrange
    split at hs
    · cases hs
      exact h.idle ht (fun d' hd' => by cases hd') ⟨rfl, rfl, rfl, rfl⟩
        (by rw [hpc]; exact ⟨rfl, rfl⟩)
    · rename_i hopen
      rw [not_or, Bool.not_eq_true, Bool.not_eq_true] at hopen
      simp only [Careful, hpc] at hcareful
      have hfreed := h.not_freed_of_open (hrange d ht rfl) (h.streams.opened d hopen.1)
      rw [h.useLibrary hfreed] at hs
      cases hs
      exact h.startRead ht hpc hopen.1 (hcareful hopen.2)
  · cases hs

/-- `c_read_chunk` returns, and the end of the stream is noted. -/
theorem Inv.chunkStep (h : Inv n s) (ht : t < n) {nrBytesRead : Int}
    (hs : threadStep s t (.chunk t nrBytesRead) = some s') : Inv n s' := by
  have hrange := h.streams.inRange t
  dsimp only [Streams.threadStep] at hs
  split at hs
  · rename_i d hpc
    rw [hpc] at hrange
    cases hs
    split
    · exact h.idle ht (fun d' hd' => hrange d' ht hd') ⟨rfl, rfl, rfl, rfl⟩
        (by rw [hpc]; exact ⟨rfl, rfl⟩)
    split
    · exact h.idle ht (fun d' hd' => hrange d' ht hd') ⟨rfl, rfl, rfl, rfl⟩
        (by rw [hpc]; exact ⟨rfl, rfl⟩)
    · exact h.idle ht (fun d' hd' => by cases hd') ⟨rfl, rfl, rfl, rfl⟩
        (by rw [hpc]; exact ⟨rfl, rfl⟩)
  · cases hs

theorem Inv.markEndStep (h : Inv n s) (ht : t < n)
    (hs : threadStep s t (.markEnd t) = some s') : Inv n s' := by
  have hrange := h.streams.inRange t
  dsimp only [Streams.threadStep] at hs
  split at hs
  · rename_i d hpc
    rw [hpc] at hrange
    cases hs
    exact (h.markEnd (hrange d ht rfl)).idle ht (fun d' hd' => hrange d' ht hd')
      ⟨rfl, rfl, rfl, rfl⟩ (by rw [State.setStream, hpc]; exact ⟨rfl, rfl⟩)
  · cases hs

/-- The check of `close`. -/
theorem Inv.checkClosedStep (h : Inv n s) (ht : t < n) (hcareful : Careful n s (.checkClosed t))
    (hs : threadStep s t (.checkClosed t) = some s') : Inv n s' := by
  have hrange := h.streams.inRange t
  dsimp only [Streams.threadStep] at hs
  split at hs
  · rename_i d hpc
    rw [hpc] at hrange
    simp only [Careful, hpc] at hcareful
    cases hs
    split
    · exact h.idle ht (fun d' hd' => by cases hd') ⟨rfl, rfl, rfl, rfl⟩
        (by rw [hpc]; exact ⟨rfl, rfl⟩)
    · rename_i hopen
      exact h.startClose ht hpc (Bool.eq_false_iff.mpr hopen) hcareful.1 hcareful.2
  · cases hs

/-- The rest of `close`. -/
theorem Inv.closeStep (h : Inv n s) (ht : t < n) {a : Action}
    (ha : a = .markClosed t ∨ a = .streamFreed t ∨ a = .closeRelease t)
    (hs : threadStep s t a = some s') : Inv n s' := by
  have hrange := h.streams.inRange t
  rcases ha with rfl | rfl | rfl
  · dsimp only [Streams.threadStep] at hs
    split at hs
    · rename_i d hpc
      cases hs
      exact h.markClosed ht hpc
    · cases hs
  · dsimp only [Streams.threadStep] at hs
    split at hs
    · rename_i d hpc
      rw [hpc] at hrange
      cases hs
      exact h.setThread ht (fun d' hd' => hrange d' ht hd') rfl rfl (by rw [hpc]; rfl)
        (by rw [hpc]; rfl)
    · cases hs
  · dsimp only [Streams.threadStep] at hs
    split at hs
    · rename_i d hpc
      cases hs
      exact h.closeRelease ht hpc
    · cases hs

/-- A step of a thread. -/
theorem Inv.threadStep (h : Inv n s) (ht : t < n) {a : Action} (ha : a.thread? = some t)
    (hcareful : Careful n s a) (hs : threadStep s t a = some s') : Inv n s' := by
  cases a with
  | call t₀ m => exact h.callStep ht hcareful hs
  | check t₀ pass => exact h.checkStep ht hs
  | ret t₀ success => exact h.retStep ht hs
  | release t₀ => exact h.releaseStep ht hs
  | read t₀ d =>
    obtain rfl : t₀ = t := Option.some.inj ha
    exact h.enterStep ht (.inl rfl) hs
  | close t₀ d =>
    obtain rfl : t₀ = t := Option.some.inj ha
    exact h.enterStep ht (.inr rfl) hs
  | readEnd t₀ => exact h.readEndStep ht hs
  | readClosed t₀ buffered =>
    obtain rfl : t₀ = t := Option.some.inj ha
    exact h.readClosedStep ht hcareful hs
  | chunk t₀ nrBytesRead => exact h.chunkStep ht hs
  | markEnd t₀ => exact h.markEndStep ht hs
  | checkClosed t₀ =>
    obtain rfl : t₀ = t := Option.some.inj ha
    exact h.checkClosedStep ht hcareful hs
  | markClosed t₀ | streamFreed t₀ | closeRelease t₀ =>
    obtain rfl : t₀ = t := Option.some.inj ha
    exact h.closeStep ht (by simp) hs
  | free => cases hs
  | interrupt => cases hs

/-- **One careful step.** -/
theorem Inv.exec (h : Inv n s) {a : Action} (hcareful : Careful n s a)
    (hs : exec n s a = some s') : Inv n s' := by
  unfold Streams.exec at hs
  split at hs
  · rename_i t ha
    split at hs
    · rename_i ht
      exact h.threadStep ht ha hcareful hs
    · cases hs
  · split at hs
    · split at hs
      · rename_i hsleeping
        cases hs
        exact h.startFree (by rw [hsleeping]; rfl) (by rw [hsleeping]; rfl) hcareful
      · cases hs
    · exact h.freeStep hs

end HdfStream.Streams
