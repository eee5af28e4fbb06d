/-
# The library is not freed while it is in use

`references_safe` reads the guarantees off the invariant, for every run of careful steps.  The two
runs at the end are not careful: a thread interrupted in `free` frees the library under a call, and
two threads that close one stream release its reference twice.
-/
import HdfStream.Streams.Steps

namespace HdfStream.Streams

open Counting

/-- What holds of the references in a state:

* until `free` has released it, there is one reference for the library, one for each open stream
  and one for each call in progress, and the count says so;
* a stream that is not closed has not released its reference, one that is closed has released it
  once, unless a thread is still about to do so, and no release has failed;
* when `c_free` has been called, no stream is open and no call in progress, and no thread is in a
  native call or has started one since. -/
structure Safe (nrThreads : Nat) (s : State) : Prop where
  count : s.free.released = false →
    s.lib.refCount = 1 + nrOpen s.nrStreams s.stream + nrCalls nrThreads s.thread
  finished : s.free.released = true → s.lib.refCount = 0
  opened : ∀ d, (s.stream d).closed = false → (s.stream d).releases = 0
  once : ∀ d, (s.stream d).closed = true →
    (∀ t, t < nrThreads → (s.thread t).closing? ≠ some d) → (s.stream d).releases = 1
  atMost : ∀ d, (s.stream d).releases ≤ 1
  failedRelease : s.failedRelease = false
  unused : s.allocated = false → nrOpen s.nrStreams s.stream = 0 ∧
    nrCalls nrThreads s.thread = 0 ∧ ∀ t, t < nrThreads → (s.thread t).inNative = false
  fault : s.fault = false

variable {n : Nat} {s : State}

/-- A thread in a native call keeps the library from being freed. -/
theorem Inv.not_freed_of_native (h : Inv n s) {t : Nat} (ht : t < n)
    (hnative : (s.thread t).inNative = true) : s.free.freed = false := by
  cases hpc : s.thread t with
  | native m => exact h.not_freed_of_call ht (by rw [hpc]; rfl)
  | readChunk d =>
    have hclosed := h.streams.reading t d ht (by rw [hpc]; rfl)
    exact h.not_freed_of_open (h.streams.inRange t d ht (by rw [hpc]; rfl))
      (h.streams.opened d hclosed)
  | freeStream d =>
    exact h.not_freed_of_open (h.streams.inRange t d ht (by rw [hpc]; rfl))
      (h.streams.closing t d ht (by rw [hpc]; rfl)).2
  | _ =>
    rw [hpc] at hnative
    cases hnative

theorem Inv.safe (h : Inv n s) : Safe n s where
  count hreleased := by
    have hcount := h.count
    rw [hreleased] at hcount
    simpa using hcount
  finished hreleased := by
    have hcount := h.count
    obtain ⟨hopen, hcalls⟩ := h.quiet (FreePc.freed_of_released hreleased)
    rw [hreleased, hopen, hcalls] at hcount
    simp only [if_true] at hcount
    omega
  opened := h.streams.opened
  once d hclosed hnone := by
    rcases h.streams.released d hclosed with hone | ⟨-, t, ht, hclosing⟩
    · exact hone
    · exact absurd hclosing (hnone t ht)
  atMost d := by
    cases hclosed : (s.stream d).closed with
    | false =>
      have := h.streams.opened d hclosed
      omega
    | true =>
      have := h.streams.released d hclosed
      omega
  failedRelease := h.failedRelease
  unused hallocated := by
    have hfreed : s.free.freed = true := by
      have := h.allocated
      rw [hallocated] at this
      simpa using this.symm
    obtain ⟨hopen, hcalls⟩ := h.quiet hfreed
    refine ⟨hopen, hcalls, fun t ht => ?_⟩
    rw [Bool.eq_false_iff]
    intro hnative
    have := h.not_freed_of_native ht hnative
    rw [hfreed] at this
    cases this
  fault := h.fault

/-- **The native library is not freed while it is in use**, in every run whose steps are careful,
for any number of threads. -/
theorem references_safe (n : Nat) (tr : List Action) (s : State)
    (h : (machine n).run tr = some s) (hcareful : (machine n).StepsMeet (Careful n) tr) :
    Safe n s :=
  ((machine n).stepsMeet_induction (start_inv n) (fun _ _ _ hi hc hs => hi.exec hc hs) tr s h
    hcareful).safe

/-- Thread 0 opens a stream and reads it to its end while `free` waits. -/
def readWhileFree : List Action :=
  [.call 0 .openStream, .check 0 true, .ret 0 true, .read 0 0, .readEnd 0, .readClosed 0 false,
    .free, .free, .free, .call 1 .getCacheInfo, .chunk 0 0, .markEnd 0, .checkClosed 0,
    .markClosed 0, .streamFreed 0, .closeRelease 0, .free, .free, .free, .free, .free, .free]

theorem readWhileFree_end : ((machine 2).run readWhileFree).map
    (fun s => (s.free, s.lib.refCount)) = some (.returned, 0) := by
  decide +kernel

theorem references_safe_readWhileFree :
    (machine 2).StepsMeet (Careful 2) readWhileFree ∧
      ∃ s, (machine 2).run readWhileFree = some s ∧ s.free = .returned ∧ Safe 2 s := by
  have hcareful : (machine 2).StepsMeet (Careful 2) readWhileFree :=
    (machine 2).stepsMeet_of_meets (by decide +kernel)
  obtain ⟨s, hrun, hs⟩ := Option.map_eq_some_iff.mp readWhileFree_end
  exact ⟨hcareful, s, hrun, congrArg Prod.fst hs, references_safe 2 readWhileFree s hrun hcareful⟩

/-- Thread 0 is opening an object while the thread in `free` is interrupted. -/
def interruptedFree : List Action :=
  [.call 0 .openStream, .check 0 true, .free, .free, .free, .interrupt]

/-- Both threads find the stream open and close it. -/
def closedTwice : List Action :=
  [.call 0 .openStream, .check 0 true, .ret 0 true, .call 0 .openStream, .check 0 true, .ret 0 true,
    .close 0 0, .close 1 0, .checkClosed 0, .checkClosed 1, .markClosed 0, .streamFreed 0,
    .closeRelease 0, .markClosed 1, .streamFreed 1, .closeRelease 1]

/-- `c_free` is executed while thread 0 is in a native call; and a stream that two threads close
releases its reference twice, after which the count is too small. -/
theorem freed_in_use :
    (∃ s, (machine 1).run interruptedFree = some s ∧ s.allocated = false ∧
      s.free = .freeing ∧ s.thread 0 = .native .openStream ∧ s.lib.refCount = 2) ∧
    ∃ s, (machine 2).run closedTwice = some s ∧ (s.stream 0).releases = 2 ∧
      (s.stream 1).releases = 0 ∧ s.lib.refCount = 1 := by
  have hinterrupted : ((machine 1).run interruptedFree).map
      (fun s => (s.allocated, s.free, s.thread 0, s.lib.refCount)) =
        some (false, .freeing, .native .openStream, 2) := by
    decide +kernel
  have htwice : ((machine 2).run closedTwice).map
      (fun s => ((s.stream 0).releases, (s.stream 1).releases, s.lib.refCount)) =
        some (2, 0, 1) := by
    decide +kernel
  obtain ⟨s, hrun, hs⟩ := Option.map_eq_some_iff.mp hinterrupted
  obtain ⟨s', hrun', hs'⟩ := Option.map_eq_some_iff.mp htwice
  simp only [Prod.mk.injEq] at hs hs'
  exact ⟨⟨s, hrun, hs⟩, s', hrun', hs'⟩

end HdfStream.Streams
