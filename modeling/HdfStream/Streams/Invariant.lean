/-
# The invariant of the references

`Inv` counts the references to the native library: one for the library itself until `free` has
finished, one for each call in progress, one for each stream that has not released its own.  It
survives every step that is `Careful`.  Section 4 has one lemma for each way the streams and the
threads that work on them change.

Three things are not careful.  An interrupt ends the loop in `free` whatever the count is.
`close` reads and sets `closed` without a lock, so it must not run while another thread is in
`c_read_chunk` or `close` of the same stream, past the test.  And the count is an `int`.
-/
import HdfStream.Streams.Model

namespace HdfStream.Streams

open Counting

/-! ## 1. Reading the control points -/

namespace ThreadPc

/-- It has a reference of its own. -/
def holds : ThreadPc → Bool
  | .checking _ | .native _ | .releasing => true
  | _ => false

/-- The stream it is working on. -/
def stream? : ThreadPc → Option Nat
  | .readEnd d | .readClosed d | .readChunk d | .markEnd d | .checkClosed d | .markClosed d
  | .freeStream d | .closeRelease d => some d
  | _ => none

/-- The stream whose bytes it is reading. -/
def reading? : ThreadPc → Option Nat
  | .readChunk d => some d
  | _ => none

/-- The stream it has found open and is about to close. -/
def marking? : ThreadPc → Option Nat
  | .markClosed d => some d
  | _ => none

/-- The stream it has closed and whose reference it has to release. -/
def closing? : ThreadPc → Option Nat
  | .freeStream d | .closeRelease d => some d
  | _ => none

theorem stream?_of_reading {pc : ThreadPc} {d : Nat} (h : pc.reading? = some d) :
    pc.stream? = some d := by
  cases pc <;> cases h
  rfl

theorem stream?_of_marking {pc : ThreadPc} {d : Nat} (h : pc.marking? = some d) :
    pc.stream? = some d := by
  cases pc <;> cases h
  rfl

theorem stream?_of_closing {pc : ThreadPc} {d : Nat} (h : pc.closing? = some d) :
    pc.stream? = some d := by
  cases pc <;> cases h <;> rfl

/-- In a native call. -/
def inNative : ThreadPc → Bool
  | .native _ | .readChunk _ | .freeStream _ => true
  | _ => false

end ThreadPc

namespace FreePc

/-- The flag `stopping` is set. -/
def stopped : FreePc → Bool
  | .notCalled | .shutDown => false
  | _ => true

/-- `c_free` has been called. -/
def freed : FreePc → Bool
  | .notCalled | .shutDown | .waiting | .sleeping => false
  | _ => true

/-- The last reference has been released. -/
def released : FreePc → Bool
  | .finalCheck | .returned | .thrown => true
  | _ => false

end FreePc

/-- Calls in progress that have a reference. -/
def nrCalls (nrThreads : Nat) (thread : Nat → ThreadPc) : Nat :=
  Nat.count (fun t => (thread t).holds = true) nrThreads

/-- Streams that have a reference. -/
def nrOpen (nrStreams : Nat) (stream : Nat → DataStream) : Nat :=
  Nat.count (fun d => (stream d).releases = 0) nrStreams

/-! ## 2. The invariant -/

/-- The streams and the threads that work on them. -/
structure StreamsInv (nrThreads nrStreams : Nat) (stream : Nat → DataStream)
    (thread : Nat → ThreadPc) : Prop where
  inRange : ∀ t d, t < nrThreads → (thread t).stream? = some d → d < nrStreams
  reading : ∀ t d, t < nrThreads → (thread t).reading? = some d → (stream d).closed = false
  marking : ∀ t d, t < nrThreads → (thread t).marking? = some d → (stream d).closed = false
  alone : ∀ t t' d, t < nrThreads → t' < nrThreads → (thread t).marking? = some d →
    (thread t').marking? = some d ∨ (thread t').reading? = some d → t' = t
  closing : ∀ t d, t < nrThreads → (thread t).closing? = some d →
    (stream d).closed = true ∧ (stream d).releases = 0
  closer : ∀ t t' d, t < nrThreads → t' < nrThreads → (thread t).closing? = some d →
    (thread t').closing? = some d → t' = t
  opened : ∀ d, (stream d).closed = false → (stream d).releases = 0
  released : ∀ d, (stream d).closed = true → (stream d).releases = 1 ∨
    (stream d).releases = 0 ∧ ∃ t, t < nrThreads ∧ (thread t).closing? = some d

/-- The invariant of the system. -/
structure Inv (nrThreads : Nat) (s : State) : Prop where
  streams : StreamsInv nrThreads s.nrStreams s.stream s.thread
  count : s.lib.refCount + (if s.free.released then 1 else 0) =
    1 + nrOpen s.nrStreams s.stream + nrCalls nrThreads s.thread
  quiet : s.free.freed = true →
    nrOpen s.nrStreams s.stream = 0 ∧ nrCalls nrThreads s.thread = 0
  stopping : s.lib.stopping = s.free.stopped
  allocated : s.allocated = !s.free.freed
  ptr : s.free.freed = false → s.lib.ptr = true
  noThrow : s.free ≠ .thrown
  fault : s.fault = false
  failedRelease : s.failedRelease = false

/-- No other thread is about to close the stream. -/
def Unmarked (nrThreads : Nat) (s : State) (d : Nat) : Prop :=
  ∀ t, t < nrThreads → (s.thread t).marking? ≠ some d

/-- No thread is in `c_read_chunk` of the stream. -/
def Unread (nrThreads : Nat) (s : State) (d : Nat) : Prop :=
  ∀ t, t < nrThreads → (s.thread t).reading? ≠ some d

instance (nrThreads : Nat) (s : State) (d : Nat) : Decidable (Unmarked nrThreads s d) :=
  inferInstanceAs (Decidable (∀ t, t < nrThreads → _))

instance (nrThreads : Nat) (s : State) (d : Nat) : Decidable (Unread nrThreads s d) :=
  inferInstanceAs (Decidable (∀ t, t < nrThreads → _))

/-- What a step must not do: overflow the count, start to read a stream that is about to be
closed, close a stream another thread reads or is about to close, or end the loop in `free` while
there are references. -/
def Careful (nrThreads : Nat) (s : State) : Action → Prop
  | .call _ _ => s.lib.refCount + 1 < 2 ^ 31
  | .readClosed t buffered =>
    match s.thread t with
    | .readClosed d => buffered = false → Unmarked nrThreads s d
    | _ => True
  | .checkClosed t =>
    match s.thread t with
    | .checkClosed d => Unmarked nrThreads s d ∧ Unread nrThreads s d
    | _ => True
  | .interrupt => s.lib.refCount ≤ 1
  | _ => True

instance (nrThreads : Nat) (s : State) (a : Action) : Decidable (Careful nrThreads s a) := by
  unfold Careful
  split <;> first | infer_instance | (split <;> infer_instance)

variable {n : Nat} {s s' : State} {t : Nat} {pc : ThreadPc}

/-! ## 3. The counts under one assignment -/

section Counts

variable {thread : Nat → ThreadPc} {stream : Nat → DataStream} {d nrStreams : Nat}
  {ds : DataStream}

theorem nrCalls_same (ht : t < n) (h : pc.holds = (thread t).holds) :
    nrCalls n (Function.update thread t pc) = nrCalls n thread :=
  count_update_same (q := fun pc : ThreadPc => pc.holds = true) ht (by rw [h])

theorem nrCalls_gain (ht : t < n) (h : (thread t).holds = false) (hpc : pc.holds = true) :
    nrCalls n (Function.update thread t pc) = nrCalls n thread + 1 :=
  count_update_gain (q := fun pc : ThreadPc => pc.holds = true) ht (by rw [h]; decide) hpc

theorem nrCalls_lose (pc : ThreadPc) (ht : t < n) (h : (thread t).holds = true)
    (hpc : pc.holds = false) :
    nrCalls n (Function.update thread t pc) + 1 = nrCalls n thread :=
  count_update_lose (q := fun pc : ThreadPc => pc.holds = true) ht h (by rw [hpc]; decide)

theorem nrOpen_same (hd : d < nrStreams) (h : ds.releases = (stream d).releases) :
    nrOpen nrStreams (Function.update stream d ds) = nrOpen nrStreams stream :=
  count_update_same (q := fun ds : DataStream => ds.releases = 0) hd (by rw [h])

theorem nrOpen_lose (ds : DataStream) (hd : d < nrStreams) (h : (stream d).releases = 0)
    (hds : ds.releases ≠ 0) :
    nrOpen nrStreams (Function.update stream d ds) + 1 = nrOpen nrStreams stream :=
  count_update_lose (q := fun ds : DataStream => ds.releases = 0) hd h hds

/-- A new stream. -/
theorem nrOpen_new (hds : ds.releases = 0) :
    nrOpen (nrStreams + 1) (Function.update stream nrStreams ds) = nrOpen nrStreams stream + 1 := by
  have hbelow : Nat.count (fun d => (Function.update stream nrStreams ds d).releases = 0)
      nrStreams = nrOpen nrStreams stream := by
    refine le_antisymm (Nat.count_mono_left fun k hk hq => ?_)
      (Nat.count_mono_left fun k hk hq => ?_)
    · rwa [Function.update_of_ne hk.ne] at hq
    · rwa [Function.update_of_ne hk.ne]
  rw [nrOpen, Nat.count_succ, hbelow, Function.update_self, if_pos hds]

theorem nrCalls_pos (ht : t < n) (h : (thread t).holds = true) : 0 < nrCalls n thread :=
  Nat.pos_of_ne_zero fun hzero => Nat.count_iff_forall_not.mp hzero t ht h

theorem nrOpen_pos (hd : d < nrStreams) (h : (stream d).releases = 0) :
    0 < nrOpen nrStreams stream :=
  Nat.pos_of_ne_zero fun hzero => Nat.count_iff_forall_not.mp hzero d hd h

end Counts

/-! ## 4. The streams under one move -/

section Streams

variable {nrStreams : Nat} {stream : Nat → DataStream} {thread : Nat → ThreadPc} {d : Nat}

/-- The thread that moved, or another one. -/
theorem update_cases {f : ThreadPc → Option Nat} {t' : Nat}
    (h : f (Function.update thread t pc t') = some d) :
    t' = t ∧ f pc = some d ∨ t' ≠ t ∧ f (thread t') = some d := by
  by_cases e : t' = t
  · subst e
    rw [Function.update_self] at h
    exact .inl ⟨rfl, h⟩
  · rw [Function.update_of_ne e] at h
    exact .inr ⟨e, h⟩

/-- The thread that moved was not there before, and is not there now. -/
theorem update_other {f : ThreadPc → Option Nat} {t' : Nat} (hpc : f pc = none)
    (h : f (Function.update thread t pc t') = some d) : t' ≠ t ∧ f (thread t') = some d := by
  rcases update_cases h with ⟨-, hsome⟩ | hother
  · rw [hpc] at hsome
    cases hsome
  · exact hother

theorem update_same {f : ThreadPc → Option Nat} (hpc : f pc = f (thread t)) (t' : Nat) :
    f (Function.update thread t pc t') = f (thread t') := by
  by_cases e : t' = t
  · subst e
    rw [Function.update_self, hpc]
  · rw [Function.update_of_ne e]

theorem StreamsInv.inRange_move (h : StreamsInv n nrStreams stream thread)
    (hstream : ∀ d, pc.stream? = some d → d < nrStreams) :
    ∀ t' d, t' < n → (Function.update thread t pc t').stream? = some d → d < nrStreams := by
  intro t' d ht' hd
  rcases update_cases hd with ⟨-, hd⟩ | ⟨-, hd⟩
  · exact hstream d hd
  · exact h.inRange t' d ht' hd

/-- **A thread moves** to a point where it neither reads nor is about to close a stream, and goes
on closing what it was closing. -/
theorem StreamsInv.move (h : StreamsInv n nrStreams stream thread)
    (hstream : ∀ d, pc.stream? = some d → d < nrStreams) (hreading : pc.reading? = none)
    (hmarking : pc.marking? = none) (hclosing : pc.closing? = (thread t).closing?) :
    StreamsInv n nrStreams stream (Function.update thread t pc) where
  inRange := h.inRange_move hstream
  reading t' d ht' hd := h.reading t' d ht' (update_other hreading hd).2
  marking t' d ht' hd := h.marking t' d ht' (update_other hmarking hd).2
  alone t' t'' d ht' ht'' hd hd' :=
    h.alone t' t'' d ht' ht'' (update_other hmarking hd).2
      (hd'.imp (fun hd' => (update_other hmarking hd').2) fun hd' => (update_other hreading hd').2)
  closing t' d ht' hd := by
    rw [update_same hclosing] at hd
    exact h.closing t' d ht' hd
  closer t' t'' d ht' ht'' hd hd' := by
    rw [update_same hclosing] at hd hd'
    exact h.closer t' t'' d ht' ht'' hd hd'
  opened := h.opened
  released d hd := by
    refine (h.released d hd).imp_right ?_
    rintro ⟨hzero, t', ht', hd'⟩
    exact ⟨hzero, t', ht', by rw [update_same hclosing, hd']⟩

/-- A thread starts to read a stream that is open and not about to be closed. -/
theorem StreamsInv.startRead (h : StreamsInv n nrStreams stream thread) (ht : t < n)
    (hpc : thread t = .readClosed d) (hopen : (stream d).closed = false)
    (hmark : ∀ t', t' < n → (thread t').marking? ≠ some d) :
    StreamsInv n nrStreams stream (Function.update thread t (.readChunk d)) where
  inRange := h.inRange_move fun d' hd' => by
    cases hd'
    exact h.inRange t d ht (by rw [hpc]; rfl)
  reading t' d' ht' hd' := by
    rcases update_cases hd' with ⟨-, hd'⟩ | ⟨-, hd'⟩
    · cases hd'
      exact hopen
    · exact h.reading t' d' ht' hd'
  marking t' d' ht' hd' := h.marking t' d' ht' (update_other rfl hd').2
  alone t' t'' d' ht' ht'' hd' hd'' := by
    obtain ⟨_, hd'⟩ := update_other rfl hd'
    rcases hd'' with hd'' | hd''
    · exact h.alone t' t'' d' ht' ht'' hd' (.inl (update_other rfl hd'').2)
    · rcases update_cases hd'' with ⟨-, hd''⟩ | ⟨-, hd''⟩
      · cases hd''
        exact absurd hd' (hmark t' ht')
      · exact h.alone t' t'' d' ht' ht'' hd' (.inr hd'')
  closing t' d' ht' hd' := h.closing t' d' ht' (update_other rfl hd').2
  closer t' t'' d' ht' ht'' hd' hd'' :=
    h.closer t' t'' d' ht' ht'' (update_other rfl hd').2 (update_other rfl hd'').2
  opened := h.opened
  released d' hd' := by
    refine (h.released d' hd').imp_right ?_
    rintro ⟨hzero, t', ht', hd''⟩
    refine ⟨hzero, t', ht', ?_⟩
    rw [update_same (f := ThreadPc.closing?) (by rw [hpc]; rfl), hd'']

/-- A thread is about to close a stream that is open and that no other thread is reading or about
to close. -/
theorem StreamsInv.startClose (h : StreamsInv n nrStreams stream thread) (ht : t < n)
    (hpc : thread t = .checkClosed d) (hopen : (stream d).closed = false)
    (hmark : ∀ t', t' < n → (thread t').marking? ≠ some d)
    (hread : ∀ t', t' < n → (thread t').reading? ≠ some d) :
    StreamsInv n nrStreams stream (Function.update thread t (.markClosed d)) where
  inRange := h.inRange_move fun d' hd' => by
    cases hd'
    exact h.inRange t d ht (by rw [hpc]; rfl)
  reading t' d' ht' hd' := h.reading t' d' ht' (update_other rfl hd').2
  marking t' d' ht' hd' := by
    rcases update_cases hd' with ⟨-, hd'⟩ | ⟨-, hd'⟩
    · cases hd'
      exact hopen
    · exact h.marking t' d' ht' hd'
  alone t' t'' d' ht' ht'' hd' hd'' := by
    rcases update_cases hd' with ⟨rfl, hself⟩ | ⟨-, hd'⟩
    · -- the thread itself: no other thread is there
      cases hself
      rcases hd'' with hd'' | hd''
      · rcases update_cases hd'' with ⟨he, -⟩ | ⟨-, hd''⟩
        · exact he
        · exact absurd hd'' (hmark t'' ht'')
      · exact absurd (update_other rfl hd'').2 (hread t'' ht'')
    · rcases hd'' with hd'' | hd''
      · rcases update_cases hd'' with ⟨-, hd''⟩ | ⟨-, hd''⟩
        · cases hd''
          exact absurd hd' (hmark t' ht')
        · exact h.alone t' t'' d' ht' ht'' hd' (.inl hd'')
      · exact h.alone t' t'' d' ht' ht'' hd' (.inr (update_other rfl hd'').2)
  closing t' d' ht' hd' := h.closing t' d' ht' (update_other rfl hd').2
  closer t' t'' d' ht' ht'' hd' hd'' :=
    h.closer t' t'' d' ht' ht'' (update_other rfl hd').2 (update_other rfl hd'').2
  opened := h.opened
  released d' hd' := by
    refine (h.released d' hd').imp_right ?_
    rintro ⟨hzero, t', ht', hd''⟩
    refine ⟨hzero, t', ht', ?_⟩
    rw [update_same (f := ThreadPc.closing?) (by rw [hpc]; rfl), hd'']

/-- A change of a stream that leaves `closed` and the reference alone. -/
theorem StreamsInv.setStream (h : StreamsInv n nrStreams stream thread) {ds : DataStream}
    (hclosed : ds.closed = (stream d).closed) (hreleases : ds.releases = (stream d).releases) :
    StreamsInv n nrStreams (Function.update stream d ds) thread := by
  have hsame : ∀ d', (Function.update stream d ds d').closed = (stream d').closed ∧
      (Function.update stream d ds d').releases = (stream d').releases := by
    intro d'
    by_cases e : d' = d
    · subst e
      rw [Function.update_self]
      exact ⟨hclosed, hreleases⟩
    · rw [Function.update_of_ne e]
      exact ⟨rfl, rfl⟩
  refine ⟨h.inRange, fun t' d' ht' hd' => ?_, fun t' d' ht' hd' => ?_, h.alone,
    fun t' d' ht' hd' => ?_, h.closer, fun d' hd' => ?_, fun d' hd' => ?_⟩
  · rw [(hsame d').1]
    exact h.reading t' d' ht' hd'
  · rw [(hsame d').1]
    exact h.marking t' d' ht' hd'
  · rw [(hsame d').1, (hsame d').2]
    exact h.closing t' d' ht' hd'
  · rw [(hsame d').1] at hd'
    rw [(hsame d').2]
    exact h.opened d' hd'
  · rw [(hsame d').1] at hd'
    rw [(hsame d').2]
    exact h.released d' hd'

/-- A thread closes the stream it has found open. -/
theorem StreamsInv.markClosed (h : StreamsInv n nrStreams stream thread) (ht : t < n)
    (hpc : thread t = .markClosed d) :
    StreamsInv n nrStreams (Function.update stream d (stream d).markClosed)
      (Function.update thread t (.freeStream d)) := by
  have hmark : (thread t).marking? = some d := by rw [hpc]; rfl
  have hopen := h.marking t d ht hmark
  have hother : ∀ d', d' ≠ d →
      Function.update stream d (stream d).markClosed d' = stream d' :=
    fun d' hd' => Function.update_of_ne hd' _ _
  refine ⟨h.inRange_move fun d' hd' => ?_, fun t' d' ht' hd' => ?_, fun t' d' ht' hd' => ?_,
    fun t' t'' d' ht' ht'' hd' hd'' => ?_, fun t' d' ht' hd' => ?_,
    fun t' t'' d' ht' ht'' hd' hd'' => ?_, fun d' hd' => ?_, fun d' hd' => ?_⟩
  · cases hd'
    exact h.inRange t d ht (by rw [hpc]; rfl)
  · obtain ⟨hne, hold⟩ := update_other rfl hd'
    have hd : d' ≠ d := by
      rintro rfl
      exact hne (h.alone t t' d' ht ht' hmark (.inr hold))
    rw [hother d' hd]
    exact h.reading t' d' ht' hold
  · obtain ⟨hne, hold⟩ := update_other rfl hd'
    have hd : d' ≠ d := by
      rintro rfl
      exact hne (h.alone t t' d' ht ht' hmark (.inl hold))
    rw [hother d' hd]
    exact h.marking t' d' ht' hold
  · exact h.alone t' t'' d' ht' ht'' (update_other rfl hd').2
      (hd''.imp (fun hd'' => (update_other rfl hd'').2) fun hd'' => (update_other rfl hd'').2)
  · rcases update_cases hd' with ⟨-, hself⟩ | ⟨-, hold⟩
    · cases hself
      rw [Function.update_self]
      exact ⟨rfl, h.opened d hopen⟩
    · have hd : d' ≠ d := by
        rintro rfl
        rw [(h.closing t' d' ht' hold).1] at hopen
        cases hopen
      rw [hother d' hd]
      exact h.closing t' d' ht' hold
  · -- a thread that was closing the stream had found it closed
    have hnot : ∀ t₁, t₁ < n → (thread t₁).closing? ≠ some d := by
      intro t₁ ht₁ hclosing
      rw [(h.closing t₁ d ht₁ hclosing).1] at hopen
      cases hopen
    rcases update_cases hd' with ⟨he, hself⟩ | ⟨-, hd'⟩
    · cases hself
      rcases update_cases hd'' with ⟨he', -⟩ | ⟨-, hd''⟩
      · rw [he, he']
      · exact absurd hd'' (hnot t'' ht'')
    · rcases update_cases hd'' with ⟨-, hself⟩ | ⟨-, hd''⟩
      · cases hself
        exact absurd hd' (hnot t' ht')
      · exact h.closer t' t'' d' ht' ht'' hd' hd''
  · by_cases e : d' = d
    · subst e
      rw [Function.update_self] at hd'
      cases hd'
    · rw [hother d' e] at hd' ⊢
      exact h.opened d' hd'
  · by_cases e : d' = d
    · subst e
      rw [Function.update_self]
      exact .inr ⟨h.opened d' hopen, t, ht, by rw [Function.update_self]; rfl⟩
    · rw [hother d' e] at hd' ⊢
      refine (h.released d' hd').imp_right ?_
      rintro ⟨hzero, t', ht', hd''⟩
      refine ⟨hzero, t', ht', ?_⟩
      rw [Function.update_of_ne]
      · exact hd''
      · rintro rfl
        rw [hpc] at hd''
        cases hd''

/-- A thread releases the reference of the stream it has closed. -/
theorem StreamsInv.closeRelease (h : StreamsInv n nrStreams stream thread) (ht : t < n)
    (hpc : thread t = .closeRelease d) :
    StreamsInv n nrStreams
      (Function.update stream d (stream d).release)
      (Function.update thread t .outside) := by
  have hclose : (thread t).closing? = some d := by rw [hpc]; rfl
  obtain ⟨hclosed, hzero⟩ := h.closing t d ht hclose
  have hother : ∀ d', d' ≠ d → Function.update stream d (stream d).release d' = stream d' :=
    fun d' hd' => Function.update_of_ne hd' _ _
  have hsame : ∀ d', (Function.update stream d (stream d).release d').closed =
    (stream d').closed := by
    intro d'
    by_cases e : d' = d
    · subst e
      rw [Function.update_self, DataStream.release]
    · rw [hother d' e]
  refine ⟨h.inRange_move fun d' hd' => (by cases hd'), fun t' d' ht' hd' => ?_,
    fun t' d' ht' hd' => ?_, fun t' t'' d' ht' ht'' hd' hd'' => ?_, fun t' d' ht' hd' => ?_,
    fun t' t'' d' ht' ht'' hd' hd'' => ?_, fun d' hd' => ?_, fun d' hd' => ?_⟩
  · rw [hsame]
    exact h.reading t' d' ht' (update_other rfl hd').2
  · rw [hsame]
    exact h.marking t' d' ht' (update_other rfl hd').2
  · exact h.alone t' t'' d' ht' ht'' (update_other rfl hd').2
      (hd''.imp (fun hd'' => (update_other rfl hd'').2) fun hd'' => (update_other rfl hd'').2)
  · obtain ⟨hne, hd'⟩ := update_other rfl hd'
    have hd : d' ≠ d := by
      rintro rfl
      exact hne (h.closer t t' d' ht ht' hclose hd')
    rw [hother d' hd]
    exact h.closing t' d' ht' hd'
  · exact h.closer t' t'' d' ht' ht'' (update_other rfl hd').2 (update_other rfl hd'').2
  · rw [hsame] at hd'
    have hd : d' ≠ d := by
      rintro rfl
      rw [hclosed] at hd'
      cases hd'
    rw [hother d' hd]
    exact h.opened d' hd'
  · by_cases e : d' = d
    · subst e
      rw [Function.update_self]
      exact .inl (congrArg Nat.succ hzero)
    · rw [hother d' e] at hd' ⊢
      refine (h.released d' hd').imp_right ?_
      rintro ⟨hzero', t', ht', hd''⟩
      refine ⟨hzero', t', ht', ?_⟩
      rw [Function.update_of_ne]
      · exact hd''
      · rintro rfl
        rw [hclose] at hd''
        exact e (Option.some.inj hd'').symm

/-- A new stream. -/
theorem StreamsInv.newStream (h : StreamsInv n nrStreams stream thread) {ds : DataStream}
    (hclosed : ds.closed = false) (hreleases : ds.releases = 0) :
    StreamsInv n (nrStreams + 1) (Function.update stream nrStreams ds) thread := by
  -- no thread works on the new stream
  have hother : ∀ t d, t < n → (thread t).stream? = some d →
      Function.update stream nrStreams ds d = stream d := fun t d ht hd =>
    Function.update_of_ne (Nat.ne_of_lt (h.inRange t d ht hd)) _ _
  refine ⟨fun t' d' ht' hd' => ?_, fun t' d' ht' hd' => ?_, fun t' d' ht' hd' => ?_, h.alone,
    fun t' d' ht' hd' => ?_, h.closer, fun d' hd' => ?_, fun d' hd' => ?_⟩
  · exact Nat.lt_succ_of_lt (h.inRange t' d' ht' hd')
  · rw [hother t' d' ht' (ThreadPc.stream?_of_reading hd')]
    exact h.reading t' d' ht' hd'
  · rw [hother t' d' ht' (ThreadPc.stream?_of_marking hd')]
    exact h.marking t' d' ht' hd'
  · rw [hother t' d' ht' (ThreadPc.stream?_of_closing hd')]
    exact h.closing t' d' ht' hd'
  · by_cases e : d' = nrStreams
    · subst e
      rw [Function.update_self, hreleases]
    · rw [Function.update_of_ne e] at hd' ⊢
      exact h.opened d' hd'
  · by_cases e : d' = nrStreams
    · subst e
      rw [Function.update_self, hclosed] at hd'
      cases hd'
    · rw [Function.update_of_ne e] at hd' ⊢
      exact h.released d' hd'

end Streams

end HdfStream.Streams
