/-
# What a stream delivers

Consequences of the invariant (`inv_reachable`) for a client that reads: buffers are never
shared, what was read is a prefix of what was written and all of it at the end of the stream,
the zero sized block comes last and carries the return code, and every copy of the worker
stays inside the buffer it owns.  They are put together in `fifo`.

`written` and `returnCode` read what was sent off the ACTIONS of the run, so that the
statements do not rest on the log alone.
-/
import HdfStream.Ring.Runs

namespace HdfStream.Ring

open Memory TokenRing

variable {cfg : Config} {status : Int} {mem : Nat → UInt8} {s s' : State}

/-! ## 1. What a run has asked the current stream to send -/

/-- The bytes of the calls of `msgpack_chunkbuffer_write`. -/
def writtenStep (acc : List UInt8) : Action → List UInt8
  | .accept => []
  | .write buf => acc ++ buf
  | _ => acc

/-- The bytes written since the current stream was accepted. -/
def written (tr : List Action) : List UInt8 := tr.foldl writtenStep []

def returnCodeStep (acc : Option Int) : Action → Option Int
  | .accept => none
  | .destroy code => some code
  | _ => acc

/-- The code the current stream was destroyed with. -/
def returnCode (tr : List Action) : Option Int := tr.foldl returnCodeStep none

/-- A step of the worker sends nothing and ends nothing by itself. -/
theorem workerStep_log (h' : workerStep cfg s = some s') :
    s'.log.sent = s.log.sent ∧ s'.log.code = s.log.code := by
  cases hpc : s.worker.pc <;> cases hb : s.worker.bufferNr
  all_goals
    simp only [workerStep, hpc, hb] at h'
    try split at h'
  all_goals cases h'
  all_goals exact ⟨rfl, rfl⟩

theorem clientStep_log (h' : clientStep cfg s = some s') :
    s'.log.sent = s.log.sent ∧ s'.log.code = s.log.code := by
  cases hpc : s.client.pc
  all_goals
    simp only [clientStep, hpc] at h'
    try split at h'
  all_goals cases h'
  all_goals exact ⟨rfl, rfl⟩

theorem exec_log {a : Action} (h' : exec cfg s a = some s') :
    s'.log.sent = writtenStep s.log.sent a ∧ s'.log.code = returnCodeStep s.log.code a := by
  cases a with
  | worker =>
    simp only [exec] at h'
    split at h'
    · exact absurd h' (by simp)
    · exact workerStep_log h'
  | client => exact clientStep_log h'
  | die =>
    cases h'
    exact ⟨rfl, rfl⟩
  | _ =>
    simp only [exec] at h'
    repeat' split at h'
    all_goals cases h'
    all_goals exact ⟨rfl, rfl⟩

/-- **The log is the history.** -/
theorem run_log {tr : List Action} (h : (machine cfg status mem).run tr = some s) :
    s.log.sent = written tr ∧ s.log.code = returnCode tr := by
  refine (machine cfg status mem).run_induction
    (I := fun tr s => s.log.sent = written tr ∧ s.log.code = returnCode tr) ⟨rfl, rfl⟩ ?_ tr s h
  intro tr s a s' _ hi h'
  obtain ⟨h1, h2⟩ := exec_log h'
  rw [hi.1] at h1
  rw [hi.2] at h2
  refine ⟨h1.trans ?_, h2.trans ?_⟩
  · simp only [written, List.foldl_append, List.foldl_cons, List.foldl_nil]
  · simp only [returnCode, List.foldl_append, List.foldl_cons, List.foldl_nil]

/-! ## 2. Who touches which buffer -/

/-- The next instruction of the worker reads or writes `used`, `status` or the bytes of buffer
`j`.  A dead worker has no next instruction. -/
def Worker.Accesses (w : Worker) (j : Nat) : Prop :=
  w.dead = false ∧ w.bufferNr = some j ∧
    match w.pc with
    | .reset _ | .copy _ | .flushUsed _ | .publish _ => True
    | _ => False

/-- The same for the client.  `shared_data_init_semaphores` goes through all buffers. -/
def Client.Accesses (cfg : Config) (c : Client) (j : Nat) : Prop :=
  match c.pc with
  | .initSemaphores _ => j < cfg.nrBuffers
  | .readUsed _ | .copyOut _ _ | .resetUsed _ => j = c.nextBuffer
  | _ => False

theorem Worker.Accesses.holds {w : Worker} {j : Nat} (h : w.Accesses j) : w.holds = true := by
  obtain ⟨-, hb, hpc⟩ := h
  cases hp : w.pc <;> rw [hp] at hpc <;>
    first
    | exact hpc.elim
    | simp [Worker.holds, hp, hb, WorkerPc.holding]

theorem Client.Accesses.holding {c : Client} {j : Nat} (h : c.Accesses cfg j) :
    (c.pc.hasStream = false ∧ ∃ n, c.pc = .initSemaphores n) ∨
      (c.pc.hasStream = true ∧ c.pc.holding = true ∧ j = c.nextBuffer) := by
  unfold Client.Accesses at h
  cases hp : c.pc <;> rw [hp] at h
  case initSemaphores n => exact Or.inl ⟨rfl, n, rfl⟩
  case readUsed m => exact Or.inr ⟨rfl, rfl, h⟩
  case copyOut m n => exact Or.inr ⟨rfl, rfl, h⟩
  case resetUsed m => exact Or.inr ⟨rfl, rfl, h⟩
  all_goals exact h.elim

/-- **Exclusive ownership.**  No buffer is touched by both sides. -/
theorem Inv.exclusive (h : Inv cfg s) {j : Nat} (hw : s.worker.Accesses j)
    (hc : s.client.Accesses cfg j) : False := by
  have hh := hw.holds
  rcases hc.holding with ⟨hstream, -⟩ | ⟨hstream, hch, hj⟩
  · -- outside a stream a live worker is quiet
    have hquiet := (h.idle hstream).quiet hw.1
    rw [Worker.holds_inStream hh] at hquiet
    exact absurd hquiet (by simp)
  · have hs := h.stream hstream
    have ht := hs.tokens
    rw [hh, State.clientHolds, hch, Bool.true_or] at ht
    have hwj := hs.worker.claimed (Worker.holds_inStream hh) j hw.2.1
    exact ht.exclusive (by rw [← hwj, ← hs.client.next, hj])

/-! ## 3. Where the worker's copies go -/

/-- The `memcpy` the worker executes next: the buffer, the first address, the length. -/
def State.nextCopy (s : State) : Option (Nat × Nat × Nat) :=
  match s.worker.pc, s.worker.bufferNr with
  | .copy left, some j =>
    if left = [] then none
    else
      let b := s.shared.buffer j
      some (j, b.offset + b.used, nrToCopy s.worker.bufferSize b.used left)
  | _, _ => none

/-- **No copy leaves the buffer the worker owns**, cancelled stream or not. -/
theorem Inv.nextCopy_bounds (h : Inv cfg s) (hdead : s.worker.dead = false) {j a n : Nat}
    (hcopy : s.nextCopy = some (j, a, n)) :
    j < cfg.nrBuffers ∧ s.worker.bufferNr = some j ∧ s.worker.Accesses j ∧ cfg.offset j ≤ a ∧
      a + n ≤ cfg.offset j + s.log.bufferSize ∧ s.log.bufferSize ≤ cfg.bufferSize := by
  unfold State.nextCopy at hcopy
  split at hcopy
  · rename_i left i hpc hb
    split at hcopy
    · exact absurd hcopy (by simp)
    · simp only [Option.some.injEq, Prod.mk.injEq] at hcopy
      obtain ⟨rfl, rfl, rfl⟩ := hcopy
      have hin : s.worker.pc.inStream = true := by rw [hpc]; rfl
      cases hstream : s.client.pc.hasStream with
      | false =>
        have hquiet := (h.idle hstream).quiet hdead
        rw [hin] at hquiet
        exact absurd hquiet (by simp)
      | true =>
        have hs := h.stream hstream
        have hh : s.worker.holds = true := by simp [Worker.holds, hpc, hb, WorkerPc.holding]
        have hi := hs.worker.claimed hin i hb
        have hfits := hs.worker.fits hh
        have hsize := hs.worker.size hin
        rw [← hi] at hfits
        have hn := (nrToCopy_le left (hfits.trans_eq hsize.symm)
          (hsize.trans_lt (hs.size.2.trans_lt cfg.bufferSize_lt))).2
        rw [h.layout i]
        refine ⟨?_, hb, ⟨hdead, hb, by rw [hpc]; trivial⟩, by omega, by omega, hs.size.2⟩
        rw [hi]
        exact Nat.mod_lt _ cfg.nrBuffers_pos
  · exact absurd hcopy (by simp)

/-! ## 4. What is delivered -/

/-- At every moment, in a stream or after it, what was read is a prefix of what was written. -/
theorem Inv.got_prefix (h : Inv cfg s) : s.log.got <+: s.log.sent := by
  cases hstream : s.client.pc.hasStream with
  | true => exact (h.stream hstream).client.got.trans (h.stream hstream).worker.initial
  | false => exact (h.idle hstream).got

/-- **The end of a stream.**  When a read returns 0 for a live worker, everything written has
been read, and the caller has the return code. -/
theorem Inv.got_all (h : Inv cfg s) (hpc : s.client.pc = .streaming)
    (hend : s.client.ended = true) (hdead : s.worker.dead = false) :
    s.log.got = s.log.sent ∧ s.log.code = some s.client.status := by
  have hs := h.stream (by rw [hpc]; rfl)
  have hc := hs.client
  have hok := hc.uncancelled (by rw [hpc]; simp [ClientPc.mode])
  cases hr : s.log.result with
  | none =>
    rw [hc.failed hend hr] at hdead
    exact absurd hdead (by simp)
  | some st =>
    obtain ⟨hcode, hlen, hin, -, hst⟩ := hc.result st hr
    refine ⟨?_, by rw [hcode, hst]⟩
    obtain ⟨q, code, hq, -, -, -⟩ := hs.worker.ended hin
    have hexact := hs.worker.exact (Or.inl hok)
    have hleft : s.worker.pc.left = [] := by
      cases hp : s.worker.pc <;> rw [hp] at hin <;>
        first
        | rfl
        | exact absurd hin (by simp [WorkerPc.inStream])
    have hpend : s.pending cfg = [] := by
      refine State.pending_nil ?_
      by_contra hne
      rw [Worker.holds_inStream (by simpa using hne)] at hin
      exact absurd hin (by simp)
    -- all blocks but the zero sized one are given back
    rw [hq, List.length_append, List.length_singleton, Nat.add_right_cancel_iff] at hlen
    rw [hc.gotAll hok, hexact, hpend, hleft, hq, ← hlen]
    simp

/-- **The blocks of a stream**: data blocks that are neither empty nor too long, then, once the
destroy call is done, one zero sized block. -/
theorem Inv.blocks (h : Inv cfg s) (hstream : s.client.pc.hasStream = true) :
    ∃ q, (∀ blk ∈ q, 1 ≤ blk.length ∧ blk.length ≤ s.log.bufferSize) ∧
      s.log.posted = if s.worker.pc.inStream then q else q ++ [[]] := by
  have hw := (h.stream hstream).worker
  cases hin : s.worker.pc.inStream with
  | true => exact ⟨s.log.posted, hw.posted hin, rfl⟩
  | false =>
    obtain ⟨q, -, hq, hdata, -⟩ := hw.ended hin
    exact ⟨q, hdata, hq⟩

/-- **A lossless FIFO with exclusive buffers.**  After every run: no buffer is touched by both
sides; the bytes read are a prefix of the bytes written, and when a read has returned 0 for a
live worker they are all of them and the status is the return code; the blocks are data blocks
of the right size and at most one zero sized block, the last; and every copy of the worker
stays inside the buffer it owns. -/
theorem fifo (cfg : Config) (status : Int) (mem : Nat → UInt8) (tr : List Action) (s : State)
    (h : (machine cfg status mem).run tr = some s) :
    (∀ j, ¬ (s.worker.Accesses j ∧ s.client.Accesses cfg j)) ∧
    s.log.got <+: written tr ∧
    (s.client.pc = .streaming → s.client.ended = true → s.worker.dead = false →
      s.log.got = written tr ∧ returnCode tr = some s.client.status) ∧
    (s.client.pc.hasStream = true → ∃ q,
      (∀ blk ∈ q, 1 ≤ blk.length ∧ blk.length ≤ s.log.bufferSize) ∧
      s.log.posted = if s.worker.pc.inStream then q else q ++ [[]]) ∧
    (∀ j a n, s.worker.dead = false → s.nextCopy = some (j, a, n) →
      j < cfg.nrBuffers ∧ s.worker.Accesses j ∧ cfg.offset j ≤ a ∧
      a + n ≤ cfg.offset j + s.log.bufferSize ∧ s.log.bufferSize ≤ cfg.bufferSize) := by
  have hi : Inv cfg s := inv_reachable ⟨tr, h⟩
  obtain ⟨hsent, hcode⟩ := run_log h
  refine ⟨fun j hj => hi.exclusive hj.1 hj.2, ?_, ?_, hi.blocks, ?_⟩
  · rw [← hsent]
    exact hi.got_prefix
  · intro hpc hend hdead
    rw [← hsent, ← hcode]
    exact hi.got_all hpc hend hdead
  · intro j a n hdead hcopy
    obtain ⟨h1, -, h3, h4, h5, h6⟩ := hi.nextCopy_bounds hdead hcopy
    exact ⟨h1, h3, h4, h5, h6⟩

/-- A ring of one buffer of two bytes. -/
def oneBuffer : Config where
  nrBuffers := 1
  bufferSize := 2
  headerSize := 0
  nrBuffers_pos := by decide
  bufferSize_pos := by decide
  bufferSize_lt := by decide

/-- A stream of three bytes through it, in blocks of two and one, read to its end. -/
def threeBytes : List Action :=
  [.open 2, .client, .client, .accept, .write [1, 2, 3],
    .worker, .worker, .worker, .worker, .worker, .worker,
    .read, .client, .client, .client, .client, .client,
    .worker, .worker, .worker, .worker, .worker,
    .read, .client, .client, .client, .client, .client,
    .worker, .worker, .destroy 7, .worker, .worker, .worker, .worker,
    .read, .client, .client]

theorem threeBytes_end : ((machine oneBuffer 0 (fun _ => 0)).run threeBytes).map
    (fun s => (s.client.pc, s.client.ended, s.worker.dead)) = some (.streaming, true, false) := by
  decide +kernel

theorem fifo_threeBytes : ∃ s, (machine oneBuffer 0 (fun _ => 0)).run threeBytes = some s ∧
    s.log.got = [1, 2, 3] ∧ s.client.status = 7 := by
  obtain ⟨s, hrun, hs⟩ := Option.map_eq_some_iff.mp threeBytes_end
  simp only [Prod.mk.injEq] at hs
  obtain ⟨hpc, hend, hdead⟩ := hs
  obtain ⟨-, -, hall, -⟩ := fifo oneBuffer 0 (fun _ => 0) threeBytes s hrun
  obtain ⟨hgot, hcode⟩ := hall hpc hend hdead
  have hwritten : written threeBytes = [1, 2, 3] := by decide
  have hreturn : returnCode threeBytes = some 7 := by decide
  refine ⟨s, hrun, hgot.trans hwritten, ?_⟩
  rw [hreturn, Option.some.injEq] at hcode
  exact hcode.symm

end HdfStream.Ring
