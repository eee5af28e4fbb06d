/-
# The invariant of the ring

`Inv` holds in every reachable state (`inv_reachable`).  Outside a stream (`IdleInv`) a live
worker does not touch the ring and every permit a stream left behind is one that
`shared_data_init_semaphores` can repair.  Inside a stream (`StreamInv`) it has four parts:

* the permits (`TokenRing.Tokens`) and the contents (`Stored`) of the buffers;
* what the worker's control point means for its buffer and for the bytes it was given
  (`WorkerInv`): until a cancel, what was sent is what was posted, then what is in the current
  buffer, then what is left of the current call;
* the same for the client (`ClientInv`): until a cancel, what was received is the blocks it
  has given back.

The two sides interfere through the permits only, so each step is one move of `Tokens`, one of
`Stored`, and a change of one side's part.
-/
import HdfStream.Ring.Window

namespace HdfStream.Ring

open Memory TokenRing

/-! ## 1. Reading the control points -/

def Caller.left : Caller → List UInt8
  | .write left => left
  | .destroy _ => []

def Caller.code : Caller → Option Int
  | .write _ => none
  | .destroy code => some code

namespace WorkerPc

/-- Inside a stream, from the start of the packer to the post of the zero sized block. -/
def inStream : WorkerPc → Bool
  | .command | .finished => false
  | _ => true

/-- Past the wait for the current buffer and before its post. -/
def holding : WorkerPc → Bool
  | .command | .finished | .claim _ | .flushWait _ => false
  | _ => true

/-- Bytes of the running write call that are not copied yet. -/
def left : WorkerPc → List UInt8
  | .claim caller | .reset caller | .flushStatus caller | .flushUsed caller | .flushPost caller
  | .flushWait caller => caller.left
  | .copy left => left
  | _ => []

/-- The return code the running destroy call will publish. -/
def code : WorkerPc → Option Int
  | .claim caller | .reset caller | .flushStatus caller | .flushUsed caller | .flushPost caller
  | .flushWait caller => caller.code
  | .publish code => some code
  | _ => none

/-- In a flush that has found the stream not cancelled. -/
def committed : WorkerPc → Bool
  | .flushUsed _ | .flushPost _ => true
  | _ => false

/-- Past the point where buffered data is discarded. -/
def discards : WorkerPc → Bool
  | .publish _ | .post => true
  | _ => false

/-- Control points where the buffer it holds is empty. -/
def emptied : WorkerPc → Bool
  | .reset _ | .post => true
  | _ => false

/-- Control points a worker without a buffer can be at. -/
def unclaimed : WorkerPc → Bool
  | .between | .flushStatus (.destroy _) | .flushUsed (.destroy _) => true
  | _ => false

end WorkerPc

/-- The worker owns the buffer `bufferNr`. -/
def Worker.holds (w : Worker) : Bool := w.pc.holding && w.bufferNr.isSome

namespace ClientPc

/-- A stream is open. -/
def hasStream : ClientPc → Bool
  | .closed | .setStatus _ | .initSemaphores _ | .request _ => false
  | _ => true

/-- Past the wait for the next buffer and before its post. -/
def holding : ClientPc → Bool
  | .readUsed _ | .copyOut _ _ | .resetUsed _ | .post _ => true
  | _ => false

/-- The buffer it holds is emptied. -/
def emptied : ClientPc → Bool
  | .post _ => true
  | _ => false

/-- The running call of `hdfstream_read_chunk`, and whose it is. -/
def mode : ClientPc → Option Mode
  | .wait m | .readUsed m | .copyOut m _ | .resetUsed m | .post m => some m
  | _ => none

/-- The requested buffer size, in an open call. -/
def opening : ClientPc → Option Nat
  | .setStatus n | .initSemaphores n | .request n => some n
  | _ => none

end ClientPc

/-- The client owns the buffer `nextBuffer`.  It never gives the final one back. -/
def State.clientHolds (s : State) : Bool := s.client.pc.holding || s.log.result.isSome

/-- The block posted at an absolute position. -/
def Log.block (l : Log) (b : Nat) : List UInt8 := l.posted.getD b []

/-- Bytes copied into the worker's buffer and not posted yet. -/
def State.pending (cfg : Config) (s : State) : List UInt8 :=
  if s.worker.holds && !s.worker.pc.discards then
    content cfg (BufferData.used ∘ s.shared.buffer) s.shared.mem
      (s.log.posted.length % cfg.nrBuffers)
  else []

/-! ## 2. The invariant -/

/-- Lengths a block of data may have. -/
def Log.DataBlock (l : Log) (blk : List UInt8) : Prop :=
  1 ≤ blk.length ∧ blk.length ≤ l.bufferSize

/-- The worker's part. -/
structure WorkerInv (cfg : Config) (s : State) : Prop where
  size : s.worker.pc.inStream = true → s.worker.bufferSize = s.log.bufferSize
  unclaimed : s.worker.pc.inStream = true → s.worker.bufferNr = none →
    s.log.posted = [] ∧ s.log.sent = [] ∧ s.worker.pc.unclaimed = true
  claimed : s.worker.pc.inStream = true → ∀ j, s.worker.bufferNr = some j →
    j = s.log.posted.length % cfg.nrBuffers
  posted : s.worker.pc.inStream = true → ∀ blk ∈ s.log.posted, s.log.DataBlock blk
  ended : s.worker.pc.inStream = false → ∃ q code, s.log.posted = q ++ [[]] ∧
    (∀ blk ∈ q, s.log.DataBlock blk) ∧ s.log.code = some code ∧
    (s.shared.buffer (q.length % cfg.nrBuffers)).status = code
  code : ∀ code, s.worker.pc.code = some code → s.log.code = some code
  fits : s.worker.holds = true →
    (s.shared.buffer (s.log.posted.length % cfg.nrBuffers)).used ≤ s.log.bufferSize
  empty : s.worker.pc.emptied = true →
    (s.shared.buffer (s.log.posted.length % cfg.nrBuffers)).used = 0
  status : s.worker.pc = .post →
    s.log.code = some (s.shared.buffer (s.log.posted.length % cfg.nrBuffers)).status
  nonempty : ∀ caller, s.worker.pc = .flushPost caller →
    0 < (s.shared.buffer (s.log.posted.length % cfg.nrBuffers)).used
  initial : s.log.posted.flatten <+: s.log.sent
  exact : s.shared.status = statusOk ∨ s.worker.pc.committed = true →
    s.log.sent = s.log.posted.flatten ++ s.pending cfg ++ s.worker.pc.left

/-- The client's part. -/
structure ClientInv (cfg : Config) (s : State) : Prop where
  next : s.client.nextBuffer = s.log.consumed % cfg.nrBuffers
  running : s.client.pc ≠ .streaming → s.client.ended = false ∧ s.log.result = none
  uncancelled : s.client.pc.mode ≠ some .close → s.shared.status = statusOk
  cancelled : s.client.pc.mode = some .close → s.shared.status = statusCancel
  copying : ∀ m n, s.client.pc = .copyOut m n →
    n = (s.log.block s.log.consumed).length ∧ s.log.block s.log.consumed ≠ []
  copied : ∀ m, s.client.pc = .resetUsed m ∨ s.client.pc = .post m →
    s.log.block s.log.consumed ≠ [] ∧ (m = .read → s.client.outBuf = s.log.block s.log.consumed)
  result : ∀ st, s.log.result = some st → s.log.code = some st ∧
    s.log.posted.length = s.log.consumed + 1 ∧ s.worker.pc.inStream = false ∧
    s.client.ended = true ∧ s.client.status = st
  failed : s.client.ended = true → s.log.result = none → s.worker.dead = true
  got : s.log.got <+: s.log.posted.flatten
  gotAll : s.shared.status = statusOk → s.log.got = (s.log.posted.take s.log.consumed).flatten
  given : ∀ b, b < s.log.consumed → s.log.block b ≠ []

/-- While a stream is open. -/
structure StreamInv (cfg : Config) (s : State) : Prop where
  size : 1 ≤ s.log.bufferSize ∧ s.log.bufferSize ≤ cfg.bufferSize
  tokens : Tokens cfg.nrBuffers (BufferData.readyForWrite ∘ s.shared.buffer)
    (BufferData.readyForRead ∘ s.shared.buffer) s.log.posted.length s.log.consumed
    s.worker.holds s.clientHolds
  stored : Stored cfg (BufferData.used ∘ s.shared.buffer) s.shared.mem s.log.posted
    s.log.consumed s.worker.holds s.client.pc.emptied
  worker : WorkerInv cfg s
  client : ClientInv cfg s

/-- While no stream is open. -/
structure IdleInv (cfg : Config) (s : State) : Prop where
  quiet : s.worker.dead = false → s.worker.pc.inStream = false
  fits : ∀ j, (s.shared.buffer j).used ≤ cfg.bufferSize
  permits : s.worker.dead = false → ∀ j, j < cfg.nrBuffers →
    (s.shared.buffer j).readyForRead = 0 ∧ (s.shared.buffer j).readyForWrite ≤ 1
  ready : ∀ n, s.client.pc = .request n → s.worker.dead = false → ∀ j, j < cfg.nrBuffers →
    (s.shared.buffer j).readyForWrite = 1 ∧ (s.shared.buffer j).used = 0
  status : ∀ n, s.client.pc = .initSemaphores n ∨ s.client.pc = .request n →
    s.shared.status = statusOk
  size : ∀ n, s.client.pc.opening = some n → 1 ≤ n
  got : s.log.got <+: s.log.sent
  result : ∀ st, s.log.result = some st → s.log.code = some st

/-- The invariant of the machine. -/
structure Inv (cfg : Config) (s : State) : Prop where
  layout : Layout cfg s.shared.buffer
  stream : s.client.pc.hasStream = true → StreamInv cfg s
  idle : s.client.pc.hasStream = false → IdleInv cfg s

variable {cfg : Config} {s s' : State}

/-! ## 3. What one side's steps leave of the other side's part -/

theorem WorkerPc.holding_inStream {pc : WorkerPc} (h : pc.holding = true) :
    pc.inStream = true := by
  cases pc <;> first | rfl | simp [WorkerPc.holding] at h

theorem Worker.holds_inStream {w : Worker} (h : w.holds = true) : w.pc.inStream = true := by
  simp only [Worker.holds, Bool.and_eq_true] at h
  exact WorkerPc.holding_inStream h.1

/-- A worker in a stream that is past the first claim has a buffer. -/
theorem WorkerInv.bufferNr (h : WorkerInv cfg s) (hin : s.worker.pc.inStream = true)
    (hu : s.worker.pc.unclaimed = false) :
    s.worker.bufferNr = some (s.log.posted.length % cfg.nrBuffers) := by
  cases hb : s.worker.bufferNr with
  | none =>
    have := (h.unclaimed hin hb).2.2
    rw [hu] at this
    exact absurd this (by simp)
  | some j => rw [h.claimed hin j hb]

/-- While the worker is in the stream no status has been received. -/
theorem ClientInv.result_none (h : ClientInv cfg s) (hin : s.worker.pc.inStream = true) :
    s.log.result = none := by
  cases hr : s.log.result with
  | none => rfl
  | some st =>
    have := (h.result st hr).2.2.1
    rw [hin] at this
    exact absurd this (by simp)

/-- **What a step of the worker may change of the client's part**: it may post blocks and end
the stream, as long as it leaves the client, the status flag and what was received alone. -/
theorem ClientInv.of_worker (h : ClientInv cfg s) (hin : s.worker.pc.inStream = true)
    (ht : s.client.pc.holding = true → s.log.consumed < s.log.posted.length)
    (hle : s.log.consumed ≤ s.log.posted.length)
    (hclient : s'.client = s.client) (hstatus : s'.shared.status = s.shared.status)
    (hdead : s'.worker.dead = s.worker.dead) (hcons : s'.log.consumed = s.log.consumed)
    (hgot : s'.log.got = s.log.got) (hres : s'.log.result = s.log.result)
    (hposted : s.log.posted <+: s'.log.posted) : ClientInv cfg s' := by
  have hnone := h.result_none hin
  obtain ⟨more, hmore⟩ := hposted
  have hblock : ∀ b, b < s.log.posted.length → s'.log.block b = s.log.block b := by
    intro b hb
    unfold Log.block
    rw [← hmore, List.getD_append _ _ _ _ hb]
  refine ⟨?_, ?_, ?_, ?_, ?_, ?_, ?_, ?_, ?_, ?_, ?_⟩
  · rw [hclient, hcons]
    exact h.next
  · rw [hclient, hres]
    exact h.running
  · rw [hclient, hstatus]
    exact h.uncancelled
  · rw [hclient, hstatus]
    exact h.cancelled
  · intro m n hpc
    rw [hclient] at hpc
    rw [hcons, hblock _ (ht (by rw [hpc]; rfl))]
    exact h.copying m n hpc
  · intro m hpc
    rw [hclient] at hpc
    rw [hcons, hclient, hblock _ (ht (by rcases hpc with e | e <;> rw [e] <;> rfl))]
    exact h.copied m hpc
  · intro st hst
    rw [hres, hnone] at hst
    exact absurd hst (by simp)
  · rw [hclient, hres, hdead]
    exact h.failed
  · rw [hgot, ← hmore, List.flatten_append]
    exact h.got.trans (List.prefix_append _ _)
  · rw [hgot, hstatus, hcons, ← hmore, List.take_append_of_le_length hle]
    exact h.gotAll
  · intro b hb
    rw [hcons] at hb
    rw [hblock b (hb.trans_le hle)]
    exact h.given b hb

/-- **What a step of the client may change of the worker's part**: it may cancel the stream and
empty buffers the worker does not hold. -/
theorem WorkerInv.of_client (h : WorkerInv cfg s) (hworker : s'.worker = s.worker)
    (hsize : s'.log.bufferSize = s.log.bufferSize) (hsent : s'.log.sent = s.log.sent)
    (hcode : s'.log.code = s.log.code) (hposted : s'.log.posted = s.log.posted)
    (hstatus : s'.shared.status = statusOk → s.shared.status = statusOk)
    (hmem : s'.shared.mem = s.shared.mem)
    (hbuf : ∀ j, (s'.shared.buffer j).status = (s.shared.buffer j).status)
    (hused : s.worker.holds = true →
      (s'.shared.buffer (s.log.posted.length % cfg.nrBuffers)).used =
        (s.shared.buffer (s.log.posted.length % cfg.nrBuffers)).used) : WorkerInv cfg s' := by
  have hblk : ∀ blk, s'.log.DataBlock blk ↔ s.log.DataBlock blk := fun blk => by
    simp only [Log.DataBlock, hsize]
  have hholds : s.worker.pc.holding = true → s.worker.pc.unclaimed = false →
      s.worker.holds = true := by
    intro h1 h2
    simp only [Worker.holds, h1, h.bufferNr (WorkerPc.holding_inStream h1) h2,
      Option.isSome_some, Bool.and_self]
  refine ⟨?_, ?_, ?_, ?_, ?_, ?_, ?_, ?_, ?_, ?_, ?_, ?_⟩
  · rw [hworker, hsize]
    exact h.size
  · rw [hworker, hposted, hsent]
    exact h.unclaimed
  · rw [hworker, hposted]
    exact h.claimed
  · intro hin blk
    rw [hposted, hblk]
    rw [hworker] at hin
    exact h.posted hin blk
  · intro hin
    rw [hworker] at hin
    obtain ⟨q, code, h1, h2, h3, h4⟩ := h.ended hin
    exact ⟨q, code, hposted.trans h1, fun blk hm => (hblk blk).mpr (h2 blk hm), hcode.trans h3,
      (hbuf _).trans h4⟩
  · rw [hworker, hcode]
    exact h.code
  · intro hh
    rw [hworker] at hh
    rw [hposted, hsize, hused hh]
    exact h.fits hh
  · intro he
    rw [hworker] at he
    have hh := hholds (by cases hp : s.worker.pc <;> simp_all [WorkerPc.emptied, WorkerPc.holding])
      (by cases hp : s.worker.pc <;> simp_all [WorkerPc.emptied, WorkerPc.unclaimed])
    rw [hposted, hused hh]
    exact h.empty he
  · rw [hworker, hcode, hposted, hbuf]
    exact h.status
  · intro caller hp
    rw [hworker] at hp
    have hh := hholds (by rw [hp]; rfl) (by rw [hp]; rfl)
    rw [hposted, hused hh]
    exact h.nonempty caller hp
  · rw [hposted, hsent]
    exact h.initial
  · intro hs
    have hpend : s'.pending cfg = s.pending cfg := by
      unfold State.pending
      rw [hworker, hposted, hmem]
      split
      · rename_i hh
        simp only [Bool.and_eq_true] at hh
        simp only [content, Function.comp_apply, hused hh.1]
      · rfl
    rw [hsent, hposted, hpend, hworker]
    rw [hworker] at hs
    exact h.exact (hs.imp_left hstatus)

end HdfStream.Ring
