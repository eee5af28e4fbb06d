/-
# Closing a stream, and the streams after it

A client may close a stream at any moment, and the worker learns of it only when a flush reads
the cancel flag.  This file draws the consequences of the invariant for that:

* `no_deadlock`: as long as the zero sized block has not been received, one of the two sides
  can go on.  If both waited for a permit, the ring would be full and empty at once;
* `Inv.idle_worker` and `Inv.initSemaphores`: when the close returns, a live worker does not
  touch the ring any more, and the next `shared_data_init_semaphores` finds permits it can
  repair;
* `session`: so every stream starts from the same ring, and nothing of an earlier stream is
  delivered by a later one.
-/
import HdfStream.Ring.Fifo

namespace HdfStream.Ring

open Memory TokenRing

variable {cfg : Config} {status : Int} {mem : Nat → UInt8} {s s' : State}

/-! ## 1. One side can go on -/

/-- Steps of the worker process: its instructions and the calls of its packer. -/
def Action.byWorker : Action → Bool
  | .worker | .write _ | .destroy _ => true
  | _ => false

/-- Steps of a client inside a call of `hdfstream_read_chunk` or `hdfstream_close_stream`. -/
def Action.inCall : Action → Bool
  | .client | .waitFailed => true
  | _ => false

/-- Steps of a client between two calls. -/
def Action.starts : Action → Bool
  | .read | .close => true
  | _ => false

/-- A step of one of the two sides is possible. -/
def State.CanStep (cfg : Config) (s : State) (which : Action → Bool) : Prop :=
  ∃ a, which a = true ∧ (exec cfg s a).isSome = true

/-- A worker that waits for no permit and is in the stream has an enabled step. -/
theorem StreamInv.worker_canStep (h : StreamInv cfg s) (hdead : s.worker.dead = false)
    (hin : s.worker.pc.inStream = true)
    (hwait : s.worker.holds = false → s.worker.bufferNr.isSome = true →
      0 < (s.shared.buffer (s.log.posted.length % cfg.nrBuffers)).readyForWrite) :
    s.CanStep cfg Action.byWorker := by
  have run : (Ring.workerStep cfg s).isSome = true → s.CanStep cfg Action.byWorker := fun hs =>
    ⟨.worker, rfl, by simpa [exec, hdead] using hs⟩
  have hbuffer := fun hu => h.worker.bufferNr hin hu
  cases hpc : s.worker.pc with
  | command => rw [hpc] at hin; exact absurd hin (by simp [WorkerPc.inStream])
  | finished => rw [hpc] at hin; exact absurd hin (by simp [WorkerPc.inStream])
  | between =>
    refine ⟨.destroy 0, rfl, ?_⟩
    simp [exec, hpc, hdead]
  | claim caller =>
    have hb := hbuffer (by rw [hpc]; rfl)
    have hp := hwait (by simp [Worker.holds, hpc, WorkerPc.holding]) (by rw [hb]; rfl)
    refine run ?_
    simp only [Ring.workerStep, hpc, hb, if_pos hp, Option.isSome_some]
  | flushWait caller =>
    have hb := hbuffer (by rw [hpc]; rfl)
    have hp := hwait (by simp [Worker.holds, hpc, WorkerPc.holding]) (by rw [hb]; rfl)
    refine run ?_
    simp only [Ring.workerStep, hpc, hb, if_pos hp, Option.isSome_some]
  | reset caller =>
    have hb := hbuffer (by rw [hpc]; rfl)
    exact run (by simp only [Ring.workerStep, hpc, hb, Option.isSome_some])
  | copy left =>
    have hb := hbuffer (by rw [hpc]; rfl)
    refine run ?_
    simp only [Ring.workerStep, hpc, hb]
    split <;> rfl
  | flushStatus caller =>
    refine run ?_
    simp only [Ring.workerStep, hpc]
    split <;> rfl
  | flushUsed caller =>
    refine run ?_
    cases hb : s.worker.bufferNr with
    | none => simp only [Ring.workerStep, hpc, hb, Option.isSome_some]
    | some j =>
      simp only [Ring.workerStep, hpc, hb]
      split <;> rfl
  | flushPost caller =>
    have hb := hbuffer (by rw [hpc]; rfl)
    exact run (by simp only [Ring.workerStep, hpc, hb, Option.isSome_some])
  | publish code =>
    have hb := hbuffer (by rw [hpc]; rfl)
    exact run (by simp only [Ring.workerStep, hpc, hb, Option.isSome_some])
  | post =>
    have hb := hbuffer (by rw [hpc]; rfl)
    exact run (by simp only [Ring.workerStep, hpc, hb, Option.isSome_some])

/-- A client in a call that waits for no permit has an enabled step. -/
theorem client_canStep (hcall : s.client.pc.hasStream = true) (hpc : s.client.pc ≠ .streaming)
    (hwait : ∀ mode, s.client.pc = .wait mode →
      0 < (s.shared.buffer s.client.nextBuffer).readyForRead) :
    s.CanStep cfg Action.inCall := by
  refine ⟨.client, rfl, ?_⟩
  cases hp : s.client.pc with
  | streaming => exact absurd hp hpc
  | wait mode => simp only [exec, clientStep, hp, if_pos (hwait mode hp), Option.isSome_some]
  | readUsed mode =>
    simp only [exec, clientStep, hp]
    split <;> rfl
  | copyOut mode n => simp only [exec, clientStep, hp, Option.isSome_some]
  | resetUsed mode => simp only [exec, clientStep, hp, Option.isSome_some]
  | post mode => simp only [exec, clientStep, hp, Option.isSome_some]
  | setCancel => simp only [exec, clientStep, hp, Option.isSome_some]
  | _ => rw [hp] at hcall; exact absurd hcall (by simp [ClientPc.hasStream])

/-- **No deadlock in a call.**  Wherever a read or a close stands, the worker or the client
can take its next step. -/
theorem Inv.call_canStep (h : Inv cfg s) (hstream : s.client.pc.hasStream = true)
    (hpc : s.client.pc ≠ .streaming) :
    s.CanStep cfg Action.byWorker ∨ s.CanStep cfg Action.inCall := by
  have hs := h.stream hstream
  by_cases hwait : ∃ mode, s.client.pc = .wait mode
  · obtain ⟨mode, hmode⟩ := hwait
    cases hdead : s.worker.dead with
    | true => exact Or.inr ⟨.waitFailed, rfl, by simp [exec, hmode, hdead]⟩
    | false =>
      by_cases hr : 0 < (s.shared.buffer s.client.nextBuffer).readyForRead
      · exact Or.inr (client_canStep hstream hpc fun _ _ => hr)
      · -- the client finds no permit: every posted block is given back
        have hch : s.clientHolds = false := by
          rw [hs.clientHolds_running hpc, hmode]
          rfl
        have ht := hs.tokens
        rw [hch] at ht
        rw [hs.client.next] at hr
        have hempty := ht.empty_of_no_read (Nat.eq_zero_of_not_pos hr) cfg.nrBuffers_pos
        refine Or.inl (hs.worker_canStep hdead ?_ ?_)
        · -- a worker that has left the stream has posted a block the client has not received
          by_contra hout
          rw [Bool.not_eq_true] at hout
          obtain ⟨q, code, hq, -, -, -⟩ := hs.worker.ended hout
          have hlen : q.length < s.log.consumed := by
            rw [← hempty, hq]
            simp
          refine hs.client.given q.length hlen ?_
          simp [Log.block, hq]
        · intro hh _
          rw [hh] at ht
          by_contra hw
          have hfull := ht.full_of_no_write (Nat.eq_zero_of_not_pos hw)
          have := cfg.nrBuffers_pos
          omega
  · refine Or.inr (client_canStep hstream hpc fun mode hmode => ?_)
    exact absurd ⟨mode, hmode⟩ hwait

/-- Between two calls the client may always close the stream. -/
theorem close_canStep (hpc : s.client.pc = .streaming) : s.CanStep cfg Action.starts := by
  refine ⟨.close, rfl, ?_⟩
  simp only [exec, hpc]
  split <;> rfl

/-! ## 2. When the close returns -/

/-- **A live worker without a stream leaves the ring alone.** -/
theorem Inv.idle_worker (h : Inv cfg s) (hstream : s.client.pc.hasStream = false) {a : Action}
    (ha : a.byWorker = true) (h' : exec cfg s a = some s') : s'.shared = s.shared := by
  have hi := h.idle hstream
  cases hdead : s.worker.dead with
  | true =>
    cases a with
    | worker | write | destroy => simp [exec, hdead] at h'
    | _ => exact absurd ha (by simp [Action.byWorker])
  | false =>
    have hquiet := hi.quiet hdead
    have hpcs : s.worker.pc = .command ∨ s.worker.pc = .finished := by
      cases hp : s.worker.pc <;> rw [hp] at hquiet <;>
        first
        | exact Or.inl rfl
        | exact Or.inr rfl
        | exact absurd hquiet (by simp [WorkerPc.inStream])
    cases a with
    | worker =>
      rcases hpcs with hp | hp
      · simp [exec, hdead, workerStep, hp] at h'
      · simp only [exec, hdead, workerStep, hp] at h'
        cases h'
        rfl
    | write buf => rcases hpcs with hp | hp <;> simp [exec, hdead, hp] at h'
    | destroy code => rcases hpcs with hp | hp <;> simp [exec, hdead, hp] at h'
    | _ => exact absurd ha (by simp [Action.byWorker])

/-- **The next open finds a ring it can repair**: after `shared_data_init_semaphores` every
buffer is writable, not readable and empty. -/
theorem Inv.initSemaphores (h : Inv cfg s) (hstream : s.client.pc.hasStream = false)
    (hdead : s.worker.dead = false) {j : Nat} (hj : j < cfg.nrBuffers) :
    ((sharedDataInitSemaphores cfg s.shared).buffer j).readyForWrite = 1 ∧
      ((sharedDataInitSemaphores cfg s.shared).buffer j).readyForRead = 0 ∧
      ((sharedDataInitSemaphores cfg s.shared).buffer j).used = 0 := by
  have hw := ((h.idle hstream).permits hdead j hj).2
  simp only [sharedDataInitSemaphores, if_pos hj]
  refine ⟨?_, drain_eq _, trivial⟩
  unfold fill
  split <;> omega

/-- A status that was received is the code of the current stream. -/
theorem Inv.result_code (h : Inv cfg s) {st : Int} (hr : s.log.result = some st) :
    s.log.code = some st := by
  cases hstream : s.client.pc.hasStream with
  | true => exact ((h.stream hstream).client.result st hr).1
  | false => exact (h.idle hstream).result st hr

/-! ## 3. Sessions -/

/-- **Streams on one worker, each closed at any moment.**  After every run:

* inside a call one of the two sides can go on, and between calls the client can;
* the worker's copies stay inside its buffer, cancelled or not;
* with no stream open, a live worker leaves the ring alone, and the next open repairs it;
* what was read and the status received were sent since the stream was accepted. -/
theorem session (cfg : Config) (status : Int) (mem : Nat → UInt8) (tr : List Action) (s : State)
    (h : (machine cfg status mem).run tr = some s) :
    (s.client.pc.hasStream = true → s.client.pc ≠ .streaming →
      s.CanStep cfg Action.byWorker ∨ s.CanStep cfg Action.inCall) ∧
    (s.client.pc = .streaming → s.CanStep cfg Action.starts) ∧
    (∀ j a n, s.worker.dead = false → s.nextCopy = some (j, a, n) →
      j < cfg.nrBuffers ∧ s.worker.Accesses j ∧ cfg.offset j ≤ a ∧
      a + n ≤ cfg.offset j + s.log.bufferSize ∧ s.log.bufferSize ≤ cfg.bufferSize) ∧
    (s.client.pc.hasStream = false → s.worker.dead = false →
      (∀ a s', a.byWorker = true → exec cfg s a = some s' → s'.shared = s.shared) ∧
      ∀ j, j < cfg.nrBuffers →
        ((sharedDataInitSemaphores cfg s.shared).buffer j).readyForWrite = 1 ∧
        ((sharedDataInitSemaphores cfg s.shared).buffer j).readyForRead = 0 ∧
        ((sharedDataInitSemaphores cfg s.shared).buffer j).used = 0) ∧
    s.log.got <+: written tr ∧ ∀ st, s.log.result = some st → returnCode tr = some st := by
  have hi : Inv cfg s := inv_reachable ⟨tr, h⟩
  obtain ⟨hsent, hcode⟩ := run_log h
  refine ⟨hi.call_canStep, close_canStep, ?_, ?_, ?_, ?_⟩
  · intro j a n hdead hcopy
    obtain ⟨h1, -, h3, h4, h5, h6⟩ := hi.nextCopy_bounds hdead hcopy
    exact ⟨h1, h3, h4, h5, h6⟩
  · intro hstream hdead
    exact ⟨fun a s' ha h' => hi.idle_worker hstream ha h',
      fun j hj => hi.initSemaphores hstream hdead hj⟩
  · rw [← hsent]
    exact hi.got_prefix
  · intro st hr
    rw [← hcode]
    exact hi.result_code hr

/-- A stream closed before any read, with a packer that goes on after a failed write, and the
next stream on the same worker. -/
def abortedThenRead : List Action :=
  [.open 2, .client, .client, .accept, .write [1, 2, 3], .worker, .worker, .worker,
    .close, .client,
    .worker, .write [4], .worker, .worker, .destroy 9, .worker, .worker, .worker, .worker,
    .client, .client,
    .open 2, .client, .client, .accept, .write [5], .worker, .worker, .worker, .worker, .worker,
    .worker, .read, .client, .client, .client, .client, .client]

theorem abortedThenRead_end : ((machine oneBuffer 0 (fun _ => 0)).run abortedThenRead).map
    (fun s => (s.client.pc, s.client.ended, s.log.got)) = some (.streaming, false, [5]) := by
  decide +kernel

theorem session_abortedThenRead :
    ∃ s, (machine oneBuffer 0 (fun _ => 0)).run abortedThenRead = some s ∧
      s.CanStep oneBuffer Action.starts ∧ s.log.got = [5] ∧ s.log.got <+: [5] := by
  obtain ⟨s, hrun, hs⟩ := Option.map_eq_some_iff.mp abortedThenRead_end
  simp only [Prod.mk.injEq] at hs
  obtain ⟨hpc, -, hgot⟩ := hs
  obtain ⟨-, hstart, -, -, hprefix, -⟩ := session oneBuffer 0 (fun _ => 0) abortedThenRead s hrun
  have hwritten : written abortedThenRead = [5] := by decide
  rw [hwritten] at hprefix
  exact ⟨s, hrun, hstart hpc, hgot, hprefix⟩

end HdfStream.Ring
