/-
# The client's steps preserve the invariant

The counterpart of `WorkerSteps`: one lemma for each control point of the client, inside a
stream (section 2), between two streams (section 3), and at the two ends of one
(`IdleInv.accept`, `StreamInv.toIdle`).

Every step inside a stream keeps the worker's part (`WorkerInv.of_client`).  The one place
where that needs an argument is `used = 0`: the buffer the client empties is not the one the
worker holds.
-/
import HdfStream.Ring.WorkerSteps
import Mathlib.Data.List.Infix

namespace HdfStream.Ring

open Memory TokenRing

variable {cfg : Config} {s s' : State}

/-! ## 1. What the client finds in the buffer it holds -/

theorem StreamInv.clientHolds_running (h : StreamInv cfg s) (hpc : s.client.pc ≠ .streaming) :
    s.clientHolds = s.client.pc.holding := by
  simp [State.clientHolds, (h.client.running hpc).2]

/-- A buffer the client holds and has not emptied contains the next block. -/
theorem StreamInv.content_next (h : StreamInv cfg s) (hh : s.client.pc.holding = true)
    (he : s.client.pc.emptied = false) :
    content cfg (BufferData.used ∘ s.shared.buffer) s.shared.mem
      (s.log.consumed % cfg.nrBuffers) = s.log.block s.log.consumed :=
  h.stored.block _ (Nat.le_refl _) (h.client_lt hh) (by simp [he])

theorem StreamInv.used_block (h : StreamInv cfg s) (hh : s.client.pc.holding = true)
    (he : s.client.pc.emptied = false) :
    (s.shared.buffer (s.log.consumed % cfg.nrBuffers)).used =
      (s.log.block s.log.consumed).length := by
  rw [← h.content_next hh he, content_length]
  rfl

/-- **An empty block is the last one**: the worker has left the stream, and the header carries
the code it ended with. -/
theorem StreamInv.of_empty_block (h : StreamInv cfg s) (hlt : s.log.consumed < s.log.posted.length)
    (h0 : s.log.block s.log.consumed = []) :
    s.worker.pc.inStream = false ∧ s.log.posted.length = s.log.consumed + 1 ∧
      s.log.code = some (s.shared.buffer (s.log.consumed % cfg.nrBuffers)).status := by
  have hmem : ∀ l : List (List UInt8), s.log.consumed < l.length →
      l.getD s.log.consumed [] ∈ l := by
    intro l hl
    rw [List.getD_eq_getElem _ _ hl]
    exact List.getElem_mem hl
  cases hin : s.worker.pc.inStream with
  | true =>
    have := (h.worker.posted hin _ (hmem _ hlt)).1
    unfold Log.block at h0
    rw [h0] at this
    exact absurd this (by simp)
  | false =>
    obtain ⟨q, code, hq, hdata, hcode, hstatus⟩ := h.worker.ended hin
    rw [hq, List.length_append, List.length_singleton] at hlt
    have hc : s.log.consumed = q.length := by
      by_contra hne
      have hlt' : s.log.consumed < q.length := by omega
      have := (hdata _ (hmem _ hlt')).1
      unfold Log.block at h0
      rw [hq, List.getD_append _ _ _ _ hlt'] at h0
      rw [h0] at this
      exact absurd this (by simp)
    refine ⟨rfl, ?_, ?_⟩
    · rw [hq, hc]
      simp
    · rw [hcode, hc, hstatus]

/-- The worker's part of the invariant after a step that changes the client only. -/
theorem WorkerInv.of_clientOnly (h : WorkerInv cfg s) (hworker : s'.worker = s.worker)
    (hshared : s'.shared = s.shared) (hsize : s'.log.bufferSize = s.log.bufferSize)
    (hsent : s'.log.sent = s.log.sent) (hcode : s'.log.code = s.log.code)
    (hposted : s'.log.posted = s.log.posted) : WorkerInv cfg s' :=
  h.of_client hworker hsize hsent hcode hposted (by rw [hshared]; exact id) (by rw [hshared])
    (by simp [hshared]) (by simp [hshared])

/-! ## 2. Steps in an open stream -/

/-- The stream is over for the client: it has the status, or the worker is dead. -/
theorem StreamInv.toIdle (h : StreamInv cfg s)
    (hend : s.worker.dead = false → s.worker.pc.inStream = false ∧
      s.log.posted.length = s.log.consumed + 1 ∧ s.clientHolds = true)
    (hshared : s'.shared = s.shared) (hworker : s'.worker = s.worker)
    (hpc : s'.client.pc = .closed) (hgot : s'.log.got = s.log.got)
    (hsent : s'.log.sent = s.log.sent)
    (hresult : ∀ st, s'.log.result = some st → s'.log.code = some st) : IdleInv cfg s' where
  quiet hd := by
    rw [hworker] at hd ⊢
    exact (hend hd).1
  fits j := by
    rw [hshared]
    exact h.stored.fits j
  permits hd j hj := by
    rw [hworker] at hd
    obtain ⟨hin, hlen, hch⟩ := hend hd
    have ht := h.tokens
    have hwh : s.worker.holds = false := by
      by_contra hne
      rw [Worker.holds_inStream (by simpa using hne)] at hin
      exact absurd hin (by simp)
    rw [hlen, hch, hwh] at ht
    rw [hshared]
    exact ht.idle hj
  ready n hp := by rw [hpc] at hp; exact absurd hp (by simp)
  status n hp := by rw [hpc] at hp; exact absurd hp (by simp)
  size n hp := by rw [hpc] at hp; exact absurd hp (by simp [ClientPc.opening])
  got := by
    rw [hgot, hsent]
    exact h.client.got.trans h.worker.initial
  result := hresult

theorem statusCancel_ne : statusCancel ≠ statusOk := by decide

theorem StreamInv.setCancel (h : StreamInv cfg s) (hpc : s.client.pc = .setCancel)
    (h' : clientStep cfg s = some s') : StreamInv cfg s' := by
  have hch := h.clientHolds_running (by rw [hpc]; simp)
  have hc := h.client
  obtain ⟨hend, hres⟩ := hc.running (by rw [hpc]; simp)
  simp only [clientStep, hpc, Option.some.injEq] at h'
  subst h'
  refine ⟨h.size, ?_, ?_, ?_, ?_⟩
  · have ht := h.tokens
    rw [hch, hpc] at ht
    simpa [State.clientHolds, hres, ClientPc.holding] using ht
  · have hst := h.stored
    rw [hpc] at hst
    exact hst
  · exact h.worker.of_client rfl rfl rfl rfl rfl (fun e => absurd e statusCancel_ne) rfl
      (fun _ => rfl) (fun _ => rfl)
  · exact ⟨hc.next, fun _ => ⟨hend, hres⟩, fun e => absurd rfl e, fun _ => rfl,
      fun _ _ e => absurd e (by simp), fun _ e => absurd e (by simp), hc.result, hc.failed, hc.got,
      fun e => absurd e statusCancel_ne, hc.given⟩

theorem StreamInv.wait (h : StreamInv cfg s) {mode : Mode} (hpc : s.client.pc = .wait mode)
    (h' : clientStep cfg s = some s') : StreamInv cfg s' := by
  have hch := h.clientHolds_running (by rw [hpc]; simp)
  have hc := h.client
  have hrun := hc.running (by rw [hpc]; simp)
  have ht := h.tokens
  have hst := h.stored
  rw [hch, hpc] at ht
  rw [hpc] at hst
  simp only [clientStep, hpc, hc.next] at h'
  split at h'
  · rename_i hp
    cases h'
    have hsame {β : Type} (f : BufferData → β)
        (hf : f { s.shared.buffer (s.log.consumed % cfg.nrBuffers) with
            readyForRead := (s.shared.buffer (s.log.consumed % cfg.nrBuffers)).readyForRead - 1 } =
          f (s.shared.buffer (s.log.consumed % cfg.nrBuffers))) :=
      comp_update_eq s.shared.buffer f hf
    refine ⟨h.size, ?_, ?_, ?_, ?_⟩
    · rw [Shared.setBuffer_buffer, hsame BufferData.readyForWrite rfl, Function.comp_update]
      exact ht.consumerTake hp cfg.nrBuffers_pos
    · rw [Shared.setBuffer_buffer, hsame BufferData.used rfl]
      exact hst
    · exact h.worker.of_client rfl rfl rfl rfl rfl id rfl
        (fun j => congrFun (hsame BufferData.status rfl) j)
        (fun _ => congrFun (hsame BufferData.used rfl) _)
    · refine ⟨rfl, fun _ => hrun, ?_, ?_, fun _ _ e => absurd e (by simp),
        fun _ e => absurd e (by simp), hc.result, hc.failed, hc.got, hc.gotAll, hc.given⟩
      · intro hm
        exact hc.uncancelled (by rw [hpc]; exact hm)
      · intro hm
        exact hc.cancelled (by rw [hpc]; exact hm)
  · exact absurd h' (by simp)

/-- `block_len = shared_buffer->used`.  A zero ends the read; in the close loop it ends the
stream. -/
theorem StreamInv.readUsed (h : StreamInv cfg s) {mode : Mode} (hpc : s.client.pc = .readUsed mode)
    (h' : clientStep cfg s = some s') :
    (s'.client.pc.hasStream = true → StreamInv cfg s') ∧
      (s'.client.pc.hasStream = false → IdleInv cfg s') := by
  have hch := h.clientHolds_running (by rw [hpc]; simp)
  have hc := h.client
  obtain ⟨hend, hres⟩ := hc.running (by rw [hpc]; simp)
  have hlt := h.client_lt (by rw [hpc]; rfl)
  have hblock := h.used_block (by rw [hpc]; rfl) (by rw [hpc]; rfl)
  have ht := h.tokens
  have hst := h.stored
  rw [hch, hpc] at ht
  rw [hpc] at hst
  simp only [clientStep, hpc, hc.next] at h'
  split at h'
  · -- the zero sized block
    rename_i h0
    obtain ⟨hin, hlen, hcode⟩ :=
      h.of_empty_block hlt (List.eq_nil_of_length_eq_zero (hblock.symm.trans h0))
    cases h'
    cases mode with
    | read =>
      refine ⟨fun _ => ⟨h.size, ht, hst, h.worker.of_clientOnly rfl rfl rfl rfl rfl rfl, ?_⟩,
        fun e => absurd e (by simp [endRead, ClientPc.hasStream])⟩
      refine ⟨hc.next, fun e => absurd rfl e, fun _ => hc.uncancelled (by rw [hpc]; simp
        [ClientPc.mode]), fun e => absurd e (by simp [endRead, ClientPc.mode]),
        fun _ _ e => absurd e (by simp [endRead]), fun _ e => absurd e (by simp [endRead]), ?_,
        fun _ e => absurd e (by simp), hc.got, hc.gotAll, hc.given⟩
      rintro st ⟨⟩
      exact ⟨hcode, hlen, hin, rfl, rfl⟩
    | close =>
      refine ⟨fun e => absurd e (by simp [endRead, ClientPc.hasStream]), fun _ => ?_⟩
      refine h.toIdle (fun _ => ⟨hin, hlen, by rw [hch, hpc]; rfl⟩) rfl rfl rfl rfl rfl ?_
      rintro st ⟨⟩
      exact hcode
  · rename_i h0
    cases h'
    refine ⟨fun _ => ⟨h.size, ?_, hst, h.worker.of_clientOnly rfl rfl rfl rfl rfl rfl, ?_⟩,
      fun e => absurd e (by simp [ClientPc.hasStream])⟩
    · simpa [State.clientHolds, ClientPc.holding] using ht
    · refine ⟨rfl, fun _ => ⟨hend, hres⟩, ?_, ?_, ?_, fun _ e => absurd e (by simp),
        fun _ e => absurd (hres.symm.trans e) (by simp), hc.failed, hc.got, hc.gotAll, hc.given⟩
      · intro hm
        exact hc.uncancelled (by rw [hpc]; exact hm)
      · intro hm
        exact hc.cancelled (by rw [hpc]; exact hm)
      · intro m n hm
        cases hm
        refine ⟨hblock, fun e => h0 ?_⟩
        rw [hblock, e]
        rfl

theorem StreamInv.copyOut (h : StreamInv cfg s) (hl : Layout cfg s.shared.buffer) {mode : Mode}
    {blockLen : Nat} (hpc : s.client.pc = .copyOut mode blockLen)
    (h' : clientStep cfg s = some s') : StreamInv cfg s' := by
  have hch := h.clientHolds_running (by rw [hpc]; simp)
  have hc := h.client
  have hrun := hc.running (by rw [hpc]; simp)
  obtain ⟨hblen, hne⟩ := hc.copying mode blockLen hpc
  have hcontent := h.content_next (by rw [hpc]; rfl) (by rw [hpc]; rfl)
  have hblock := h.used_block (by rw [hpc]; rfl) (by rw [hpc]; rfl)
  have ht := h.tokens
  have hst := h.stored
  rw [hch, hpc] at ht
  rw [hpc] at hst
  simp only [clientStep, hpc, hc.next, Option.some.injEq] at h'
  subst h'
  refine ⟨h.size, ?_, hst, h.worker.of_clientOnly rfl rfl rfl rfl rfl rfl, ?_⟩
  · simpa [State.clientHolds, ClientPc.holding, hrun.2] using ht
  · refine ⟨rfl, fun _ => hrun, ?_, ?_, fun _ _ e => absurd e (by simp), ?_, hc.result, hc.failed,
      hc.got, hc.gotAll, hc.given⟩
    · intro hm
      exact hc.uncancelled (by rw [hpc]; exact hm)
    · intro hm
      exact hc.cancelled (by rw [hpc]; exact hm)
    · intro m hm
      refine ⟨hne, fun hr => ?_⟩
      simp only [ClientPc.resetUsed.injEq, reduceCtorEq, or_false] at hm
      subst hr
      subst hm
      -- the copy is as long as the buffer's contents
      rw [hblen, ← hblock, hl]
      exact hcontent

theorem StreamInv.resetUsed (h : StreamInv cfg s) {mode : Mode}
    (hpc : s.client.pc = .resetUsed mode) (h' : clientStep cfg s = some s') :
    StreamInv cfg s' := by
  have hch := h.clientHolds_running (by rw [hpc]; simp)
  have hc := h.client
  have hrun := hc.running (by rw [hpc]; simp)
  have hcopied := hc.copied mode (Or.inl hpc)
  have ht := h.tokens
  have hst := h.stored
  rw [hch, hpc] at ht
  rw [hpc] at hst
  simp only [clientStep, hpc, hc.next, Option.some.injEq] at h'
  subst h'
  have hsame {β : Type} (f : BufferData → β)
      (hf : f { s.shared.buffer (s.log.consumed % cfg.nrBuffers) with used := 0 } =
        f (s.shared.buffer (s.log.consumed % cfg.nrBuffers))) :=
    comp_update_eq s.shared.buffer f hf
  refine ⟨h.size, ?_, ?_, ?_, ?_⟩
  · rw [Shared.setBuffer_buffer, hsame BufferData.readyForWrite rfl,
      hsame BufferData.readyForRead rfl]
    simpa [State.clientHolds, ClientPc.holding, hrun.2] using ht
  · rw [Shared.setBuffer_buffer, Function.comp_update]
    exact hst.empty (ht.taken rfl) ht.window
  · refine h.worker.of_client rfl rfl rfl rfl rfl id rfl
      (fun j => congrFun (hsame BufferData.status rfl) j) (fun hh => ?_)
    -- the worker holds another buffer
    rw [hh] at ht
    rw [Shared.setBuffer_buffer, Function.update_of_ne ht.exclusive]
  · refine ⟨rfl, fun _ => hrun, ?_, ?_, fun _ _ e => absurd e (by simp), ?_, hc.result, hc.failed,
      hc.got, hc.gotAll, hc.given⟩
    · intro hm
      exact hc.uncancelled (by rw [hpc]; exact hm)
    · intro hm
      exact hc.cancelled (by rw [hpc]; exact hm)
    · intro m hm
      simp only [ClientPc.post.injEq, reduceCtorEq, false_or] at hm
      subst hm
      exact hcopied

/-- Receiving one more block. -/
theorem Log.take_consumed_succ (l : Log) (h : l.consumed < l.posted.length) :
    (l.posted.take (l.consumed + 1)).flatten =
      (l.posted.take l.consumed).flatten ++ l.block l.consumed := by
  rw [List.take_add_one, List.flatten_append, List.getElem?_eq_getElem h]
  unfold Log.block
  rw [List.getD_eq_getElem _ _ h]
  simp

/-- **The client gives a buffer back, and a read returns its block.** -/
theorem StreamInv.clientPost (h : StreamInv cfg s) {mode : Mode} (hpc : s.client.pc = .post mode)
    (h' : clientStep cfg s = some s') : StreamInv cfg s' := by
  have hch := h.clientHolds_running (by rw [hpc]; simp)
  have hc := h.client
  have hrun := hc.running (by rw [hpc]; simp)
  obtain ⟨hne, hout⟩ := hc.copied mode (Or.inr hpc)
  have hlt := h.client_lt (by rw [hpc]; rfl)
  have ht := h.tokens
  have hst := h.stored
  rw [hch, hpc] at ht
  rw [hpc] at hst
  simp only [clientStep, hpc, hc.next, Option.some.injEq] at h'
  subst h'
  have hsame {β : Type} (f : BufferData → β)
      (hf : f { s.shared.buffer (s.log.consumed % cfg.nrBuffers) with
          readyForWrite := (s.shared.buffer (s.log.consumed % cfg.nrBuffers)).readyForWrite + 1 } =
        f (s.shared.buffer (s.log.consumed % cfg.nrBuffers))) :=
    comp_update_eq s.shared.buffer f hf
  refine ⟨h.size, ?_, ?_, ?_, ?_⟩
  · rw [Shared.setBuffer_buffer, hsame BufferData.readyForRead rfl, Function.comp_update]
    have hgive := ht.consumerGive cfg.nrBuffers_pos
    cases mode <;> simpa [State.clientHolds, ClientPc.holding, hrun.2] using hgive
  · rw [Shared.setBuffer_buffer, hsame BufferData.used rfl]
    cases mode <;> exact hst.give
  · exact h.worker.of_client rfl rfl rfl rfl rfl id rfl
      (fun j => congrFun (hsame BufferData.status rfl) j)
      (fun _ => congrFun (hsame BufferData.used rfl) _)
  · have hresult : ∀ st, s.log.result ≠ some st := by
      intro st hst
      rw [hrun.2] at hst
      exact absurd hst (by simp)
    have hgiven : ∀ b, b < s.log.consumed + 1 → s.log.block b ≠ [] := by
      intro b hb
      rcases Nat.lt_succ_iff_lt_or_eq.mp hb with hlt' | rfl
      · exact hc.given b hlt'
      · exact hne
    cases mode with
    | read =>
      have hok := hc.uncancelled (by rw [hpc]; simp [ClientPc.mode])
      have hgot : s.log.got ++ s.client.outBuf =
          (s.log.posted.take (s.log.consumed + 1)).flatten := by
        rw [s.log.take_consumed_succ hlt, hc.gotAll hok, hout rfl]
      refine ⟨by simp, fun e => absurd rfl e, fun _ => hok,
        fun e => absurd e (by simp [ClientPc.mode]), fun _ _ e => absurd e (by simp),
        fun _ e => absurd e (by simp), fun st e => absurd e (hresult st), ?_, ?_, fun _ =>
          hgot, hgiven⟩
      · intro e
        rw [hrun.1] at e
        exact absurd e (by simp)
      · simp only [hgot]
        exact List.IsPrefix.flatten (List.take_prefix _ _)
    | close =>
      have hcancel := hc.cancelled (by rw [hpc]; rfl)
      refine ⟨by simp, fun _ => hrun, fun e => absurd rfl e, fun _ => hcancel,
        fun _ _ e => absurd e (by simp), fun _ e => absurd e (by simp),
        fun st e => absurd e (hresult st), ?_, hc.got, ?_, hgiven⟩
      · intro e
        rw [hrun.1] at e
        exact absurd e (by simp)
      · intro hok
        exact absurd (hcancel.symm.trans hok) statusCancel_ne

/-- A call on a stream that has not ended: a read waits, a close cancels. -/
theorem StreamInv.call (h : StreamInv cfg s) (hpc : s.client.pc = .streaming)
    (hend : s.client.ended = false) {pc : ClientPc} (hpc' : pc = .wait .read ∨ pc = .setCancel) :
    StreamInv cfg { s with client.pc := pc } := by
  have hc := h.client
  have hres : s.log.result = none := by
    cases hr : s.log.result with
    | none => rfl
    | some st =>
      have := (hc.result st hr).2.2.2.1
      rw [hend] at this
      exact absurd this (by simp)
  have hok := hc.uncancelled (by rw [hpc]; simp [ClientPc.mode])
  have ht := h.tokens
  have hst := h.stored
  simp only [State.clientHolds, hpc] at ht
  rw [hpc] at hst
  rcases hpc' with rfl | rfl
  all_goals
    exact ⟨h.size, ht, hst, h.worker.of_clientOnly rfl rfl rfl rfl rfl rfl, hc.next,
      fun _ => ⟨hend, hres⟩, fun _ => hok, fun e => absurd e (by simp [ClientPc.mode]),
      fun _ _ e => absurd e (by simp), fun _ e => absurd e (by simp), hc.result, hc.failed,
      hc.got, hc.gotAll, hc.given⟩

/-- A call of `hdfstream_read_chunk`. -/
theorem StreamInv.read (h : StreamInv cfg s) (hpc : s.client.pc = .streaming)
    (h' : exec cfg s .read = some s') : StreamInv cfg s' := by
  simp only [exec, hpc] at h'
  split at h'
  · cases h'
    exact h
  · rename_i hend
    cases h'
    exact h.call hpc (by simpa using hend) (Or.inl rfl)

/-- A call of `hdfstream_close_stream`: if the stream has ended there is nothing to drain. -/
theorem StreamInv.close (h : StreamInv cfg s) (hpc : s.client.pc = .streaming)
    (h' : exec cfg s .close = some s') :
    (s'.client.pc.hasStream = true → StreamInv cfg s') ∧
      (s'.client.pc.hasStream = false → IdleInv cfg s') := by
  have hc := h.client
  simp only [exec, hpc] at h'
  split at h'
  · rename_i hend
    cases h'
    refine ⟨fun e => absurd e (by simp [ClientPc.hasStream]), fun _ => ?_⟩
    refine h.toIdle (fun hd => ?_) rfl rfl rfl rfl rfl (fun st hst => (hc.result st hst).1)
    cases hr : s.log.result with
    | none =>
      rw [hc.failed hend hr] at hd
      exact absurd hd (by simp)
    | some st =>
      obtain ⟨-, hlen, hin, -⟩ := hc.result st hr
      exact ⟨hin, hlen, by simp [State.clientHolds, hr]⟩
  · rename_i hend
    cases h'
    exact ⟨fun _ => h.call hpc (by simpa using hend) (Or.inr rfl),
      fun e => absurd e (by simp [ClientPc.hasStream])⟩

/-- The worker is found dead while the client waits. -/
theorem StreamInv.waitFailed (h : StreamInv cfg s) (h' : exec cfg s .waitFailed = some s') :
    (s'.client.pc.hasStream = true → StreamInv cfg s') ∧
      (s'.client.pc.hasStream = false → IdleInv cfg s') := by
  have hc := h.client
  simp only [exec] at h'
  split at h'
  · rename_i mode hpc
    obtain ⟨-, hres⟩ := hc.running (by rw [hpc]; simp)
    have hnone : ∀ st, s.log.result = some st → False := by
      intro st hst
      rw [hres] at hst
      exact absurd hst (by simp)
    split at h'
    · rename_i hdead
      cases h'
      have ht := h.tokens
      have hst := h.stored
      simp only [State.clientHolds, hpc] at ht
      rw [hpc] at hst
      cases mode with
      | read =>
        refine ⟨fun _ => ⟨h.size, ht, hst, h.worker.of_clientOnly rfl rfl rfl rfl rfl rfl, ?_⟩,
          fun e => absurd e (by simp [endRead, ClientPc.hasStream])⟩
        exact ⟨hc.next, fun e => absurd rfl e, fun _ => hc.uncancelled (by rw [hpc]; simp
          [ClientPc.mode]), fun e => absurd e (by simp [endRead, ClientPc.mode]),
          fun _ _ e => absurd e (by simp [endRead]), fun _ e => absurd e (by simp [endRead]),
          fun st e => (hnone st e).elim, fun _ _ => hdead, hc.got, hc.gotAll, hc.given⟩
      | close =>
        refine ⟨fun e => absurd e (by simp [endRead, ClientPc.hasStream]), fun _ => ?_⟩
        refine h.toIdle (fun hd => ?_) rfl rfl rfl rfl rfl (fun st e => (hnone st e).elim)
        rw [hdead] at hd
        exact absurd hd (by simp)
    · exact absurd h' (by simp)
  · exact absurd h' (by simp)

/-- Whether the worker is dead is read by nobody but the client's own checks. -/
theorem StreamInv.die (h : StreamInv cfg s) : StreamInv cfg { s with worker.dead := true } := by
  have hw := h.worker
  have hc := h.client
  exact ⟨h.size, h.tokens, h.stored,
    ⟨hw.size, hw.unclaimed, hw.claimed, hw.posted, hw.ended, hw.code, hw.fits, hw.empty, hw.status,
      hw.nonempty, hw.initial, hw.exact⟩,
    ⟨hc.next, hc.running, hc.uncancelled, hc.cancelled, hc.copying, hc.copied, hc.result,
      fun _ _ => rfl, hc.got, hc.gotAll, hc.given⟩⟩

end HdfStream.Ring
