/-
# The worker's steps preserve the invariant

One lemma for each control point of the worker inside a stream, then `StreamInv.workerStep`
for all of them and the two calls a packer makes (`StreamInv.write`, `StreamInv.destroy`).

Every step keeps the client's part (`ClientInv.of_worker`), so what is left is one move of
the permits, one of the contents, and the worker's own part.
-/
import HdfStream.Ring.Invariant

namespace HdfStream.Ring

open Memory TokenRing

variable {cfg : Config} {s s' : State}

/-! ## 1. The worker's part, for a worker that has its buffer -/

/-- The part of the worker's invariant a step must establish when it ends in the stream with
the buffer at the next position. -/
theorem WorkerInv.ofBuffer (hin : s.worker.pc.inStream = true)
    (hb : s.worker.bufferNr = some (s.log.posted.length % cfg.nrBuffers))
    (hsize : s.worker.bufferSize = s.log.bufferSize)
    (hposted : ∀ blk ∈ s.log.posted, s.log.DataBlock blk)
    (hcode : ∀ code, s.worker.pc.code = some code → s.log.code = some code)
    (hfits : s.worker.pc.holding = true →
      (s.shared.buffer (s.log.posted.length % cfg.nrBuffers)).used ≤ s.log.bufferSize)
    (hempty : s.worker.pc.emptied = true →
      (s.shared.buffer (s.log.posted.length % cfg.nrBuffers)).used = 0)
    (hstatus : s.worker.pc = .post →
      s.log.code = some (s.shared.buffer (s.log.posted.length % cfg.nrBuffers)).status)
    (hnonempty : ∀ caller, s.worker.pc = .flushPost caller →
      0 < (s.shared.buffer (s.log.posted.length % cfg.nrBuffers)).used)
    (hinitial : s.log.posted.flatten <+: s.log.sent)
    (hexact : s.shared.status = statusOk ∨ s.worker.pc.committed = true →
      s.log.sent = s.log.posted.flatten ++ s.pending cfg ++ s.worker.pc.left) :
    WorkerInv cfg s where
  size _ := hsize
  unclaimed _ h := by rw [hb] at h; exact absurd h (by simp)
  claimed _ j h := by rw [hb, Option.some.injEq] at h; exact h.symm
  posted _ := hposted
  ended h := by rw [hin] at h; exact absurd h (by simp)
  code := hcode
  fits h := hfits (by simp only [Worker.holds, Bool.and_eq_true] at h; exact h.1)
  empty := hempty
  status := hstatus
  nonempty := hnonempty
  initial := hinitial
  exact := hexact

/-- What a worker that holds its buffer has pending. -/
theorem State.pending_eq (hh : s.worker.holds = true) (hd : s.worker.pc.discards = false) :
    s.pending cfg = content cfg (BufferData.used ∘ s.shared.buffer) s.shared.mem
      (s.log.posted.length % cfg.nrBuffers) := by
  simp [State.pending, hh, hd]

theorem State.pending_nil (hh : s.worker.holds = false) : s.pending cfg = [] := by
  simp [State.pending, hh]

theorem State.pending_discarded (hd : s.worker.pc.discards = true) : s.pending cfg = [] := by
  simp [State.pending, hd]

theorem State.pending_congr (hshared : s'.shared = s.shared)
    (hposted : s'.log.posted = s.log.posted)
    (hh : s'.worker.holds = s.worker.holds)
    (hd : s'.worker.pc.discards = s.worker.pc.discards) : s'.pending cfg = s.pending cfg := by
  simp only [State.pending, hshared, hposted, hh, hd]

/-- An empty buffer has nothing pending. -/
theorem State.pending_empty
    (h0 : (s.shared.buffer (s.log.posted.length % cfg.nrBuffers)).used = 0) :
    s.pending cfg = [] := by
  unfold State.pending
  split
  · simp [content, h0]
  · rfl

/-- The facts about the window every step uses. -/
theorem StreamInv.client_lt (h : StreamInv cfg s) (hh : s.client.pc.holding = true) :
    s.log.consumed < s.log.posted.length :=
  h.tokens.taken (by simp [State.clientHolds, hh])

theorem ClientPc.emptied_holding {pc : ClientPc} (h : pc.emptied = true) : pc.holding = true := by
  cases pc <;> first | rfl | simp [ClientPc.emptied] at h

/-! ## 2. Waiting for a buffer -/

/-- The wait for a buffer returns: the permits, the contents and the client's part. -/
theorem StreamInv.takeBuffer (h : StreamInv cfg s) (hin : s.worker.pc.inStream = true)
    (hh : s.worker.holds = false)
    (hp : 0 < (s.shared.buffer (s.log.posted.length % cfg.nrBuffers)).readyForWrite)
    (hs' : s'.shared = s.shared.setBuffer (s.log.posted.length % cfg.nrBuffers)
      { s.shared.buffer (s.log.posted.length % cfg.nrBuffers) with
        readyForWrite :=
          (s.shared.buffer (s.log.posted.length % cfg.nrBuffers)).readyForWrite - 1 })
    (hh' : s'.worker.holds = true) (hdead : s'.worker.dead = s.worker.dead)
    (hclient : s'.client = s.client) (hlog : s'.log = s.log) (hw : WorkerInv cfg s') :
    StreamInv cfg s' := by
  have ht := h.tokens
  have hst := h.stored
  rw [hh] at ht hst
  have hused : BufferData.used ∘ s'.shared.buffer = BufferData.used ∘ s.shared.buffer := by
    rw [hs', Shared.setBuffer_buffer]
    exact comp_update_eq s.shared.buffer BufferData.used rfl
  have hread : BufferData.readyForRead ∘ s'.shared.buffer =
      BufferData.readyForRead ∘ s.shared.buffer := by
    rw [hs', Shared.setBuffer_buffer]
    exact comp_update_eq s.shared.buffer BufferData.readyForRead rfl
  refine ⟨by rw [hlog]; exact h.size, ?_, ?_, hw, ?_⟩
  · have hch : s'.clientHolds = s.clientHolds := by simp only [State.clientHolds, hclient, hlog]
    rw [hread, hlog, hh', hch, hs', Shared.setBuffer_buffer, Function.comp_update]
    exact ht.producerTake hp cfg.nrBuffers_pos
  · rw [hused, hlog, hh', hclient, hs', Shared.setBuffer_mem]
    exact hst.hold
  · refine h.client.of_worker hin h.client_lt h.tokens.le hclient ?_ hdead ?_ ?_ ?_ ?_
    · rw [hs', Shared.setBuffer_status]
    all_goals simp [hlog]

/-- The buffer a waiting worker gets is empty. -/
theorem StreamInv.used_next (h : StreamInv cfg s) (hh : s.worker.holds = false)
    (hp : 0 < (s.shared.buffer (s.log.posted.length % cfg.nrBuffers)).readyForWrite) :
    (s.shared.buffer (s.log.posted.length % cfg.nrBuffers)).used = 0 := by
  have ht := h.tokens
  have hst := h.stored
  rw [hh] at ht hst
  exact hst.used_next ((ht.producerTake hp cfg.nrBuffers_pos).held rfl)

theorem StreamInv.claim (h : StreamInv cfg s) {caller : Caller}
    (hpc : s.worker.pc = .claim caller) (h' : workerStep cfg s = some s') :
    StreamInv cfg s' := by
  have hin : s.worker.pc.inStream = true := by rw [hpc]; rfl
  have hh : s.worker.holds = false := by simp [Worker.holds, hpc, WorkerPc.holding]
  have hb := h.worker.bufferNr hin (by rw [hpc]; rfl)
  simp only [workerStep, hpc, hb] at h'
  split at h'
  · rename_i hp
    have h0 := h.used_next hh hp
    cases h'
    refine h.takeBuffer hin hh hp rfl rfl rfl rfl rfl ?_
    refine .ofBuffer rfl rfl (h.worker.size hin) (h.worker.posted hin) ?_ ?_ ?_ ?_ ?_
      h.worker.initial ?_
    · intro code hc
      exact h.worker.code code (by rw [hpc]; exact hc)
    · intro _
      simp [h0]
    · intro _
      simp [h0]
    · intro hpost
      exact absurd hpost (by simp)
    · intro caller' hp'
      exact absurd hp' (by simp)
    · intro hs
      have hold := h.worker.exact (hs.imp_right (by simp [WorkerPc.committed]))
      rw [State.pending_nil hh, hpc] at hold
      rw [State.pending_empty (by simp [h0])]
      exact hold
  · exact absurd h' (by simp)

/-- What the end of a successful flush means for the worker. -/
theorem flushReturn_zero {w : Worker} {caller : Caller} {j : Nat} (hb : w.bufferNr = some j) :
    flushReturn w 0 caller =
      { w with pc := match caller with
        | .write left => .copy left
        | .destroy code => .publish code } := by
  cases caller <;> simp [flushReturn, hb]

theorem StreamInv.flushWait (h : StreamInv cfg s) {caller : Caller}
    (hpc : s.worker.pc = .flushWait caller) (h' : workerStep cfg s = some s') :
    StreamInv cfg s' := by
  have hin : s.worker.pc.inStream = true := by rw [hpc]; rfl
  have hh : s.worker.holds = false := by simp [Worker.holds, hpc, WorkerPc.holding]
  have hb := h.worker.bufferNr hin (by rw [hpc]; rfl)
  simp only [workerStep, hpc, hb, flushReturn_zero hb] at h'
  split at h'
  · rename_i hp
    have h0 := h.used_next hh hp
    cases h'
    refine h.takeBuffer hin hh hp rfl (by cases caller <;> rfl) rfl rfl rfl ?_
    refine .ofBuffer (by cases caller <;> rfl) rfl (h.worker.size hin) (h.worker.posted hin)
      ?_ ?_ ?_ ?_ ?_ h.worker.initial ?_
    · intro code hc
      refine h.worker.code code ?_
      rw [hpc]
      cases caller with
      | write left => exact absurd hc (by simp [WorkerPc.code])
      | destroy code' => exact hc
    · intro _
      simp [h0]
    · intro he
      cases caller <;> exact absurd he (by simp [WorkerPc.emptied])
    · intro hpost
      cases caller <;> exact absurd hpost (by simp)
    · intro caller' hp'
      cases caller <;> exact absurd hp' (by simp)
    · intro hs
      have hok : s.shared.status = statusOk := by
        rcases hs with hs | hs
        · exact hs
        · cases caller <;> exact absurd hs (by simp [WorkerPc.committed])
      have hold := h.worker.exact (Or.inl hok)
      rw [State.pending_nil hh, hpc] at hold
      rw [State.pending_empty (by simp [h0])]
      cases caller <;> exact hold
  · exact absurd h' (by simp)

/-! ## 3. Filling the buffer -/

/-- The worker rewrites the header and the bytes of the buffer it holds. -/
theorem StreamInv.fillBuffer (h : StreamInv cfg s) (hin : s.worker.pc.inStream = true)
    (hh : s.worker.holds = true) {x : BufferData}
    (hbuf : s'.shared.buffer =
      Function.update s.shared.buffer (s.log.posted.length % cfg.nrBuffers) x)
    (hw0 : x.readyForWrite =
      (s.shared.buffer (s.log.posted.length % cfg.nrBuffers)).readyForWrite)
    (hr0 : x.readyForRead =
      (s.shared.buffer (s.log.posted.length % cfg.nrBuffers)).readyForRead)
    (hu : x.used ≤ cfg.bufferSize)
    (hstatus : s'.shared.status = s.shared.status)
    (hmem : ∀ a, (a < cfg.offset (s.log.posted.length % cfg.nrBuffers) ∨
      cfg.offset (s.log.posted.length % cfg.nrBuffers) + cfg.bufferSize ≤ a) →
      s'.shared.mem a = s.shared.mem a)
    (hh' : s'.worker.holds = true) (hdead : s'.worker.dead = s.worker.dead)
    (hclient : s'.client = s.client) (hlog : s'.log = s.log) (hw : WorkerInv cfg s') :
    StreamInv cfg s' := by
  have ht := h.tokens
  have hst := h.stored
  rw [hh] at ht hst
  refine ⟨by rw [hlog]; exact h.size, ?_, ?_, hw, ?_⟩
  · have hch : s'.clientHolds = s.clientHolds := by simp only [State.clientHolds, hclient, hlog]
    rw [hlog, hh', hch, hbuf, comp_update_eq s.shared.buffer BufferData.readyForWrite hw0,
      comp_update_eq s.shared.buffer BufferData.readyForRead hr0]
    exact ht
  · rw [hbuf, Function.comp_update, hlog, hh', hclient]
    exact hst.fill ht.le (ht.held rfl)
      (fun he => h.client_lt (ClientPc.emptied_holding he)) hu hmem
  · refine h.client.of_worker hin h.client_lt h.tokens.le hclient hstatus hdead ?_ ?_ ?_ ?_
    all_goals simp [hlog]

theorem StreamInv.reset (h : StreamInv cfg s) {caller : Caller}
    (hpc : s.worker.pc = .reset caller) (h' : workerStep cfg s = some s') :
    StreamInv cfg s' := by
  have hin : s.worker.pc.inStream = true := by rw [hpc]; rfl
  have hb := h.worker.bufferNr hin (by rw [hpc]; rfl)
  have hh : s.worker.holds = true := by simp [Worker.holds, hpc, hb, WorkerPc.holding]
  simp only [workerStep, hpc, hb, Option.some.injEq] at h'
  subst h'
  refine h.fillBuffer hin hh rfl rfl rfl (Nat.zero_le _) rfl (fun _ _ => rfl)
    (by cases caller <;> rfl) rfl rfl rfl ?_
  refine .ofBuffer (by cases caller <;> rfl) rfl (h.worker.size hin) (h.worker.posted hin)
    ?_ ?_ ?_ ?_ ?_ h.worker.initial ?_
  · intro code hc
    refine h.worker.code code ?_
    rw [hpc]
    cases caller with
    | write left => exact absurd hc (by simp [WorkerPc.code])
    | destroy code' => exact hc
  · intro _
    simp
  · intro _
    simp
  · intro hpost
    cases caller <;> exact absurd hpost (by simp)
  · intro caller' hp'
    cases caller <;> exact absurd hp' (by simp)
  · intro hs
    have hok : s.shared.status = statusOk := by
      rcases hs with hs | hs
      · exact hs
      · cases caller <;> exact absurd hs (by simp [WorkerPc.committed])
    have hold := h.worker.exact (Or.inl hok)
    rw [State.pending_empty (h.worker.empty (by rw [hpc]; rfl)), hpc] at hold
    rw [State.pending_empty (by simp)]
    cases caller <;> exact hold

/-- What one pass of the copy loop copies fits into the buffer. -/
theorem nrToCopy_le {bufferSize used : Nat} (left : List UInt8) (hu : used ≤ bufferSize)
    (hb : bufferSize < 2 ^ 64) :
    nrToCopy bufferSize used left ≤ left.length ∧
      used + nrToCopy bufferSize used left ≤ bufferSize := by
  unfold nrToCopy
  rw [sizeSub_eq hu hb]
  split <;> omega

/-- Bytes outside the copied range keep their value. -/
theorem writeMem_outside {mem : Nat → UInt8} {a x : Nat} {bytes : List UInt8}
    (h : x < a ∨ a + bytes.length ≤ x) : writeMem mem a bytes x = mem x := by
  unfold writeMem
  rw [if_neg]
  omega

/-- Where a pass of the copy loop goes on: to the status check of the flush, or around the
loop.  For the invariant both are the same. -/
theorem copy_next (rest : List UInt8) (p : Prop) [Decidable p] :
    ∃ pc : WorkerPc,
      (if p then WorkerPc.flushStatus (.write rest) else WorkerPc.copy rest) = pc ∧
      pc.inStream = true ∧ pc.holding = true ∧ pc.left = rest ∧ pc.code = none ∧
      pc.discards = false ∧ pc.emptied = false ∧ pc.committed = false ∧ pc ≠ .post ∧
      ∀ caller, pc ≠ .flushPost caller := by
  refine ⟨_, rfl, ?_⟩
  split <;> simp [WorkerPc.inStream, WorkerPc.holding, WorkerPc.left, WorkerPc.code,
    WorkerPc.discards, WorkerPc.emptied, WorkerPc.committed, Caller.left, Caller.code]

/-- **One pass of the copy loop**: the bytes go behind those already pending. -/
theorem StreamInv.copy (h : StreamInv cfg s) (hl : Layout cfg s.shared.buffer)
    {left : List UInt8} (hpc : s.worker.pc = .copy left) (h' : workerStep cfg s = some s') :
    StreamInv cfg s' := by
  have hin : s.worker.pc.inStream = true := by rw [hpc]; rfl
  have hb := h.worker.bufferNr hin (by rw [hpc]; rfl)
  have hh : s.worker.holds = true := by simp [Worker.holds, hpc, hb, WorkerPc.holding]
  have hfits := h.worker.fits hh
  have hsize := h.worker.size hin
  have hold := fun hok => h.worker.exact (Or.inl hok)
  rw [State.pending_eq hh (by rw [hpc]; rfl), hpc] at hold
  simp only [workerStep, hpc, hb] at h'
  split at h'
  · -- nothing left: the write call returns
    rename_i hnil
    cases h'
    refine ⟨h.size, ?_, ?_, ?_, ?_⟩
    · have := h.tokens
      rw [hh] at this
      exact this
    · have := h.stored
      rw [hh] at this
      exact this
    · refine .ofBuffer rfl rfl hsize (h.worker.posted hin) (by simp [WorkerPc.code])
        (fun _ => hfits) (by simp [WorkerPc.emptied]) (by simp) (by simp) h.worker.initial ?_
      rintro (hok | hok)
      · rw [State.pending_eq rfl rfl]
        have := hold hok
        rw [hnil] at this
        exact this
      · exact absurd hok (by simp [WorkerPc.committed])
    · exact h.client.of_worker hin h.client_lt h.tokens.le rfl rfl rfl rfl rfl rfl
        (List.prefix_refl _)
  · -- one memcpy
    obtain ⟨hn, hfit'⟩ := nrToCopy_le left (hfits.trans_eq hsize.symm)
      (hsize.trans_lt (h.size.2.trans_lt cfg.bufferSize_lt))
    generalize nrToCopy s.worker.bufferSize
      (s.shared.buffer (s.log.posted.length % cfg.nrBuffers)).used left = n at hn hfit' h'
    obtain ⟨pc, hnext, hpin, hphold, hpleft, hpcode, hpdis, hpemp, hpcom, hppost, hpflush⟩ :=
      copy_next (left.drop n) (s.worker.bufferSize / 2 ≤
        (s.shared.buffer (s.log.posted.length % cfg.nrBuffers)).used + n)
    rw [hnext] at h'
    have htake : (left.take n).length = n := List.length_take_of_le hn
    have hle : (s.shared.buffer (s.log.posted.length % cfg.nrBuffers)).used + n ≤
        s.log.bufferSize := hfit'.trans_eq hsize
    cases h'
    refine h.fillBuffer hin hh rfl rfl rfl (hle.trans h.size.2) rfl ?_ ?_ rfl rfl rfl ?_
    · intro a ha
      refine writeMem_outside ?_
      rw [hl, htake]
      have := h.size.2
      omega
    · simp [Worker.holds, hphold]
    · refine .ofBuffer hpin rfl hsize (h.worker.posted hin) ?_ ?_ ?_ ?_ ?_ h.worker.initial ?_
      · intro code hc
        rw [hpcode] at hc
        exact absurd hc (by simp)
      · intro _
        simpa using hle
      · intro he
        rw [hpemp] at he
        exact absurd he (by simp)
      · exact fun he => absurd he hppost
      · exact fun caller he => absurd he (hpflush caller)
      · intro hs
        have hok : s.shared.status = statusOk := by
          rcases hs with hs | hs
          · exact hs
          · rw [hpcom] at hs
            exact absurd hs (by simp)
        -- the copied bytes move from `left` to `pending`
        rw [State.pending_eq (by simp [Worker.holds, hphold]) hpdis, hpleft]
        have hcontent := readMem_writeMem_append s.shared.mem
          (cfg.offset (s.log.posted.length % cfg.nrBuffers))
          (s.shared.buffer (s.log.posted.length % cfg.nrBuffers)).used (left.take n)
        rw [htake] at hcontent
        have hexact := hold hok
        simp only [content, Function.comp_apply, WorkerPc.left] at hexact ⊢
        rw [Shared.setBuffer_buffer, Function.update_self, hl, hcontent, List.append_assoc,
          List.append_assoc, List.take_append_drop, ← List.append_assoc]
        exact hexact

/-! ## 4. Steps that touch no buffer -/

/-- A step of the worker that changes nothing the two sides share, except that it may extend
what was sent or fix the return code. -/
theorem StreamInv.workerOnly (h : StreamInv cfg s) (hin : s.worker.pc.inStream = true)
    (hshared : s'.shared = s.shared) (hclient : s'.client = s.client)
    (hsize : s'.log.bufferSize = s.log.bufferSize) (hposted : s'.log.posted = s.log.posted)
    (hcons : s'.log.consumed = s.log.consumed) (hgot : s'.log.got = s.log.got)
    (hres : s'.log.result = s.log.result) (hh' : s'.worker.holds = s.worker.holds)
    (hdead : s'.worker.dead = s.worker.dead) (hw : WorkerInv cfg s') : StreamInv cfg s' := by
  refine ⟨by rw [hsize]; exact h.size, ?_, ?_, hw, ?_⟩
  · have hch : s'.clientHolds = s.clientHolds := by simp only [State.clientHolds, hclient, hres]
    rw [hshared, hposted, hcons, hh', hch]
    exact h.tokens
  · rw [hshared, hposted, hcons, hh', hclient]
    exact h.stored
  · exact h.client.of_worker hin h.client_lt h.tokens.le hclient (by rw [hshared]) hdead hcons
      hgot hres (by simp [hposted])

/-- `WorkerInv` of a worker that claims its first buffer: nothing was posted yet. -/
theorem WorkerInv.claiming {caller : Caller} (hpc : s.worker.pc = .claim caller)
    (hb : s.worker.bufferNr = some 0) (hposted : s.log.posted = [])
    (hsize : s.worker.bufferSize = s.log.bufferSize)
    (hcode : ∀ code, caller.code = some code → s.log.code = some code)
    (hsent : s.shared.status = statusOk → s.log.sent = caller.left) : WorkerInv cfg s := by
  refine .ofBuffer (by rw [hpc]; rfl) (by simp [hb, hposted]) hsize (by simp [hposted]) ?_ ?_ ?_
    ?_ ?_ (by simp [hposted]) ?_
  · rw [hpc]
    exact hcode
  · rw [hpc]
    exact fun e => absurd e (by simp [WorkerPc.holding])
  · rw [hpc]
    exact fun e => absurd e (by simp [WorkerPc.emptied])
  · rw [hpc]
    exact fun e => absurd e (by simp)
  · rw [hpc]
    exact fun _ e => absurd e (by simp)
  · rintro (hok | hcom)
    · rw [State.pending_nil (by simp [Worker.holds, hpc, WorkerPc.holding]), hpc, hposted]
      exact hsent hok
    · rw [hpc] at hcom
      exact absurd hcom (by simp [WorkerPc.committed])

theorem StreamInv.flushStatus (h : StreamInv cfg s) {caller : Caller}
    (hpc : s.worker.pc = .flushStatus caller) (h' : workerStep cfg s = some s') :
    StreamInv cfg s' := by
  have hin : s.worker.pc.inStream = true := by rw [hpc]; rfl
  have hsize := h.worker.size hin
  have hcode : ∀ code, caller.code = some code → s.log.code = some code := fun code hc =>
    h.worker.code code (by rw [hpc]; exact hc)
  simp only [workerStep, hpc] at h'
  split at h'
  · -- cancelled: the write call fails, the destroy call discards what is buffered
    rename_i hne
    cases hb : s.worker.bufferNr with
    | none =>
      obtain ⟨hposted, hsent, hun⟩ := h.worker.unclaimed hin hb
      cases caller with
      | write left => rw [hpc] at hun; exact absurd hun (by simp [WorkerPc.unclaimed])
      | destroy code =>
        simp only [flushReturn, hb, Option.some.injEq] at h'
        subst h'
        refine h.workerOnly hin rfl rfl rfl rfl rfl rfl rfl ?_ rfl
          (.claiming rfl rfl hposted hsize hcode (fun hok => absurd hok hne))
        simp [Worker.holds, hb, WorkerPc.holding]
    | some j =>
      have hj := h.worker.claimed hin j hb
      have hh : s.worker.holds = true := by simp [Worker.holds, hpc, hb, WorkerPc.holding]
      have hfits := h.worker.fits hh
      cases caller with
      | write left =>
        simp only [flushReturn, Option.some.injEq] at h'
        subst h'
        refine h.workerOnly hin rfl rfl rfl rfl rfl rfl rfl (by rw [hh]; simp [Worker.holds, hb,
          WorkerPc.holding]) rfl ?_
        refine .ofBuffer rfl (by simp [hb, hj]) hsize (h.worker.posted hin)
          (by simp [WorkerPc.code])
          (fun _ => hfits) (by simp [WorkerPc.emptied]) (by simp) (by simp) h.worker.initial ?_
        rintro (hok | hcom)
        · exact absurd hok hne
        · exact absurd hcom (by simp [WorkerPc.committed])
      | destroy code =>
        simp only [flushReturn, hb, Option.some.injEq] at h'
        subst h'
        refine h.workerOnly hin rfl rfl rfl rfl rfl rfl rfl (by rw [hh]; simp [Worker.holds,
          WorkerPc.holding]) rfl ?_
        refine .ofBuffer rfl (by simp [hj]) hsize (h.worker.posted hin) hcode
          (fun _ => hfits) (by simp [WorkerPc.emptied]) (by simp) (by simp) h.worker.initial ?_
        rintro (hok | hcom)
        · exact absurd hok hne
        · exact absurd hcom (by simp [WorkerPc.committed])
  · -- not cancelled: the flush goes on, and what was sent is accounted for
    rename_i hok
    rw [not_not] at hok
    simp only [Option.some.injEq] at h'
    subst h'
    have hh : ({ s.worker with pc := WorkerPc.flushUsed caller } : Worker).holds =
        s.worker.holds := by
      simp [Worker.holds, hpc, WorkerPc.holding]
    refine h.workerOnly hin rfl rfl rfl rfl rfl rfl rfl hh rfl ?_
    have hw := h.worker
    refine ⟨fun _ => hsize, ?_, fun _ => hw.claimed hin, fun _ => hw.posted hin, ?_, hcode, ?_, ?_,
      ?_, ?_, hw.initial, ?_⟩
    · intro _ hb
      obtain ⟨h1, h2, h3⟩ := hw.unclaimed hin hb
      refine ⟨h1, h2, ?_⟩
      rw [hpc] at h3
      cases caller with
      | write left => exact absurd h3 (by simp [WorkerPc.unclaimed])
      | destroy code => rfl
    · exact fun e => absurd e (by simp [WorkerPc.inStream])
    · intro hh'
      exact hw.fits (hh.symm.trans hh')
    · exact fun e => absurd e (by simp [WorkerPc.emptied])
    · exact fun e => absurd e (by simp)
    · exact fun _ e => absurd e (by simp)
    · intro _
      have hexact := hw.exact (Or.inl hok)
      rw [hpc] at hexact
      exact hexact.trans (congrArg (fun pending => s.log.posted.flatten ++ pending ++ caller.left)
        (Eq.symm (State.pending_congr (by rfl) (by rfl) hh (by rw [hpc]; rfl))))

theorem StreamInv.flushUsed (h : StreamInv cfg s) {caller : Caller}
    (hpc : s.worker.pc = .flushUsed caller) (h' : workerStep cfg s = some s') :
    StreamInv cfg s' := by
  have hin : s.worker.pc.inStream = true := by rw [hpc]; rfl
  have hsize := h.worker.size hin
  have hcode : ∀ code, caller.code = some code → s.log.code = some code := fun code hc =>
    h.worker.code code (by rw [hpc]; exact hc)
  have hexact := h.worker.exact (Or.inr (by rw [hpc]; rfl))
  rw [hpc] at hexact
  cases hb : s.worker.bufferNr with
  | none =>
    -- destroy without any write: the flush does nothing and a buffer is claimed
    obtain ⟨hposted, hsent, hun⟩ := h.worker.unclaimed hin hb
    cases caller with
    | write left => rw [hpc] at hun; exact absurd hun (by simp [WorkerPc.unclaimed])
    | destroy code =>
      simp only [workerStep, hpc, hb, flushReturn, Option.some.injEq] at h'
      subst h'
      refine h.workerOnly hin rfl rfl rfl rfl rfl rfl rfl ?_ rfl
        (.claiming rfl rfl hposted hsize hcode (fun _ => hsent))
      simp [Worker.holds, hb, WorkerPc.holding]
  | some j =>
    have hj := h.worker.claimed hin j hb
    subst hj
    have hh : s.worker.holds = true := by simp [Worker.holds, hpc, hb, WorkerPc.holding]
    have hfits := h.worker.fits hh
    simp only [workerStep, hpc, hb, flushReturn_zero hb] at h'
    split at h'
    · -- nothing buffered
      rename_i h0
      rw [State.pending_empty h0] at hexact
      simp only [Option.some.injEq] at h'
      subst h'
      refine h.workerOnly hin rfl rfl rfl rfl rfl rfl rfl
        (by rw [hh]; cases caller <;> rfl) rfl ?_
      refine .ofBuffer (by cases caller <;> rfl) rfl hsize (h.worker.posted hin) ?_ (fun _ => hfits)
        ?_ ?_ ?_ h.worker.initial ?_
      · intro code hc
        cases caller with
        | write left => exact absurd hc (by simp [WorkerPc.code])
        | destroy code' => exact hcode code hc
      · intro he
        cases caller <;> exact absurd he (by simp [WorkerPc.emptied])
      · intro he
        cases caller <;> exact absurd he (by simp)
      · intro _ he
        cases caller <;> exact absurd he (by simp)
      · intro _
        rw [State.pending_empty (by exact h0)]
        cases caller <;> exact hexact
    · rename_i h0
      simp only [Option.some.injEq] at h'
      subst h'
      refine h.workerOnly hin rfl rfl rfl rfl rfl rfl rfl (by rw [hh]; rfl) rfl ?_
      refine .ofBuffer rfl rfl hsize (h.worker.posted hin) hcode (fun _ => hfits)
        (by simp [WorkerPc.emptied]) (by simp) (fun _ _ => Nat.pos_of_ne_zero h0)
        h.worker.initial ?_
      intro _
      rw [State.pending_eq hh (by rw [hpc]; rfl)] at hexact
      rw [State.pending_eq rfl rfl]
      exact hexact

/-! ## 5. Posting a buffer -/

/-- The worker posts the buffer it holds. -/
theorem StreamInv.postBuffer (h : StreamInv cfg s) (hl : Layout cfg s.shared.buffer)
    (hin : s.worker.pc.inStream = true) (hh : s.worker.holds = true)
    (hs' : s'.shared = s.shared.setBuffer (s.log.posted.length % cfg.nrBuffers)
      { s.shared.buffer (s.log.posted.length % cfg.nrBuffers) with
        readyForRead :=
          (s.shared.buffer (s.log.posted.length % cfg.nrBuffers)).readyForRead + 1 })
    (hlog : s'.log = { s.log with posted := s.log.posted ++
      [readMem s.shared.mem (s.shared.buffer (s.log.posted.length % cfg.nrBuffers)).offset
        (s.shared.buffer (s.log.posted.length % cfg.nrBuffers)).used] })
    (hh' : s'.worker.holds = false) (hdead : s'.worker.dead = s.worker.dead)
    (hclient : s'.client = s.client) (hw : WorkerInv cfg s') : StreamInv cfg s' := by
  have ht := h.tokens
  have hst := h.stored
  rw [hh] at ht hst
  have hused : BufferData.used ∘ s'.shared.buffer = BufferData.used ∘ s.shared.buffer := by
    rw [hs', Shared.setBuffer_buffer]
    exact comp_update_eq s.shared.buffer BufferData.used rfl
  have hwrite : BufferData.readyForWrite ∘ s'.shared.buffer =
      BufferData.readyForWrite ∘ s.shared.buffer := by
    rw [hs', Shared.setBuffer_buffer]
    exact comp_update_eq s.shared.buffer BufferData.readyForWrite rfl
  have hcontent : readMem s.shared.mem
      (s.shared.buffer (s.log.posted.length % cfg.nrBuffers)).offset
      (s.shared.buffer (s.log.posted.length % cfg.nrBuffers)).used =
      content cfg (BufferData.used ∘ s.shared.buffer) s.shared.mem
        (s.log.posted.length % cfg.nrBuffers) := by
    rw [hl]
    rfl
  refine ⟨by rw [hlog]; exact h.size, ?_, ?_, hw, ?_⟩
  · have hch : s'.clientHolds = s.clientHolds := by simp only [State.clientHolds, hclient, hlog]
    rw [hwrite, hh', hch, hs', Shared.setBuffer_buffer, Function.comp_update, hlog]
    simp only [List.length_append, List.length_singleton]
    exact ht.producerPost
  · rw [hused, hlog, hh', hclient, hs', Shared.setBuffer_mem, hcontent]
    exact hst.post
  · refine h.client.of_worker hin h.client_lt h.tokens.le hclient ?_ hdead ?_ ?_ ?_ ?_
    · rw [hs', Shared.setBuffer_status]
    all_goals simp [hlog]

theorem StreamInv.flushPost (h : StreamInv cfg s) (hl : Layout cfg s.shared.buffer)
    {caller : Caller} (hpc : s.worker.pc = .flushPost caller)
    (h' : workerStep cfg s = some s') : StreamInv cfg s' := by
  have hin : s.worker.pc.inStream = true := by rw [hpc]; rfl
  have hb := h.worker.bufferNr hin (by rw [hpc]; rfl)
  have hh : s.worker.holds = true := by simp [Worker.holds, hpc, hb, WorkerPc.holding]
  have hfits := h.worker.fits hh
  have hpos := h.worker.nonempty caller hpc
  have hexact := h.worker.exact (Or.inr (by rw [hpc]; rfl))
  rw [State.pending_eq hh (by rw [hpc]; rfl), hpc] at hexact
  simp only [content, Function.comp_apply] at hexact
  rw [← hl] at hexact
  simp only [workerStep, hpc, hb, Option.some.injEq] at h'
  subst h'
  refine h.postBuffer hl hin hh rfl rfl rfl rfl rfl ?_
  refine .ofBuffer rfl ?_ (h.worker.size hin) ?_ ?_ (by simp [WorkerPc.holding])
    (by simp [WorkerPc.emptied]) (by simp) (by simp) ?_ ?_
  · simp [Nat.mod_add_mod]
  · intro blk hblk
    rcases List.mem_append.mp hblk with hm | hm
    · exact h.worker.posted hin blk hm
    · rw [List.mem_singleton.mp hm]
      exact ⟨by rw [readMem_length]; exact hpos, by simpa using hfits⟩
  · intro code hc
    exact h.worker.code code (by rw [hpc]; exact hc)
  · rw [hexact]
    simp
  · intro _
    rw [State.pending_nil rfl]
    simp only [List.flatten_append, List.flatten_singleton, List.append_nil]
    exact hexact

theorem StreamInv.publish (h : StreamInv cfg s) {code : Int} (hpc : s.worker.pc = .publish code)
    (h' : workerStep cfg s = some s') : StreamInv cfg s' := by
  have hin : s.worker.pc.inStream = true := by rw [hpc]; rfl
  have hb := h.worker.bufferNr hin (by rw [hpc]; rfl)
  have hh : s.worker.holds = true := by simp [Worker.holds, hpc, hb, WorkerPc.holding]
  simp only [workerStep, hpc, hb, Option.some.injEq] at h'
  subst h'
  refine h.fillBuffer hin hh rfl rfl rfl (Nat.zero_le _) rfl (fun _ _ => rfl) rfl rfl rfl rfl ?_
  refine .ofBuffer rfl rfl (h.worker.size hin) (h.worker.posted hin) (by simp [WorkerPc.code])
    (fun _ => by simp) (fun _ => by simp) ?_ (by simp) h.worker.initial ?_
  · intro _
    simpa using h.worker.code code (by rw [hpc]; rfl)
  · rintro (hok | hcom)
    · have hexact := h.worker.exact (Or.inl hok)
      rw [State.pending_discarded (by rw [hpc]; rfl), hpc] at hexact
      rw [State.pending_discarded rfl]
      exact hexact
    · exact absurd hcom (by simp [WorkerPc.committed])

/-- **The zero sized block.**  It is the last one, and its header carries the return code. -/
theorem StreamInv.post (h : StreamInv cfg s) (hl : Layout cfg s.shared.buffer)
    (hpc : s.worker.pc = .post) (h' : workerStep cfg s = some s') : StreamInv cfg s' := by
  have hin : s.worker.pc.inStream = true := by rw [hpc]; rfl
  have hb := h.worker.bufferNr hin (by rw [hpc]; rfl)
  have hh : s.worker.holds = true := by simp [Worker.holds, hpc, hb, WorkerPc.holding]
  have h0 := h.worker.empty (by rw [hpc]; rfl)
  have hcode := h.worker.status hpc
  have hposted := h.worker.posted hin
  have hinitial := h.worker.initial
  have hexact := fun hok => h.worker.exact (Or.inl hok)
  rw [State.pending_discarded (by rw [hpc]; rfl), hpc] at hexact
  simp only [workerStep, hpc, hb, Option.some.injEq] at h'
  subst h'
  refine h.postBuffer hl hin hh rfl rfl rfl rfl rfl ?_
  refine ⟨?_, ?_, ?_, ?_, fun _ => ?_, ?_, ?_, ?_, ?_, ?_, ?_, ?_⟩
  iterate 4 exact fun e => absurd e (by simp [WorkerPc.inStream])
  · refine ⟨s.log.posted, _, ?_, hposted, hcode, ?_⟩
    · simp [h0]
    · simp
  · exact fun _ e => absurd e (by simp [WorkerPc.code])
  · exact fun e => absurd e (by simp [Worker.holds, WorkerPc.holding])
  · exact fun e => absurd e (by simp [WorkerPc.emptied])
  · exact fun e => absurd e (by simp)
  · exact fun _ e => absurd e (by simp)
  · simpa [h0] using hinitial
  · rintro (hok | hcom)
    · rw [State.pending_nil rfl]
      simpa [h0, WorkerPc.left] using hexact hok
    · exact absurd hcom (by simp [WorkerPc.committed])

/-! ## 6. Every step of a worker in a stream -/

/-- A worker that has posted its zero sized block takes no more steps in the stream: what it
still does is read the next command. -/
theorem StreamInv.finished (h : StreamInv cfg s) (hpc : s.worker.pc = .finished)
    (h' : workerStep cfg s = some s') : StreamInv cfg s' := by
  have hw := h.worker
  have hout : s.worker.pc.inStream = false := by rw [hpc]; rfl
  have hh : s.worker.holds = false := by simp [Worker.holds, hpc, WorkerPc.holding]
  have ht := h.tokens
  have hst := h.stored
  have hexact := hw.exact
  rw [hh] at ht hst
  rw [State.pending_nil hh, hpc] at hexact
  simp only [workerStep, hpc, Option.some.injEq] at h'
  subst h'
  refine ⟨h.size, ht, hst, ⟨?_, ?_, ?_, ?_, fun _ => hw.ended hout, ?_, ?_, ?_, ?_, ?_, hw.initial,
    ?_⟩, ?_⟩
  iterate 4 exact fun e => absurd e (by simp [WorkerPc.inStream])
  · exact fun _ e => absurd e (by simp [WorkerPc.code])
  · exact fun e => absurd e (by simp [Worker.holds, WorkerPc.holding])
  · exact fun e => absurd e (by simp [WorkerPc.emptied])
  · exact fun e => absurd e (by simp)
  · exact fun _ e => absurd e (by simp)
  · intro hs
    rw [State.pending_nil rfl]
    exact hexact (hs.imp_right (by simp [WorkerPc.committed]))
  · have hc := h.client
    refine ⟨hc.next, hc.running, hc.uncancelled, hc.cancelled, hc.copying, hc.copied, ?_,
      hc.failed, hc.got, hc.gotAll, hc.given⟩
    intro st hst
    obtain ⟨h1, h2, -, h4⟩ := hc.result st hst
    exact ⟨h1, h2, rfl, h4⟩

/-- **A step of the worker preserves the invariant of an open stream.** -/
theorem StreamInv.workerStep (h : StreamInv cfg s) (hl : Layout cfg s.shared.buffer)
    (h' : workerStep cfg s = some s') : StreamInv cfg s' := by
  cases hpc : s.worker.pc with
  | command => simp [Ring.workerStep, hpc] at h'
  | between => simp [Ring.workerStep, hpc] at h'
  | claim caller => exact h.claim hpc h'
  | reset caller => exact h.reset hpc h'
  | copy left => exact h.copy hl hpc h'
  | flushStatus caller => exact h.flushStatus hpc h'
  | flushUsed caller => exact h.flushUsed hpc h'
  | flushPost caller => exact h.flushPost hl hpc h'
  | flushWait caller => exact h.flushWait hpc h'
  | publish code => exact h.publish hpc h'
  | post => exact h.post hl hpc h'
  | finished => exact h.finished hpc h'

/-- The packer calls `msgpack_chunkbuffer_write`: the bytes are sent, none is copied yet. -/
theorem StreamInv.write (h : StreamInv cfg s) {buf : List UInt8}
    (h' : exec cfg s (.write buf) = some s') : StreamInv cfg s' := by
  cases hdead : s.worker.dead with
  | true => simp [exec, hdead] at h'
  | false =>
    by_cases hpc : s.worker.pc = .between
    · have hin : s.worker.pc.inStream = true := by rw [hpc]; rfl
      have hsize := h.worker.size hin
      cases hb : s.worker.bufferNr with
      | none =>
        obtain ⟨hposted, hsent, -⟩ := h.worker.unclaimed hin hb
        simp only [exec, hpc, hdead, hb, Option.some.injEq] at h'
        subst h'
        refine h.workerOnly hin rfl rfl rfl rfl rfl rfl rfl ?_ hdead.symm
          (.claiming rfl rfl hposted hsize (by simp [Caller.code]) ?_)
        · simp [Worker.holds, hb, WorkerPc.holding]
        · intro _
          simp [hsent, Caller.left]
      | some j =>
        have hj := h.worker.claimed hin j hb
        subst hj
        have hh : s.worker.holds = true := by simp [Worker.holds, hpc, hb, WorkerPc.holding]
        have hfits := h.worker.fits hh
        have hexact := fun hok => h.worker.exact (Or.inl hok)
        rw [State.pending_eq hh (by rw [hpc]; rfl), hpc] at hexact
        simp only [exec, hpc, hdead, hb, Option.some.injEq] at h'
        subst h'
        refine h.workerOnly hin rfl rfl rfl rfl rfl rfl rfl (by rw [hh]; rfl) hdead.symm ?_
        refine .ofBuffer rfl rfl hsize (h.worker.posted hin) (by simp [WorkerPc.code])
          (fun _ => hfits) (by simp [WorkerPc.emptied]) (by simp) (by simp)
          (h.worker.initial.trans (List.prefix_append _ _)) ?_
        rintro (hok | hcom)
        · rw [State.pending_eq rfl rfl]
          have := hexact hok
          simp only [WorkerPc.left, List.append_nil] at this ⊢
          rw [this]
        · exact absurd hcom (by simp [WorkerPc.committed])
    · cases hp : s.worker.pc <;> simp_all [exec]

/-- The packer calls `msgpack_chunkbuffer_destroy`. -/
theorem StreamInv.destroy (h : StreamInv cfg s) {code : Int}
    (h' : exec cfg s (.destroy code) = some s') : StreamInv cfg s' := by
  cases hdead : s.worker.dead with
  | true => simp [exec, hdead] at h'
  | false =>
    by_cases hpc : s.worker.pc = .between
    · have hin : s.worker.pc.inStream = true := by rw [hpc]; rfl
      have hw := h.worker
      have hh : ({ s.worker with pc := WorkerPc.flushStatus (.destroy code) } : Worker).holds =
          s.worker.holds := by
        simp [Worker.holds, hpc, WorkerPc.holding]
      have hexact := fun hok => hw.exact (Or.inl hok)
      rw [hpc] at hexact
      simp only [exec, hpc, hdead, Option.some.injEq] at h'
      subst h'
      refine h.workerOnly hin rfl rfl rfl rfl rfl rfl rfl hh hdead.symm ?_
      refine ⟨fun _ => hw.size hin, ?_, fun _ => hw.claimed hin, fun _ => hw.posted hin,
        fun e => absurd e (by simp [WorkerPc.inStream]), ?_, ?_,
        fun e => absurd e (by simp [WorkerPc.emptied]), fun e => absurd e (by simp),
        fun _ e => absurd e (by simp), hw.initial, ?_⟩
      · intro _ hb
        obtain ⟨h1, h2, -⟩ := hw.unclaimed hin hb
        exact ⟨h1, h2, rfl⟩
      · intro code' hc
        exact hc
      · intro hh'
        exact hw.fits (hh.symm.trans hh')
      · rintro (hok | hcom)
        · exact (hexact hok).trans (congrArg (fun pending => s.log.posted.flatten ++ pending ++ [])
            (Eq.symm (State.pending_congr (by rfl) (by rfl) hh (by rw [hpc]; rfl))))
        · exact absurd hcom (by simp [WorkerPc.committed])
    · cases hp : s.worker.pc <;> simp_all [exec]

end HdfStream.Ring
