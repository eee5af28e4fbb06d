/-
# One call of `hdfstream_read_chunk`

What the steps of the ring do to a response.  While the library is between two calls they leave it
alone (`streaming_step`).  During a call of `hdfstream_read_chunk` they get to a block, which comes
after all bytes that were read before and fits into the buffer of the stream, or to the end of the
stream (`Fetching.step`).  After a close the packer has nothing left to say (`idle_step`).
-/
import HdfStream.Delivery.Model

namespace HdfStream.Delivery

open HdfStream.Ring

variable {cfg : Config} {s s' : Ring.State} {a : Ring.Action} {got : List UInt8}

/-! ## 1. Steps of the worker -/

/-- What a step of the worker leaves alone. -/
structure SameClient (s s' : Ring.State) : Prop where
  client : s'.client = s.client
  got : s'.log.got = s.log.got
  result : s'.log.result = s.log.result
  bufferSize : s'.log.bufferSize = s.log.bufferSize

theorem workerStep_sameClient (h' : workerStep cfg s = some s') : SameClient s s' := by
  cases hpc : s.worker.pc <;> cases hb : s.worker.bufferNr
  all_goals
    simp only [workerStep, hpc, hb] at h'
    try split at h'
  all_goals cases h'
  all_goals exact ⟨rfl, rfl, rfl, rfl⟩

/-- A step of the worker, or its death. -/
theorem worker_sameClient (ha : a.byWorker = true ∨ a = .die) (h' : Ring.exec cfg s a = some s') :
    SameClient s s' := by
  cases a with
  | worker =>
    rw [Ring.exec] at h'
    split at h'
    · cases h'
    · exact workerStep_sameClient h'
  | write buf =>
    simp only [Ring.exec] at h'
    split at h'
    · cases h'
      exact ⟨rfl, rfl, rfl, rfl⟩
    · cases h'
  | destroy code =>
    simp only [Ring.exec] at h'
    split at h'
    · cases h'
      exact ⟨rfl, rfl, rfl, rfl⟩
    · cases h'
  | die =>
    cases h'
    exact ⟨rfl, rfl, rfl, rfl⟩
  | accept | refuse | client | «open» n | read | close | waitFailed | openFailed =>
    rcases ha with ha | ha
    · cases ha
    · cases ha

/-- The steps of a call that opens a stream. -/
theorem open_idle (ha : a = .refuse ∨ (∃ n, a = .open n) ∨ a = .openFailed)
    (h' : Ring.exec cfg s a = some s') : s.client.pc.hasStream = false := by
  rcases ha with rfl | ⟨n, rfl⟩ | rfl
  · simp only [Ring.exec] at h'
    split at h'
    · rename_i hpc
      rw [hpc]
      rfl
    · cases h'
  · simp only [Ring.exec] at h'
    split at h'
    · rename_i hpc
      rw [hpc]
      rfl
    · cases h'
  · simp only [Ring.exec] at h'
    split at h'
    · rename_i hpc
      rw [hpc]
      rfl
    · cases h'

theorem mode_hasStream {pc : ClientPc} {mode : Mode} (h : pc.mode = some mode) :
    pc.hasStream = true := by
  cases pc with
  | closed | setStatus | initSemaphores | request => cases h
  | streaming | wait | readUsed | copyOut | resetUsed | post | setCancel => rfl

/-- The library between two calls: only the worker can move. -/
theorem streaming_step (hpc : s.client.pc = .streaming) (ha : Free a)
    (h' : Ring.exec cfg s a = some s') : SameClient s s' := by
  cases a with
  | worker | write buf | destroy code => exact worker_sameClient (.inl rfl) h'
  | die => exact worker_sameClient (.inr rfl) h'
  | accept | read | close => exact ha.elim
  | client => simp only [Ring.exec, clientStep, hpc, reduceCtorEq] at h'
  | waitFailed => simp only [Ring.exec, hpc, reduceCtorEq] at h'
  | refuse | «open» n | openFailed =>
    have hidle := open_idle (by simp) h'
    rw [hpc] at hidle
    cases hidle

/-! ## 2. A call -/

/-- A call of `hdfstream_read_chunk`, when `got` was read before. -/
inductive Fetching (got : List UInt8) (s : Ring.State) : Prop where
  | running (hmode : s.client.pc.mode = some .read) (hgot : s.log.got = got)
  /-- It has returned a block. -/
  | block (hpc : s.client.pc = .streaming) (hended : s.client.ended = false)
      (hgot : s.log.got = got ++ s.client.outBuf) (hne : s.client.outBuf ≠ [])
      (hlen : s.client.outBuf.length ≤ s.log.bufferSize)
  /-- It has returned 0. -/
  | ended (hpc : s.client.pc = .streaming) (hended : s.client.ended = true)
      (hgot : s.log.got = got) (hsuccess : s.client.status = 0 → s.log.result = some 0)

/-- A block with data fits into the buffer. -/
theorem block_length (h : StreamInv cfg s) {b : ℕ} (hne : s.log.block b ≠ []) :
    (s.log.block b).length ≤ s.log.bufferSize := by
  have hmem : s.log.block b ∈ s.log.posted := by
    by_cases hb : b < s.log.posted.length
    · rw [Log.block, List.getD_eq_getElem _ _ hb]
      exact List.getElem_mem hb
    · rw [Log.block, List.getD_eq_default _ _ (Nat.not_lt.mp hb)] at hne
      exact absurd rfl hne
  rcases hin : s.worker.pc.inStream with _ | _
  · obtain ⟨q, -, hq, hdata, -⟩ := h.worker.ended hin
    rw [hq] at hmem
    rcases List.mem_append.mp hmem with hmem | hmem
    · exact (hdata _ hmem).2
    · exact absurd (List.mem_singleton.mp hmem) hne
  · exact (h.worker.posted hin _ hmem).2

theorem statusError_ne : statusError ≠ 0 := by decide

/-- The client's steps in a call. -/
theorem Fetching.client (h : Ring.Inv cfg s) (hmode : s.client.pc.mode = some .read)
    (hgot : s.log.got = got) (h' : clientStep cfg s = some s') : Fetching got s' := by
  have hinv := h.stream (mode_hasStream hmode)
  cases hpc : s.client.pc with
  | closed | setStatus n | initSemaphores n | request n | streaming | setCancel =>
    rw [hpc] at hmode
    cases hmode
  | wait mode =>
    rw [hpc] at hmode
    cases hmode
    simp only [clientStep, hpc] at h'
    split at h'
    · cases h'
      exact .running rfl hgot
    · cases h'
  | readUsed mode =>
    rw [hpc] at hmode
    cases hmode
    simp only [clientStep, hpc] at h'
    split at h'
    · cases h'
      exact .ended rfl rfl hgot fun hstatus => congrArg some hstatus
    · cases h'
      exact .running rfl hgot
  | copyOut mode n =>
    rw [hpc] at hmode
    cases hmode
    simp only [clientStep, hpc] at h'
    cases h'
    exact .running rfl hgot
  | resetUsed mode =>
    rw [hpc] at hmode
    cases hmode
    simp only [clientStep, hpc] at h'
    cases h'
    exact .running rfl hgot
  | post mode =>
    rw [hpc] at hmode
    cases hmode
    have hended := (hinv.client.running (by rw [hpc]; exact fun hn => by cases hn)).1
    obtain ⟨hne, hcopied⟩ := hinv.client.copied .read (.inr hpc)
    have hout := hcopied rfl
    simp only [clientStep, hpc] at h'
    cases h'
    refine .block rfl hended (congrArg (· ++ s.client.outBuf) hgot) ?_ ?_
    · show s.client.outBuf ≠ []
      rw [hout]
      exact hne
    · show s.client.outBuf.length ≤ s.log.bufferSize
      rw [hout]
      exact block_length hinv hne

/-- **A call goes on**, whatever the worker does. -/
theorem Fetching.step (h : Ring.Inv cfg s) (hfetch : Fetching got s) (ha : Free a)
    (h' : Ring.exec cfg s a = some s') : Fetching got s' := by
  cases hfetch with
  | running hmode hgot =>
    have hworker : a.byWorker = true ∨ a = .die → Fetching got s' := fun hworker => by
      have hsame := worker_sameClient hworker h'
      exact .running (by rw [hsame.client]; exact hmode) (hsame.got.trans hgot)
    cases a with
    | worker | write buf | destroy code => exact hworker (.inl rfl)
    | die => exact hworker (.inr rfl)
    | accept | read | close => exact ha.elim
    | client => exact Fetching.client h hmode hgot h'
    | waitFailed =>
      simp only [Ring.exec] at h'
      split at h'
      · rename_i mode hpc
        rw [hpc] at hmode
        cases hmode
        split at h'
        · cases h'
          exact .ended rfl rfl hgot fun hstatus => absurd hstatus statusError_ne
        · cases h'
      · cases h'
    | refuse | «open» n | openFailed =>
      have hidle := open_idle (by simp) h'
      rw [mode_hasStream hmode] at hidle
      cases hidle
  | block hpc hended hgot hne hlen =>
    have hsame := streaming_step hpc ha h'
    rw [← hsame.client] at hpc hended hgot hne hlen
    exact .block hpc hended (hsame.got.trans hgot) hne (by rw [hsame.bufferSize]; exact hlen)
  | ended hpc hended hgot hsuccess =>
    have hsame := streaming_step hpc ha h'
    rw [← hsame.client] at hpc hended hsuccess
    exact .ended hpc hended (hsame.got.trans hgot) (by rw [hsame.result]; exact hsuccess)

/-! ## 3. After the close -/

/-- Nothing is read but in a call of the reader. -/
theorem exec_got (ha : Free a) (h' : Ring.exec cfg s a = some s') :
    s.log.got <+: s'.log.got := by
  cases a with
  | worker | write buf | destroy code =>
    rw [(worker_sameClient (.inl rfl) h').got]
  | die => rw [(worker_sameClient (.inr rfl) h').got]
  | accept | read | close => exact ha.elim
  | client =>
    rw [Ring.exec] at h'
    cases hpc : s.client.pc with
    | post mode =>
      simp only [clientStep, hpc] at h'
      cases h'
      cases mode with
      | read => exact List.prefix_append _ _
      | close => exact List.prefix_rfl
    | closed | setStatus n | initSemaphores n | request n | streaming | wait mode | readUsed mode
    | copyOut mode n | resetUsed mode | setCancel =>
      simp only [clientStep, hpc] at h'
      try split at h'
      all_goals cases h'
      all_goals exact List.prefix_rfl
  | refuse | «open» n | waitFailed | openFailed =>
    simp only [Ring.exec] at h'
    repeat' split at h'
    all_goals cases h'
    all_goals exact List.prefix_rfl

/-- **With no stream open** nothing is packed, and a dead worker stays dead. -/
theorem idle_step (h : Ring.Inv cfg s) (hstream : s.client.pc.hasStream = false) (ha : Free a)
    (h' : Ring.exec cfg s a = some s') :
    s'.client.pc.hasStream = false ∧ s'.log.sent = s.log.sent ∧ s'.log.code = s.log.code ∧
      (s.worker.dead = true → s'.worker.dead = true) := by
  have hidle := h.idle hstream
  cases a with
  | worker =>
    have hsame := worker_sameClient (.inl rfl) h'
    rw [Ring.exec] at h'
    split at h'
    · cases h'
    · rename_i hlive
      obtain ⟨hsent, hcode⟩ := workerStep_log h'
      exact ⟨by rw [hsame.client]; exact hstream, hsent, hcode, fun hdead => absurd hdead hlive⟩
  | write buf =>
    simp only [Ring.exec] at h'
    split at h'
    · rename_i hpc hlive
      exact (hidle.not_between hpc hlive).elim
    · cases h'
  | destroy code =>
    simp only [Ring.exec] at h'
    split at h'
    · rename_i hpc hlive
      exact (hidle.not_between hpc hlive).elim
    · cases h'
  | die =>
    cases h'
    exact ⟨hstream, rfl, rfl, fun _ => rfl⟩
  | accept | read | close => exact ha.elim
  | client =>
    rw [Ring.exec] at h'
    cases hpc : s.client.pc with
    | setStatus n | initSemaphores n =>
      simp only [clientStep, hpc] at h'
      cases h'
      exact ⟨rfl, rfl, rfl, id⟩
    | closed | request n => simp only [clientStep, hpc, reduceCtorEq] at h'
    | streaming | wait mode | readUsed mode | copyOut mode n | resetUsed mode | post mode
    | setCancel =>
      rw [hpc] at hstream
      cases hstream
  | refuse | «open» n | openFailed =>
    simp only [Ring.exec] at h'
    repeat' split at h'
    all_goals cases h'
    all_goals exact ⟨rfl, rfl, rfl, id⟩
  | waitFailed =>
    simp only [Ring.exec] at h'
    split at h'
    · rename_i mode hpc
      rw [hpc] at hstream
      cases hstream
    · cases h'

end HdfStream.Delivery
