/-
# What the client of the web server gets

The invariant holds in every run (`inv_run`), and with it `delivered`: a response is a beginning of
what the worker has packed for it, and all of it when the copy returns.
-/
import HdfStream.Delivery.Invariant

namespace HdfStream.Delivery

open Reading

variable {cfg : Ring.Config} {calm : Prop} {s s' : State} {r : Response}

/-! ## 1. Every step -/

/-- `read` is called. -/
theorem Inv.read (h : Inv cfg calm s) (hr : s.response = some r) {shuttingDown : Bool}
    (h' : responseStep cfg s r (.read shuttingDown) = some s') :
    Inv cfg (calm ∧ shuttingDown = false) s' := by
  have hresponse := h.response r hr
  rw [responseStep] at h'
  split at h'
  · rename_i hpc
    cases hresponse with
    | native hpc' | writing hpc' | closing hpc' | done hpc' =>
      rw [hpc] at hpc'
      cases hpc'
    | reading _ hloop hidle hgot =>
      split at h'
      · rename_i hneeds
        have hread : Ring.exec cfg s.ring .read =
            some { s.ring with client.pc := .wait .read } := by
          simp only [Ring.exec, hidle.1, hidle.2, Bool.false_eq_true, if_false]
        rw [hread, Option.map_some, Option.some.injEq] at h'
        subst h'
        rw [buffered_nil hneeds.2.2.2, List.append_nil] at hgot
        exact Inv.of_response (h.ring.step hread) rfl
          (.native rfl ⟨hloop.reads, hloop.room, hloop.size⟩ hneeds.2.2.2 (.running rfl hgot))
      · rename_i hneeds
        cases shuttingDown with
        | true =>
          rw [readAll, readAt, if_pos rfl, finishRead, if_pos rfl, Option.map_some,
            Option.some.injEq] at h'
          subst h'
          refine Inv.of_response h.ring rfl (.closing rfl ⟨?_, fun hok => (by cases hok),
            fun e _ hcalm => (by cases hcalm.2)⟩ fun _ => hidle)
          show r.out <+: s.ring.log.got
          rw [hgot]
          exact List.prefix_append _ _
        | false =>
          rw [hloop.reads.needsChunk_iff, Int.not_le] at hneeds
          obtain ⟨n, hdeliver⟩ := hloop.reads.deliver hloop.room hneeds
          exact finishRead_delivers h.ring hloop hidle hdeliver rfl hgot h'
  · cases h'

/-- The output takes the bytes, or throws an exception. -/
theorem Inv.write (h : Inv cfg calm s) (hr : s.response = some r) {ok : Bool}
    (h' : responseStep cfg s r (.write ok) = some s') : Inv cfg (calm ∧ ok = true) s' := by
  have hresponse := h.response r hr
  rw [responseStep] at h'
  split at h'
  · rename_i n hpc
    cases hresponse with
    | reading hpc' | native hpc' | closing hpc' | done hpc' =>
      rw [hpc] at hpc'
      cases hpc'
    | @writing m hpc' hloop hidle hgot =>
      rw [hpc] at hpc'
      cases hpc'
      cases h'
      cases ok with
      | true =>
        refine Inv.of_response h.ring rfl
          (.reading rfl ⟨hloop.reads, hloop.room, hloop.size⟩ hidle ?_)
        show s.ring.log.got = r.out ++ r.buf.take n ++ buffered r.stream
        rw [hgot, List.append_assoc]
      | false =>
        refine Inv.of_response h.ring rfl (.closing rfl ⟨?_, fun hok => (by cases hok),
          fun e _ hcalm => (by cases hcalm.2)⟩ fun _ => hidle)
        show r.out <+: s.ring.log.got
        rw [hgot]
        exact List.prefix_append _ _
  · cases h'

/-- The end of the `try` statement. -/
theorem Inv.close (h : Inv cfg calm s) (hr : s.response = some r)
    (h' : responseStep cfg s r .close = some s') : Inv cfg calm s' := by
  have hresponse := h.response r hr
  rw [responseStep] at h'
  split at h'
  · rename_i result hpc
    cases hresponse with
    | reading hpc' | native hpc' | writing hpc' | done hpc' =>
      rw [hpc] at hpc'
      cases hpc'
    | closing hpc' hout hclosed =>
      rw [hpc] at hpc'
      cases hpc'
      split at h'
      · rw [Option.map_some, Option.some.injEq] at h'
        subst h'
        exact Inv.of_response h.ring rfl (.done rfl hout)
      · rename_i hopen
        obtain ⟨hstreaming, hended⟩ := hclosed (Bool.eq_false_iff.mpr hopen)
        have hclose : Ring.exec cfg s.ring .close =
            some { s.ring with client.pc := .setCancel } := by
          simp only [Ring.exec, hstreaming, hended, Bool.false_eq_true, if_false]
        rw [hclose, Option.map_some, Option.some.injEq] at h'
        subst h'
        have hstream : s.ring.client.pc.hasStream = true := by rw [hstreaming]; rfl
        -- an open stream has no result yet
        refine Inv.of_response (h.ring.step hclose) rfl (.done rfl ⟨hout.written, fun hok => ?_,
          fun e he hcalm => ?_⟩)
        · have hidle := (hout.success hok).1
          rw [hstream] at hidle
          cases hidle
        · have hidle := (hout.failure e he hcalm).1
          rw [hstream] at hidle
          cases hidle
  · cases h'

/-- A response is asked for. -/
theorem Inv.opened (h : Inv cfg calm s) {arraySize : ℕ}
    (h' : exec cfg s (.opened arraySize) = some s') : Inv cfg calm s' := by
  simp only [exec] at h'
  split at h'
  · rename_i n hpc
    split at h'
    · rename_i hsizes
      obtain ⟨hn, harray, -⟩ := hsizes
      obtain ⟨ring', hring', rfl⟩ := Option.map_eq_some_iff.mp h'
      have hidle := h.ring.idle (by rw [hpc]; rfl)
      have hpos := hidle.size n (by rw [hpc]; rfl)
      have hstep := h.ring.step hring'
      simp only [Ring.exec] at hring'
      split at hring'
      · rename_i m _ _ hpc'
        rw [hpc] at hpc'
        cases hpc'
        cases hring'
        refine Inv.of_response hstep rfl (.reading rfl ⟨Reads.new hpos hn, ?_, ?_⟩ ⟨rfl, rfl⟩ rfl)
        · show 0 < (List.replicate arraySize (0 : UInt8)).length
          rw [List.length_replicate]
          exact harray
        · show ((min n cfg.bufferSize : ℕ) : Int) ≤ n
          omega
      · cases hring'
    · cases h'
  · cases h'

/-- **Every step keeps the invariant.** -/
theorem Inv.step (h : Inv cfg calm s) {a : Action} (h' : exec cfg s a = some s') :
    Inv cfg (calm ∧ a.Undisturbed) s' := by
  have hcalm : ∀ p : Prop, Inv cfg calm s' → Inv cfg (calm ∧ p) s' := fun p hinv =>
    ⟨hinv.ring, fun r hr => (hinv.response r hr).mono And.left⟩
  cases a with
  | ring b =>
    rw [exec] at h'
    split at h'
    · rename_i hfree
      obtain ⟨ring', hring', rfl⟩ := Option.map_eq_some_iff.mp h'
      refine hcalm _ ⟨h.ring.step hring', fun r hr => ?_⟩
      exact (h.response r hr).step h.ring hfree hring'
    · cases h'
  | opened arraySize => exact hcalm _ (h.opened h')
  | read shuttingDown =>
    obtain ⟨r, hr, hstep⟩ := Option.bind_eq_some_iff.mp h'
    exact h.read hr hstep
  | returned =>
    obtain ⟨r, hr, hstep⟩ := Option.bind_eq_some_iff.mp h'
    exact hcalm _ (h.returned hr hstep)
  | write ok =>
    obtain ⟨r, hr, hstep⟩ := Option.bind_eq_some_iff.mp h'
    exact h.write hr hstep
  | close =>
    obtain ⟨r, hr, hstep⟩ := Option.bind_eq_some_iff.mp h'
    exact hcalm _ (h.close hr hstep)

/-! ## 2. What was packed -/

/-- What a step does to the ring. -/
theorem exec_ring {a : Action} (h' : exec cfg s a = some s') :
    (∃ b, a.toRing = some b ∧ Ring.exec cfg s.ring b = some s'.ring) ∨
      (a.toRing = none ∧ (s'.ring = s.ring ∨ Ring.exec cfg s.ring .read = some s'.ring ∨
        Ring.exec cfg s.ring .close = some s'.ring)) := by
  have hfinish : ∀ r ret, finishRead cfg s r ret = some s' →
      s'.ring = s.ring ∨ Ring.exec cfg s.ring .close = some s'.ring := by
    intro r ret hfinish
    obtain ⟨ring', hring', rfl⟩ := Option.map_eq_some_iff.mp hfinish
    split at hring'
    · exact .inl (Option.some.inj hring').symm
    · exact .inr hring'
  cases a with
  | ring b =>
    rw [exec] at h'
    split at h'
    · obtain ⟨ring', hring', rfl⟩ := Option.map_eq_some_iff.mp h'
      exact .inl ⟨b, rfl, hring'⟩
    · cases h'
  | opened arraySize =>
    simp only [exec] at h'
    split at h'
    · split at h'
      · obtain ⟨ring', hring', rfl⟩ := Option.map_eq_some_iff.mp h'
        exact .inl ⟨.accept, rfl, hring'⟩
      · cases h'
    · cases h'
  | read shuttingDown =>
    obtain ⟨r, -, hstep⟩ := Option.bind_eq_some_iff.mp h'
    rw [responseStep] at hstep
    split at hstep
    · split at hstep
      · obtain ⟨ring', hring', rfl⟩ := Option.map_eq_some_iff.mp hstep
        exact .inr ⟨rfl, .inr (.inl hring')⟩
      · exact .inr ⟨rfl, (hfinish _ _ hstep).imp_right .inr⟩
    · cases hstep
  | returned =>
    obtain ⟨r, -, hstep⟩ := Option.bind_eq_some_iff.mp h'
    rw [responseStep] at hstep
    split at hstep
    · exact .inr ⟨rfl, (hfinish _ _ hstep).imp_right .inr⟩
    · cases hstep
  | write ok =>
    obtain ⟨r, -, hstep⟩ := Option.bind_eq_some_iff.mp h'
    rw [responseStep] at hstep
    split at hstep
    · cases hstep
      exact .inr ⟨rfl, .inl rfl⟩
    · cases hstep
  | close =>
    obtain ⟨r, -, hstep⟩ := Option.bind_eq_some_iff.mp h'
    rw [responseStep] at hstep
    split at hstep
    · obtain ⟨ring', hring', rfl⟩ := Option.map_eq_some_iff.mp hstep
      split at hring'
      · exact .inr ⟨rfl, .inl (Option.some.inj hring').symm⟩
      · exact .inr ⟨rfl, .inr (.inr hring')⟩
    · cases hstep

/-- The log of the ring after a step. -/
theorem exec_log {a : Action} (h' : exec cfg s a = some s') :
    s'.ring.log.sent = a.toRing.elim s.ring.log.sent (Ring.writtenStep s.ring.log.sent) ∧
      s'.ring.log.code = a.toRing.elim s.ring.log.code (Ring.returnCodeStep s.ring.log.code) := by
  rcases exec_ring h' with ⟨b, hb, hring⟩ | ⟨hnone, hsame | hring | hring⟩
  · rw [hb]
    exact Ring.exec_log hring
  · rw [hnone, hsame]
    exact ⟨rfl, rfl⟩
  · rw [hnone]
    exact Ring.exec_log hring
  · rw [hnone]
    exact Ring.exec_log hring

theorem packed_snoc (tr : List Action) (a : Action) :
    packed (tr ++ [a]) = a.toRing.elim (packed tr) (Ring.writtenStep (packed tr)) ∧
      returnCode (tr ++ [a]) =
        a.toRing.elim (returnCode tr) (Ring.returnCodeStep (returnCode tr)) := by
  rw [packed, returnCode, List.filterMap_append, List.filterMap_cons, List.filterMap_nil]
  cases a.toRing with
  | none =>
    rw [List.append_nil]
    exact ⟨rfl, rfl⟩
  | some b =>
    rw [Ring.written, Ring.returnCode, List.foldl_append, List.foldl_append]
    exact ⟨rfl, rfl⟩

/-- **The invariant holds after every run**, and the log of the ring is its history. -/
theorem inv_run {status : Int} {mem : ℕ → UInt8} {tr : List Action} {s : State}
    (h : (machine cfg status mem).run tr = some s) :
    Inv cfg (∀ a ∈ tr, a.Undisturbed) s ∧ s.ring.log.sent = packed tr ∧
      s.ring.log.code = returnCode tr := by
  refine (machine cfg status mem).run_induction (I := fun tr s =>
    Inv cfg (∀ a ∈ tr, a.Undisturbed) s ∧ s.ring.log.sent = packed tr ∧
      s.ring.log.code = returnCode tr) ⟨⟨Ring.inv_start cfg status mem, fun r hr => by cases hr⟩,
        rfl, rfl⟩ ?_ tr s h
  intro tr s a s' _ ⟨hinv, hsent, hcode⟩ h'
  obtain ⟨hsent', hcode'⟩ := exec_log h'
  obtain ⟨hpacked, hreturn⟩ := packed_snoc tr a
  have hstep := hinv.step h'
  have hcalm : (∀ b ∈ tr ++ [a], b.Undisturbed) → (∀ b ∈ tr, b.Undisturbed) ∧ a.Undisturbed :=
    fun hall => ⟨fun b hb => hall b (List.mem_append_left _ hb),
      hall a (List.mem_append_right _ List.mem_cons_self)⟩
  refine ⟨⟨hstep.ring, fun r hr => (hstep.response r hr).mono hcalm⟩, ?_, ?_⟩
  · rw [hsent', hpacked, hsent]
  · rw [hcode', hreturn, hcode]

/-! ## 3. The copy into the array, and progress -/

/-- The array that `c_read_chunk` is called with has room for a whole buffer. -/
theorem array_length (h : Reads r.stream) : r.stream.streamBufsize ≤ r.array.length := by
  rw [Response.array]
  split
  · rename_i streamBuffer hbuf
    exact Int.le_of_eq (h.tracks.allocated streamBuffer hbuf).1.symm
  · split
    · assumption
    · have hpos := h.tracks.bufsize
      have hsize := h.size
      rw [List.length_replicate, Java.wrapInt_eq (by omega) (by omega)]
      omega

/-- **No copy leaves the array.** -/
theorem Inv.copy_room (h : Inv cfg calm s) (hr : s.response = some r) (hpc : r.pc = .native)
    {mode : Ring.Mode} {n : ℕ} (hcopy : s.ring.client.pc = .copyOut mode n) :
    n ≤ r.array.length := by
  cases h.response r hr with
  | reading hpc' | writing hpc' | closing hpc' | done hpc' =>
    rw [hpc] at hpc'
    cases hpc'
  | native _ hloop _ _ =>
    have hs := h.ring.stream (by rw [hcopy]; rfl)
    obtain ⟨hn, hne⟩ := hs.client.copying mode n hcopy
    have hblock := block_length hs hne
    have harray := array_length hloop.reads
    have hsize := hloop.size
    omega

/-- A step of the worker, of the library in a call, or of `copyStream`. -/
def Action.Advances : Action → Prop
  | .ring a => a.byWorker = true ∨ a.inCall = true
  | .opened _ => False
  | .read shuttingDown => shuttingDown = false
  | .write ok => ok = true
  | .returned | .close => True

theorem finishRead_isSome (hpc : s.ring.client.pc = .streaming) (ret : Returned) :
    (finishRead cfg s r ret).isSome = true := by
  rw [finishRead, Option.isSome_map]
  split
  · rfl
  · simp only [Ring.exec, hpc]
    split
    · rfl
    · rfl

/-- **Somebody can go on** until a response is done. -/
theorem Inv.progress (h : Inv cfg calm s) (hr : s.response = some r)
    (hpc : ∀ result, r.pc ≠ .done result) :
    ∃ a, a.Advances ∧ (exec cfg s a).isSome = true := by
  have hstep : ∀ a, exec cfg s a = s.response.bind (fun r => responseStep cfg s r a) →
      exec cfg s a = responseStep cfg s r a := fun a ha => by
    rw [ha, hr, Option.bind_some]
  cases h.response r hr with
  | reading hpc' hloop hidle hgot =>
    refine ⟨.read false, rfl, ?_⟩
    rw [hstep _ rfl, responseStep, hpc']
    dsimp only
    split
    · rw [Option.isSome_map]
      simp only [Ring.exec, hidle.1, hidle.2, Bool.false_eq_true, if_false, Option.isSome_some]
    · exact finishRead_isSome hidle.1 _
  | native hpc' hloop hempty hfetch =>
    have hreturned : s.ring.client.pc = .streaming →
        ∃ a, a.Advances ∧ (exec cfg s a).isSome = true := fun hstreaming => by
      refine ⟨.returned, trivial, ?_⟩
      rw [hstep _ rfl, responseStep, hpc', hstreaming]
      exact finishRead_isSome hstreaming _
    cases hfetch with
    | block hstreaming => exact hreturned hstreaming
    | ended hstreaming => exact hreturned hstreaming
    | running hmode =>
      have hring : ∀ b, Free b → (Ring.exec cfg s.ring b).isSome = true →
          (exec cfg s (.ring b)).isSome = true := fun b hfree hb => by
        rw [exec, if_pos hfree, Option.isSome_map]
        exact hb
      rcases h.ring.call_canStep (mode_hasStream hmode)
        (fun hn => by rw [hn] at hmode; cases hmode) with ⟨b, hb, hsome⟩ | ⟨b, hb, hsome⟩
      · refine ⟨.ring b, .inl hb, hring b ?_ hsome⟩
        cases b with
        | worker | write | destroy => trivial
        | accept | refuse | die | client | «open» | read | close | waitFailed | openFailed =>
          cases hb
      · refine ⟨.ring b, .inr hb, hring b ?_ hsome⟩
        cases b with
        | client | waitFailed => trivial
        | worker | write | destroy | accept | refuse | die | «open» | read | close | openFailed =>
          cases hb
  | writing hpc' =>
    refine ⟨.write true, rfl, ?_⟩
    rw [hstep _ rfl, responseStep, hpc']
    rfl
  | closing hpc' hout hclosed =>
    refine ⟨.close, trivial, ?_⟩
    rw [hstep _ rfl, responseStep, hpc']
    dsimp only
    rw [Option.isSome_map]
    split
    · rfl
    · rename_i hopen
      obtain ⟨hstreaming, hended⟩ := hclosed (Bool.eq_false_iff.mpr hopen)
      simp only [Ring.exec, hstreaming, hended, Bool.false_eq_true, if_false, Option.isSome_some]
  | done hpc' => exact absurd hpc' (hpc _)

/-! ## 4. Delivery -/

theorem Inv.out_prefix (h : Inv cfg calm s) (hr : s.response = some r) :
    r.out <+: s.ring.log.sent := by
  refine List.IsPrefix.trans ?_ h.ring.got_prefix
  cases h.response r hr with
  | reading _ _ _ hgot =>
    rw [hgot]
    exact List.prefix_append _ _
  | writing _ _ _ hgot =>
    rw [hgot]
    exact List.prefix_append _ _
  | native _ _ _ hfetch =>
    cases hfetch with
    | running _ hgot => rw [hgot]
    | block _ _ hgot =>
      rw [hgot]
      exact List.prefix_append _ _
    | ended _ _ hgot => rw [hgot]
  | closing _ hout => exact hout.written
  | done _ hout => exact hout.written

/-- **A response is what the worker has packed.**  After every run: what has been written to the
output is a beginning of what the worker has packed for this response; when the copy returns it is
all of it, and the worker has reported success; when it throws an exception although nobody has
interfered, the worker is dead or has reported a failure.  No copy into an array of the caller is
longer than the array, and until the response is done somebody can go on. -/
theorem delivered (cfg : Ring.Config) (status : Int) (mem : ℕ → UInt8) (tr : List Action)
    (s : State) (h : (machine cfg status mem).run tr = some s) {r : Response}
    (hr : s.response = some r) :
    r.out <+: packed tr ∧
      (r.pc = .done (.ok ()) → r.out = packed tr ∧ returnCode tr = some 0) ∧
      (∀ e, r.pc = .done (.error e) → (∀ a ∈ tr, a.Undisturbed) →
        s.ring.worker.dead = true ∨ ∃ code, code ≠ 0 ∧ returnCode tr = some code) ∧
      (r.pc = .native → ∀ mode n, s.ring.client.pc = .copyOut mode n → n ≤ r.array.length) ∧
      ((∀ result, r.pc ≠ .done result) → ∃ a, a.Advances ∧ (exec cfg s a).isSome = true) := by
  obtain ⟨hinv, hsent, hcode⟩ := inv_run h
  have hresponse := hinv.response r hr
  refine ⟨hsent ▸ hinv.out_prefix hr, fun hpc => ?_, fun e hpc hcalm => ?_,
    fun hpc mode n hcopy => hinv.copy_room hr hpc hcopy, hinv.progress hr⟩
  · cases hresponse with
    | reading hpc' | native hpc' | writing hpc' | closing hpc' =>
      rw [hpc] at hpc'
      cases hpc'
    | done hpc' hout =>
      rw [hpc] at hpc'
      cases hpc'
      obtain ⟨-, hall, hzero⟩ := hout.success rfl
      exact ⟨hall.trans hsent, hcode.symm.trans hzero⟩
  · cases hresponse with
    | reading hpc' | native hpc' | writing hpc' | closing hpc' =>
      rw [hpc] at hpc'
      cases hpc'
    | done hpc' hout =>
      rw [hpc] at hpc'
      cases hpc'
      refine (hout.failure e rfl hcalm).2.imp_right ?_
      rintro ⟨code, hne, heq⟩
      exact ⟨code, hne, hcode.symm.trans heq⟩

/-- Three bytes through a ring of one buffer of two bytes, read into an array of one byte. -/
def byteByByte : List Action :=
  ([.ring (.open 2), .ring .client, .ring .client, .opened 1, .ring (.write [1, 2, 3])] :
      List Action) ++
    List.replicate 6 (Action.ring .worker) ++ [Action.read false] ++
    List.replicate 5 (Action.ring .client) ++
    ([.returned, .write true, .read false, .write true] : List Action) ++
    List.replicate 5 (Action.ring .worker) ++ [Action.read false] ++
    List.replicate 5 (Action.ring .client) ++ ([.returned, .write true] : List Action) ++
    List.replicate 2 (Action.ring .worker) ++ [Action.ring (.destroy 0)] ++
    List.replicate 4 (Action.ring .worker) ++ [Action.read false] ++
    List.replicate 2 (Action.ring .client) ++ ([.returned, .close] : List Action)

theorem delivered_byteByByte :
    ∃ s r, (machine Ring.oneBuffer 0 fun _ => 0).run byteByByte = some s ∧
      s.response = some r ∧ r.pc = .done (.ok ()) ∧ r.out = [1, 2, 3] := by
  have hend : ((machine Ring.oneBuffer 0 fun _ => 0).run byteByByte).map
      (fun s => s.response.map Response.pc) = some (some (.done (.ok ()))) := by decide +kernel
  obtain ⟨s, hrun, hs⟩ := Option.map_eq_some_iff.mp hend
  obtain ⟨r, hr, hpc⟩ := Option.map_eq_some_iff.mp hs
  have hpacked : packed byteByByte = [1, 2, 3] := by decide +kernel
  exact ⟨s, r, hrun, hr, hpc,
    ((delivered Ring.oneBuffer 0 (fun _ => 0) byteByByte s hrun hr).2.1 hpc).1.trans hpacked⟩

end HdfStream.Delivery
