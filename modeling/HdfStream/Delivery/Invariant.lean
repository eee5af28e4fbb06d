/-
# The bytes of a response, wherever they are

The invariant of the machine: what the ring has delivered is what has been written to the output,
then what `read` has just put into the array, then what is left in the buffer of the `DataStream`.
When the loop of `copyStream` is over, it knows how the stream has ended.
-/
import HdfStream.Delivery.Fetch
import HdfStream.Delivery.Reads

namespace HdfStream.Delivery

open Reading

/-! ## 1. The invariant -/

/-- The library is between two calls on an open stream. -/
def Idle (ring : Ring.State) : Prop :=
  ring.client.pc = .streaming ∧ ring.client.ended = false

/-- The loop of `copyStream` is running. -/
structure Looping (ring : Ring.State) (r : Response) : Prop where
  reads : Reads r.stream
  room : 0 < r.buf.length
  size : (ring.log.bufferSize : Int) ≤ r.stream.streamBufsize

/-- The stream has been delivered as a whole, and the worker has reported success. -/
def Complete (ring : Ring.State) (out : Bytes) : Prop :=
  ring.client.pc.hasStream = false ∧ out = ring.log.sent ∧ ring.log.code = some 0

/-- The worker is dead, or has reported a failure. -/
def Failed (ring : Ring.State) : Prop :=
  ring.client.pc.hasStream = false ∧
    (ring.worker.dead = true ∨ ∃ code, code ≠ 0 ∧ ring.log.code = some code)

/-- What is known about the result of `copyStream`.  `calm` says that nobody has interfered. -/
structure Outcome (calm : Prop) (ring : Ring.State) (out : Bytes) (result : Except Thrown Unit) :
    Prop where
  written : out <+: ring.log.got
  success : result = .ok () → Complete ring out
  failure : ∀ e, result = .error e → calm → Failed ring

/-- Where the bytes of a response are. -/
inductive ResponseInv (calm : Prop) (ring : Ring.State) (r : Response) : Prop where
  | reading (hpc : r.pc = .reading) (hloop : Looping ring r) (hidle : Idle ring)
      (hgot : ring.log.got = r.out ++ buffered r.stream)
  | native (hpc : r.pc = .native) (hloop : Looping ring r)
      (hempty : r.stream.bufferedBytes ≤ r.stream.bufferOffset) (hfetch : Fetching r.out ring)
  | writing {n : ℕ} (hpc : r.pc = .writing n) (hloop : Looping ring r) (hidle : Idle ring)
      (hgot : ring.log.got = r.out ++ (r.buf.take n ++ buffered r.stream))
  | closing {result : Except Thrown Unit} (hpc : r.pc = .closing result)
      (hout : Outcome calm ring r.out result)
      (hclosed : r.stream.closed = false → Idle ring)
  | done {result : Except Thrown Unit} (hpc : r.pc = .done result)
      (hout : Outcome calm ring r.out result)

/-- The invariant of the machine. -/
structure Inv (cfg : Ring.Config) (calm : Prop) (s : State) : Prop where
  ring : Ring.Inv cfg s.ring
  response : ∀ r, s.response = some r → ResponseInv calm s.ring r

variable {cfg : Ring.Config} {calm calm' : Prop} {ring ring' : Ring.State} {r : Response}

theorem Outcome.mono (hcalm : calm' → calm) {out : Bytes} {result : Except Thrown Unit}
    (h : Outcome calm ring out result) : Outcome calm' ring out result :=
  ⟨h.written, h.success, fun e he hc => h.failure e he (hcalm hc)⟩

theorem ResponseInv.mono (hcalm : calm' → calm) (h : ResponseInv calm ring r) :
    ResponseInv calm' ring r := by
  cases h with
  | reading hpc hloop hidle hgot => exact .reading hpc hloop hidle hgot
  | native hpc hloop hempty hfetch => exact .native hpc hloop hempty hfetch
  | writing hpc hloop hidle hgot => exact .writing hpc hloop hidle hgot
  | closing hpc hout hclosed => exact .closing hpc (hout.mono hcalm) hclosed
  | done hpc hout => exact .done hpc (hout.mono hcalm)

/-! ## 2. Steps of the ring -/

theorem Idle.step {a : Ring.Action} (h : Idle ring) (ha : Free a)
    (h' : Ring.exec cfg ring a = some ring') : Idle ring' := by
  have hsame := streaming_step h.1 ha h'
  rw [Idle, hsame.client]
  exact h

theorem Looping.congr (h : Looping ring r) (hsize : ring'.log.bufferSize = ring.log.bufferSize) :
    Looping ring' r :=
  ⟨h.reads, h.room, by rw [hsize]; exact h.size⟩

/-- No step but the opening of a stream changes its buffer size. -/
theorem exec_bufferSize {a : Ring.Action} (ha : Free a) (h' : Ring.exec cfg ring a = some ring') :
    ring'.log.bufferSize = ring.log.bufferSize := by
  cases a with
  | worker | write buf | destroy code => exact (worker_sameClient (.inl rfl) h').bufferSize
  | die => exact (worker_sameClient (.inr rfl) h').bufferSize
  | accept | read | close => exact ha.elim
  | client =>
    rw [Ring.exec] at h'
    cases hpc : ring.client.pc
    all_goals
      simp only [Ring.clientStep, hpc] at h'
      try split at h'
    all_goals cases h'
    all_goals rfl
  | refuse | «open» n | waitFailed | openFailed =>
    simp only [Ring.exec] at h'
    repeat' split at h'
    all_goals cases h'
    all_goals rfl

/-- The result of a copy stays what it is until the next stream is opened. -/
theorem Outcome.step {a : Ring.Action} {out : Bytes} {result : Except Thrown Unit}
    (hring : Ring.Inv cfg ring) (h : Outcome calm ring out result) (ha : Free a)
    (h' : Ring.exec cfg ring a = some ring') : Outcome calm ring' out result where
  written := h.written.trans (exec_got ha h')
  success hok := by
    obtain ⟨hstream, hsent, hcode⟩ := h.success hok
    obtain ⟨hstream', hsent', hcode', -⟩ := idle_step hring hstream ha h'
    exact ⟨hstream', hsent.trans hsent'.symm, hcode'.trans hcode⟩
  failure e he hcalm := by
    obtain ⟨hstream, hfailed⟩ := h.failure e he hcalm
    obtain ⟨hstream', -, hcode', hdead'⟩ := idle_step hring hstream ha h'
    refine ⟨hstream', hfailed.imp hdead' ?_⟩
    rintro ⟨code, hne, hcode⟩
    exact ⟨code, hne, hcode'.trans hcode⟩

/-- **A step of the ring.** -/
theorem ResponseInv.step (hring : Ring.Inv cfg ring) (h : ResponseInv calm ring r)
    {a : Ring.Action} (ha : Free a) (h' : Ring.exec cfg ring a = some ring') :
    ResponseInv calm ring' r := by
  have hsize := exec_bufferSize ha h'
  cases h with
  | reading hpc hloop hidle hgot =>
    exact .reading hpc (hloop.congr hsize) (hidle.step ha h')
      ((streaming_step hidle.1 ha h').got.trans hgot)
  | native hpc hloop hempty hfetch =>
    exact .native hpc (hloop.congr hsize) hempty (hfetch.step hring ha h')
  | writing hpc hloop hidle hgot =>
    exact .writing hpc (hloop.congr hsize) (hidle.step ha h')
      ((streaming_step hidle.1 ha h').got.trans hgot)
  | closing hpc hout hclosed =>
    exact .closing hpc (hout.step hring ha h') fun hopen => (hclosed hopen).step ha h'
  | done hpc hout => exact .done hpc (hout.step hring ha h')

/-! ## 3. The end of a stream -/

/-- When the client has received a status, it has all bytes. -/
theorem got_all {status : Int} (h : Ring.Inv cfg ring) (hpc : ring.client.pc = .streaming)
    (hresult : ring.log.result = some status) :
    ring.log.got = ring.log.sent ∧ ring.log.code = some status := by
  have hs := h.stream (by rw [hpc]; rfl)
  have hc := hs.client
  have hok := hc.uncancelled (by rw [hpc]; exact fun hn => by cases hn)
  obtain ⟨hcode, hlen, hin, -, -⟩ := hc.result status hresult
  refine ⟨?_, hcode⟩
  obtain ⟨q, code, hq, -, -, -⟩ := hs.worker.ended hin
  have hexact := hs.worker.exact (.inl hok)
  have hleft : ring.worker.pc.left = [] := by
    cases hp : ring.worker.pc with
    | command | finished => rfl
    | between | claim | reset | copy | flushStatus | flushUsed | flushPost | flushWait | publish
    | post =>
      rw [hp] at hin
      cases hin
  have hpend : ring.pending cfg = [] := by
    refine Ring.State.pending_nil (Bool.eq_false_iff.mpr fun hholds => ?_)
    rw [Ring.Worker.holds_inStream hholds] at hin
    cases hin
  -- the zero sized block is the only one that was not given back
  rw [hq, List.length_append, List.length_singleton, Nat.add_right_cancel_iff] at hlen
  rw [hc.gotAll hok, hexact, hpend, hleft, hq, ← hlen, List.take_left', List.flatten_append,
    List.flatten_singleton, List.append_nil, List.append_nil, List.append_nil]
  rfl

/-- The close of a stream that has ended. -/
theorem close_ended (hpc : ring.client.pc = .streaming) (hended : ring.client.ended = true) :
    Ring.exec cfg ring .close = some { ring with client.pc := .closed } := by
  simp only [Ring.exec, hpc, hended, if_true]

/-- **`c_read_chunk` returns 0 or -1**: the stream is complete, or the worker has failed. -/
theorem fetching_ended (h : Ring.Inv cfg ring) (hpc : ring.client.pc = .streaming)
    (hended : ring.client.ended = true) {out : Bytes} (hgot : ring.log.got = out)
    (hsuccess : ring.client.status = 0 → ring.log.result = some 0) :
    (ring.client.status = 0 → Complete { ring with client.pc := .closed } out) ∧
      (ring.client.status ≠ 0 → Failed { ring with client.pc := .closed }) := by
  refine ⟨fun hzero => ?_, fun hne => ⟨rfl, ?_⟩⟩
  · obtain ⟨hall, hcode⟩ := got_all h hpc (hsuccess hzero)
    exact ⟨rfl, hgot.symm.trans hall, hcode⟩
  · have hs := h.stream (by rw [hpc]; rfl)
    cases hresult : ring.log.result with
    | none => exact .inl (hs.client.failed hended hresult)
    | some status =>
      obtain ⟨hcode, -, -, -, hstatus⟩ := hs.client.result status hresult
      exact .inr ⟨status, by rw [← hstatus]; exact hne, hcode⟩

/-! ## 4. Steps of `copyStream` -/

/-- What a step has to show. -/
theorem Inv.of_response {s' : State} (hring : Ring.Inv cfg s'.ring)
    (hresponse : s'.response = some r) (h : ResponseInv calm s'.ring r) : Inv cfg calm s' := by
  refine ⟨hring, fun r' hr' => ?_⟩
  rw [hresponse] at hr'
  cases hr'
  exact h

/-- `read` returns bytes. -/
theorem finishRead_delivers {s s' : State} {ret : Returned} {rest : Bytes} {ds : DataStream}
    {n : ℕ} (hring : Ring.Inv cfg s.ring) (hloop : Looping s.ring r) (hidle : Idle s.ring)
    (hdeliver : Delivers ds r.buf rest ret n) (hds : ds.streamBufsize = r.stream.streamBufsize)
    (hgot : s.ring.log.got = r.out ++ rest) (h' : finishRead cfg s r ret = some s') :
    Inv cfg calm s' := by
  have hsame : ret.stream.closed = r.stream.closed := by
    rw [hdeliver.reads.open, hloop.reads.open]
  rw [finishRead, if_pos hsame, Option.map_some, Option.some.injEq] at h'
  subst h'
  have hpos : (0 : Int) < n := by
    have := hdeliver.pos
    omega
  refine Inv.of_response hring rfl (.writing (n := n) ?_ ⟨hdeliver.reads, ?_, ?_⟩ hidle ?_)
  · show afterRead ret.result = .writing n
    rw [hdeliver.result, afterRead, if_pos hpos, Int.toNat_natCast]
  · show 0 < ret.b.length
    rw [hdeliver.length]
    exact hloop.room
  · show (s.ring.log.bufferSize : Int) ≤ ret.stream.streamBufsize
    rw [hdeliver.bufsize, hds]
    exact hloop.size
  · show s.ring.log.got = r.out ++ (ret.b.take n ++ buffered ret.stream)
    rw [hgot, hdeliver.bytes]

/-- `read` comes to the end. -/
theorem finishRead_ended {s s' : State} {ret : Returned} (result : Except Thrown Unit)
    (hring : Ring.Inv cfg s.ring) (hpc : s.ring.client.pc = .streaming)
    (hended : s.ring.client.ended = true) (hopen : r.stream.closed = false)
    (hclosed : ret.stream.closed = true) (hafter : afterRead ret.result = .closing result)
    (hout : Outcome calm { s.ring with client.pc := .closed } r.out result)
    (h' : finishRead cfg s r ret = some s') : Inv cfg calm s' := by
  rw [finishRead, if_neg (by rw [hclosed, hopen]; exact fun hn => by cases hn),
    close_ended hpc hended, Option.map_some, Option.some.injEq] at h'
  subst h'
  refine Inv.of_response (hring.step (close_ended hpc hended)) rfl
    (.closing hafter hout fun hopen' => ?_)
  have hopen' : ret.stream.closed = false := hopen'
  rw [hclosed] at hopen'
  cases hopen'

/-- **`c_read_chunk` has returned.** -/
theorem Inv.returned {s s' : State} (h : Inv cfg calm s) {r : Response} (hr : s.response = some r)
    (h' : responseStep cfg s r .returned = some s') : Inv cfg calm s' := by
  have hresponse := h.response r hr
  rw [responseStep] at h'
  split at h'
  · rename_i hpc hstreaming
    cases hresponse with
    | reading hpc' | writing hpc' | closing hpc' | done hpc' =>
      rw [hpc] at hpc'
      cases hpc'
    | native _ hloop hempty hfetch =>
      cases hfetch with
      | running hmode =>
        rw [hstreaming] at hmode
        cases hmode
      | block _ hended hgot hne hlen =>
        have hnative : received s.ring.client r.stream.native.frees =
            ⟨[s.ring.client.outBuf], s.ring.client.status = 0, r.stream.native.frees⟩ := by
          rw [received, if_neg (by rw [hended]; exact Bool.false_ne_true)]
        have hroom : (s.ring.client.outBuf.length : Int) ≤ r.stream.streamBufsize := by
          have hsize := hloop.size
          omega
        obtain ⟨n, hdeliver⟩ := hloop.reads.deliverBlock hloop.room hempty
          (s.ring.client.status = 0) hne hroom
        rw [hnative] at h'
        exact finishRead_delivers h.ring hloop ⟨hstreaming, hended⟩ hdeliver rfl hgot h'
      | ended _ hended hgot hsuccess =>
        have hnative : received s.ring.client r.stream.native.frees =
            ⟨[], s.ring.client.status = 0, r.stream.native.frees⟩ := by
          rw [received, if_pos hended]
        obtain ⟨hclosed, hresult⟩ := hloop.reads.atEnd hloop.room hempty
          (decide (s.ring.client.status = 0))
        obtain ⟨hcomplete, hfailed⟩ := fetching_ended h.ring hstreaming hended hgot hsuccess
        have hwritten : r.out <+: s.ring.log.got := by rw [hgot]
        rw [hnative] at h'
        by_cases hzero : s.ring.client.status = 0
        · rw [if_pos (decide_eq_true hzero)] at hresult
          refine finishRead_ended (.ok ()) h.ring hstreaming hended hloop.reads.open
            hclosed (by rw [hresult]; rfl)
            ⟨hwritten, fun _ => hcomplete hzero, fun e he => (by cases he)⟩ h'
        · rw [if_neg (by rw [decide_eq_true_iff]; exact hzero)] at hresult
          obtain ⟨e, he⟩ := hresult
          refine finishRead_ended (.error e) h.ring hstreaming hended hloop.reads.open
            hclosed (by rw [he]; rfl)
            ⟨hwritten, fun hok => (by cases hok), fun _ _ _ => hfailed hzero⟩ h'
  · cases h'

end HdfStream.Delivery
