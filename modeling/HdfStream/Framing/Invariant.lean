/-
# Where the two sides of the pipes are

Between two requests the pipes are empty and the worker's next byte is the first of a command
(`Reading` with nothing sent).  During a request the worker has read a beginning of what was sent
(`Reading`), or has the request and opens the file (`Opening`), sends the status (`Replying`), or
has sent it (`Replied`).  `Inv` says which of these go with each control point of the library;
it also keeps the record of the conversation, and it says nothing of a worker that is dead, for
such a worker never comes back.

An error other than `EPIPE` leaves the worker alive.  `Action.InOrder` is the condition that this
does not happen in the middle of a request; every step that meets it keeps `Inv` (`inv_exec`).
-/
import HdfStream.Framing.Decoding

namespace HdfStream.Framing

open Fields
open Msgpack (Bytes)
open Fields.Reader (feed feed_append)

/-! ## 1. The invariant -/

/-- A request that the library sends. -/
def Call.Valid (c : Call) : Prop := c.WellTyped ∧ c.Checked

instance : DecidablePred Call.Valid := fun _ => inferInstanceAs (Decidable (_ ∧ _))

/-- The worker has read these bytes of a request, and waits for the next one. -/
def Worker.Took (read : Bytes) : Worker → Prop
  | .reading (.recv n k) got => feed readCommand read = (.recv n k, got)
  | .working => read = []
  | _ => False

/-- The bytes of some requests. -/
def encodings (cs : List Call) : Bytes := cs.flatMap Call.encoding

/-- The worker has done the requests `cs`, and has read a beginning of what was sent since. -/
structure Reading (s : State) (cs : List Call) (sent : Bytes) : Prop where
  took : ∃ read, s.worker.Took read ∧ read ++ s.inPipe = sent ∧ s.consumed = encodings cs ++ read
  outPipe : s.outPipe = []
  decoded : s.decoded = cs
  statuses : s.retcodes = s.statuses
  answered : s.retcodes.length = cs.length

/-- The worker has all requests, and the last one is not answered. -/
structure Decoded (s : State) : Prop where
  inPipe : s.inPipe = []
  decoded : s.decoded = s.requests
  consumed : s.consumed = encodings s.requests
  answered : s.retcodes.length + 1 = s.requests.length

/-- The library waits for the return code of `c`, and has `got` of it. -/
inductive Awaiting (s : State) (c : Call) (got : Bytes) : Prop where
  | reading (prev : List Call) (hrequests : s.requests = prev ++ [c]) (hgot : got = [])
      (h : Reading s prev c.encoding)
  | opening (hdecoded : Decoded s) (hgot : got = []) (hworker : s.worker = .opening c)
      (houtPipe : s.outPipe = []) (hstatuses : s.retcodes = s.statuses)
  | replying (hdecoded : Decoded s) (status : Int) (hstatus : IsInt status) (left : Bytes)
      (hworker : s.worker = .replying left) (hleft : left ≠ [])
      (hbytes : intBytes status = got ++ s.outPipe ++ left)
      (hstatuses : s.statuses = s.retcodes ++ [status])
  | replied (hdecoded : Decoded s) (status : Int) (hstatus : IsInt status)
      (hworker : s.worker.Took []) (hbytes : intBytes status = got ++ s.outPipe)
      (hstatuses : s.statuses = s.retcodes ++ [status])

/-- The invariant. -/
def Inv (s : State) : Prop :=
  match s.client with
  | .stopped => True
  | .idle => Reading s s.requests []
  | .sending c nleft rest => c.Valid ∧ nleft ≠ [] ∧ (s.alive = true →
      ∃ sent, sent ++ (nleft ++ rest.flatten) = c.encoding ∧ Reading s s.requests sent)
  | .receiving c got => c.Valid ∧ got.length < 4 ∧ (s.alive = true → Awaiting s c got)
  | .streaming => s.alive = true → Reading s s.requests []
  | .releasing => s.alive = true → Reading s s.requests []

/-- No byte of the request has been sent. -/
def Client.NothingSent : Client → Prop
  | .sending c nleft rest => nleft :: rest = c.messages
  | _ => False

instance : DecidablePred Client.NothingSent := fun client =>
  match client with
  | .sending .. => inferInstanceAs (Decidable (_ = _))
  | .stopped | .idle | .receiving .. | .streaming | .releasing => .isFalse id

/-- **The condition**: no call fails with an error other than `EINTR`, `EPIPE` and end of file
while the worker is alive and has been sent something of the request. -/
def Action.InOrder (s : State) : Action → Prop
  | .write .error => s.alive = false ∨ s.client.NothingSent
  | .read .error => s.alive = false
  | _ => True

instance (s : State) : DecidablePred (Action.InOrder s) := fun a =>
  match a with
  | .write .error => inferInstanceAs (Decidable (_ ∨ _))
  | .read .error => inferInstanceAs (Decidable (_ = _))
  | .write (.written _) | .write .eintr | .write .epipe => .isTrue trivial
  | .read (.read _) | .read .eintr | .read .endOfFile | .read .epipe => .isTrue trivial
  | .open _ | .close | .release | .discard => .isTrue trivial
  | .workerRead _ | .opened .. | .workerWrite _ | .workerEintr => .isTrue trivial
  | .finish | .die => .isTrue trivial

/-! ## 2. The library sends -/

theorem Reading.push {s : State} {cs : List Call} {sent : Bytes} (h : Reading s cs sent)
    (bs : Bytes) : Reading (s.push bs) cs (sent ++ bs) := by
  obtain ⟨⟨read, htook, hread, hconsumed⟩, houtPipe, hdecoded, hstatuses, hanswered⟩ := h
  refine ⟨⟨read, htook, ?_, hconsumed⟩, houtPipe, hdecoded, hstatuses, hanswered⟩
  rw [← hread, List.append_assoc]
  rfl

theorem Reading.setClient {s : State} {cs : List Call} {sent : Bytes} (h : Reading s cs sent)
    (client : Client) : Reading (s.setClient client) cs sent :=
  ⟨h.took, h.outPipe, h.decoded, h.statuses, h.answered⟩

theorem Reading.sent {s : State} {cs : List Call} {sent : Bytes} (h : Reading s cs sent)
    (c : Call) : Reading (s.sent c) cs sent :=
  ⟨h.took, h.outPipe, h.decoded, h.statuses, h.answered⟩

@[simp] theorem alive_sendNext (s : State) (c : Call) (ms : List Bytes) :
    (s.sendNext c ms).alive = s.alive := by
  induction ms with
  | nil => rfl
  | cons m ms ih =>
    rw [State.sendNext]
    split
    · exact ih
    · rfl

/-- The next message, or the return code if all are sent. -/
theorem inv_sendNext {s : State} {c : Call} {ms : List Bytes} (hvalid : c.Valid)
    (h : s.alive = true → ∃ sent, sent ++ ms.flatten = c.encoding ∧ Reading s s.requests sent) :
    Inv (s.sendNext c ms) := by
  induction ms with
  | nil =>
    refine ⟨hvalid, by decide, fun halive => ?_⟩
    obtain ⟨sent, hsent, hreading⟩ := h halive
    have hall : sent = c.encoding := by
      rw [← hsent, List.flatten_nil, List.append_nil]
    exact .reading s.requests rfl rfl (hall ▸ hreading.sent c)
  | cons m ms ih =>
    rw [State.sendNext]
    split
    · rename_i hm
      refine ih fun halive => ?_
      obtain ⟨sent, hsent, hreading⟩ := h halive
      exact ⟨sent, by rw [← hsent, hm]; rfl, hreading⟩
    · rename_i hm
      refine ⟨hvalid, hm, fun halive => ?_⟩
      obtain ⟨sent, hsent, hreading⟩ := h halive
      exact ⟨sent, by rw [← hsent, List.flatten_cons], hreading.setClient _⟩

theorem reading_fresh : Reading fresh [] [] :=
  ⟨⟨[], rfl, rfl, rfl⟩, rfl, rfl, rfl, rfl⟩

theorem inv_openCall {s s' : State} {c : Call} (hinv : Inv s) (htyped : c.WellTyped)
    (hs : openCall s c = some s') : Inv s' := by
  rw [openCall] at hs
  split at hs
  · rename_i hchecked
    split at hs
    · cases hs
      exact inv_sendNext ⟨htyped, hchecked⟩ fun _ => ⟨[], rfl, reading_fresh⟩
    · rename_i hclient
      split at hs
      · cases hs
        simp only [Inv, hclient] at hinv
        exact inv_sendNext ⟨htyped, hchecked⟩ fun _ => ⟨[], rfl, hinv⟩
      · cases hs
    · cases hs
  · cases hs
    exact hinv

/-- A `write` of the library. -/
theorem inv_writeStep {s s' : State} {r : WriteResult} (hinv : Inv s)
    (horder : (Action.write r).InOrder s) (hs : writeStep s r = some s') : Inv s' := by
  cases r with
  | written n =>
    dsimp only [writeStep] at hs
    split at hs
    · rename_i c nleft rest hclient
      split at hs
      · cases hs
        simp only [Inv, hclient] at hinv
        obtain ⟨hvalid, -, hreading⟩ := hinv
        refine inv_sendNext hvalid fun halive => ?_
        obtain ⟨sent, hsent, hreading⟩ := hreading halive
        refine ⟨sent ++ nleft.take n, ?_, hreading.push _⟩
        rw [← hsent, List.flatten_cons, List.append_assoc, ← List.append_assoc (nleft.take n),
          List.take_append_drop]
      · cases hs
    · cases hs
  | eintr =>
    dsimp only [writeStep] at hs
    split at hs
    · cases hs
      exact hinv
    · cases hs
  | epipe =>
    dsimp only [writeStep] at hs
    split at hs
    · cases hs
      intro halive
      cases halive
    · cases hs
  | error =>
    dsimp only [writeStep] at hs
    split at hs
    · rename_i c nleft rest hclient
      cases hs
      simp only [Inv, hclient] at hinv
      simp only [Action.InOrder, Client.NothingSent, hclient] at horder
      obtain ⟨-, -, hreading⟩ := hinv
      intro (halive : s.alive = true)
      obtain ⟨sent, hsent, hreading⟩ := hreading halive
      rcases horder with hdead | hfirst
      · rw [hdead] at halive
        cases halive
      · -- nothing of the request has been sent
        have hnone : sent = [] := by
          rw [← List.flatten_cons, hfirst, Call.encoding] at hsent
          exact List.append_cancel_right (hsent.trans (List.nil_append _).symm)
        exact (hnone ▸ hreading).setClient _
    · cases hs

/-! ## 3. The library receives -/

/-- The return code is complete: it is the status that the worker sent. -/
theorem Awaiting.received {s : State} {c : Call} {got : Bytes} {n : Nat} (h : Awaiting s c got)
    (hn : n ≤ s.outPipe.length) (hpos : 0 < n) (hlen : (got ++ s.outPipe.take n).length = 4) :
    Reading ((s.pull n).received c (readInt (got ++ s.outPipe.take n))) s.requests [] := by
  have hcount : got.length + n = 4 := by
    rw [List.length_append, List.length_take_of_le hn] at hlen
    exact hlen
  cases h with
  | reading prev hrequests hgot h =>
    rw [h.outPipe, List.length_nil] at hn
    omega
  | opening hdecoded hgot hworker houtPipe hstatuses =>
    rw [houtPipe, List.length_nil] at hn
    omega
  | replying hdecoded status hstatus left hworker hleft hbytes hstatuses =>
    have hlen4 : (got ++ s.outPipe ++ left).length = 4 := by
      rw [← hbytes, length_intBytes]
    have hpos' : 0 < left.length := List.length_pos_iff.mpr hleft
    simp only [List.length_append] at hlen4
    omega
  | replied hdecoded status hstatus hworker hbytes hstatuses =>
    have hall : s.outPipe.length = n := by
      have hlen4 : (got ++ s.outPipe).length = 4 := by
        rw [← hbytes, length_intBytes]
      rw [List.length_append] at hlen4
      omega
    have hcode : readInt (got ++ s.outPipe.take n) = status := by
      rw [← hall, List.take_length, ← hbytes, readInt_intBytes hstatus]
    refine ⟨⟨[], hworker, ?_, ?_⟩, ?_, hdecoded.decoded, ?_, ?_⟩
    · exact hdecoded.inPipe
    · show s.consumed = encodings s.requests ++ []
      rw [hdecoded.consumed, List.append_nil]
    · show s.outPipe.drop n = []
      rw [← hall, List.drop_length]
    · show s.retcodes ++ [readInt (got ++ s.outPipe.take n)] = s.statuses
      rw [hcode, hstatuses]
    · show (s.retcodes ++ [readInt (got ++ s.outPipe.take n)]).length = s.requests.length
      rw [List.length_append, List.length_singleton, hdecoded.answered]

theorem Decoded.pull {s : State} (h : Decoded s) (n : Nat) (client : Client) :
    Decoded ((s.pull n).setClient client) :=
  ⟨h.inPipe, h.decoded, h.consumed, h.answered⟩

/-- A part of the return code. -/
theorem Awaiting.pull {s : State} {c : Call} {got : Bytes} {n : Nat} (h : Awaiting s c got)
    (hn : n ≤ s.outPipe.length) (hpos : 0 < n) (client : Client) :
    Awaiting ((s.pull n).setClient client) c (got ++ s.outPipe.take n) := by
  cases h with
  | reading prev hrequests hgot h =>
    rw [h.outPipe, List.length_nil] at hn
    omega
  | opening hdecoded hgot hworker houtPipe hstatuses =>
    rw [houtPipe, List.length_nil] at hn
    omega
  | replying hdecoded status hstatus left hworker hleft hbytes hstatuses =>
    refine .replying (hdecoded.pull n client) status hstatus left hworker hleft ?_ hstatuses
    show intBytes status = got ++ s.outPipe.take n ++ s.outPipe.drop n ++ left
    rw [hbytes, List.append_assoc got (s.outPipe.take n), List.take_append_drop]
  | replied hdecoded status hstatus hworker hbytes hstatuses =>
    refine .replied (hdecoded.pull n client) status hstatus hworker ?_ hstatuses
    show intBytes status = got ++ s.outPipe.take n ++ s.outPipe.drop n
    rw [hbytes, List.append_assoc got (s.outPipe.take n), List.take_append_drop]

/-- A `read` of the library. -/
theorem inv_readStep {s s' : State} {r : ReadResult} (hinv : Inv s)
    (horder : (Action.read r).InOrder s) (hs : readStep s r = some s') : Inv s' := by
  cases r with
  | read n =>
    dsimp only [readStep] at hs
    split at hs
    · rename_i c got hclient
      simp only [Inv, hclient] at hinv
      obtain ⟨hvalid, -, hawait⟩ := hinv
      split at hs
      · rename_i hcond
        obtain ⟨hpos, hfour, hn⟩ := hcond
        split at hs
        · rename_i hshort
          cases hs
          exact ⟨hvalid, hshort, fun halive => (hawait halive).pull hn hpos _⟩
        · rename_i hfull
          cases hs
          have hlen : (got ++ s.outPipe.take n).length = 4 := by
            rw [List.length_append, List.length_take_of_le hn] at hfull ⊢
            omega
          have hreading := fun halive => (hawait halive).received hn hpos hlen
          by_cases hsucc : c.Succeeds (readInt (got ++ s.outPipe.take n))
          · have hclient' : ((s.pull n).received c (readInt (got ++ s.outPipe.take n))).client =
                .streaming := if_pos hsucc
            rw [Inv, hclient']
            exact hreading
          · have hclient' : ((s.pull n).received c (readInt (got ++ s.outPipe.take n))).client =
                .releasing := if_neg hsucc
            rw [Inv, hclient']
            exact hreading
      · cases hs
    · cases hs
  | eintr =>
    dsimp only [readStep] at hs
    split at hs
    · cases hs
      exact hinv
    · cases hs
  | endOfFile =>
    dsimp only [readStep] at hs
    split at hs
    · cases hs
      intro halive
      cases halive
    · cases hs
  | epipe =>
    dsimp only [readStep] at hs
    split at hs
    · cases hs
      intro halive
      cases halive
    · cases hs
  | error =>
    dsimp only [readStep] at hs
    split at hs
    · cases hs
      intro (halive : s.alive = true)
      have hdead : s.alive = false := horder
      rw [hdead] at halive
      cases halive
    · cases hs

/-! ## 4. The worker -/

/-- A step of the worker keeps the invariant if it keeps what the library may expect of it: that
it reads a request of which more will come, and that it answers one. -/
theorem Inv.worker {s s' : State} (hinv : Inv s) (hclient : s'.client = s.client)
    (hrequests : s'.requests = s.requests) (halive : s.alive = true)
    (hreading : ∀ cs sent, (sent = [] ∨ ∃ c : Call, c.Valid ∧ ∃ tail, tail ≠ [] ∧
      sent ++ tail = c.encoding) → Reading s cs sent → Reading s' cs sent)
    (hawait : ∀ c got, c.Valid → Awaiting s c got → Awaiting s' c got) : Inv s' := by
  rw [Inv, hclient, hrequests]
  unfold Inv at hinv
  split at hinv
  · trivial
  · exact hreading _ _ (Or.inl rfl) hinv
  · rename_i c nleft rest _
    obtain ⟨hvalid, hleft, hsending⟩ := hinv
    refine ⟨hvalid, hleft, fun _ => ?_⟩
    obtain ⟨sent, hsent, h⟩ := hsending halive
    have htail : nleft ++ rest.flatten ≠ [] := fun hnil => hleft (List.append_eq_nil_iff.mp hnil).1
    exact ⟨sent, hsent, hreading _ _ (Or.inr ⟨c, hvalid, _, htail, hsent⟩) h⟩
  · obtain ⟨hvalid, hshort, h⟩ := hinv
    exact ⟨hvalid, hshort, fun _ => hawait _ _ hvalid (h halive)⟩
  · exact fun _ => hreading _ _ (Or.inl rfl) (hinv halive)
  · exact fun _ => hreading _ _ (Or.inl rfl) (hinv halive)

/-- The worker reads a part of a request: it waits for more, or it has the request and the pipe
is empty. -/
theorem Reading.advance {s : State} {cs : List Call} {sent tail got : Bytes} {size n : Nat}
    {k : Bytes → Reader Command} {c : Call} (h : Reading s cs sent) (hvalid : c.Valid)
    (hsent : sent ++ tail = c.encoding) (hworker : s.worker = .reading (.recv size k) got) :
    (Reading (advance (s.take n) (feed (.recv size k) (got ++ s.inPipe.take n))) cs sent ∧
      (Framing.advance (s.take n) (feed (.recv size k) (got ++ s.inPipe.take n))).alive = s.alive) ∨
      (tail = [] ∧ Framing.advance (s.take n) (feed (.recv size k) (got ++ s.inPipe.take n)) =
        (s.take n).accept c ∧ s.inPipe.drop n = [] ∧
        s.consumed ++ s.inPipe.take n = encodings cs ++ c.encoding) := by
  obtain ⟨⟨read, htook, hread, hconsumed⟩, houtPipe, hdecoded, hstatuses, hanswered⟩ := h
  have htook' : feed readCommand read = (.recv size k, got) := by
    rw [hworker] at htook
    exact htook
  have hfeed : feed readCommand (read ++ s.inPipe.take n) =
      feed (.recv size k) (got ++ s.inPipe.take n) := by
    rw [feed_append, htook']
  have hsplit : (read ++ s.inPipe.take n) ++ (s.inPipe.drop n ++ tail) = c.encoding := by
    rw [List.append_assoc, ← List.append_assoc (s.inPipe.take n), List.take_append_drop,
      ← List.append_assoc, hread, hsent]
  rcases feed_partial hvalid.1 hvalid.2 hsplit with ⟨size', k', got', hwait, -⟩ | ⟨hdone, hnil⟩
  · left
    rw [hfeed] at hwait
    rw [hwait]
    refine ⟨⟨⟨read ++ s.inPipe.take n, ?_, ?_, ?_⟩, houtPipe, hdecoded, hstatuses, hanswered⟩, rfl⟩
    · show feed readCommand (read ++ s.inPipe.take n) = (.recv size' k', got')
      rw [hfeed, hwait]
    · show read ++ s.inPipe.take n ++ s.inPipe.drop n = sent
      rw [List.append_assoc, List.take_append_drop, hread]
    · show s.consumed ++ s.inPipe.take n = encodings cs ++ (read ++ s.inPipe.take n)
      rw [hconsumed, List.append_assoc]
  · right
    obtain ⟨hdrop, htail⟩ := List.append_eq_nil_iff.mp hnil
    rw [hfeed] at hdone
    refine ⟨htail, by rw [hdone]; rfl, hdrop, ?_⟩
    rw [hnil, List.append_nil] at hsplit
    rw [hconsumed, List.append_assoc, hsplit]

theorem Reading.took_nil {s : State} {cs : List Call} (h : Reading s cs []) :
    s.worker.Took [] ∧ s.inPipe = [] ∧ s.consumed = encodings cs := by
  obtain ⟨read, htook, hread, hconsumed⟩ := h.took
  obtain ⟨rfl, hin⟩ := List.append_eq_nil_iff.mp hread
  exact ⟨htook, hin, by rw [hconsumed, List.append_nil]⟩

/-- While there are bytes in its pipe, the worker reads a request of the library. -/
theorem Inv.pending {s : State} (hinv : Inv s) (halive : s.alive = true)
    (hclient : s.client ≠ .stopped) (hne : s.inPipe ≠ []) :
    ∃ cs sent tail, ∃ c : Call, c.Valid ∧ sent ++ tail = c.encoding ∧ Reading s cs sent := by
  have hempty : ¬ Reading s s.requests [] := fun h => hne h.took_nil.2.1
  unfold Inv at hinv
  split at hinv
  · exact absurd ‹_› hclient
  · exact absurd hinv hempty
  · rename_i c nleft rest _
    obtain ⟨hvalid, -, hsending⟩ := hinv
    obtain ⟨sent, hsent, h⟩ := hsending halive
    exact ⟨_, sent, _, c, hvalid, hsent, h⟩
  · rename_i c got _
    obtain ⟨hvalid, -, hawait⟩ := hinv
    cases hawait halive with
    | reading prev _ _ h => exact ⟨prev, _, [], c, hvalid, List.append_nil _, h⟩
    | opening hdecoded => exact absurd hdecoded.inPipe hne
    | replying hdecoded => exact absurd hdecoded.inPipe hne
    | replied hdecoded => exact absurd hdecoded.inPipe hne
  · exact absurd (hinv halive) hempty
  · exact absurd (hinv halive) hempty

/-- A `read` of the worker. -/
theorem inv_workerRead {s : State} {size n : Nat} {k : Bytes → Reader Command} {got : Bytes}
    (hinv : Inv s) (halive : s.alive = true) (hworker : s.worker = .reading (.recv size k) got)
    (hpos : 0 < n) (hn : n ≤ s.inPipe.length) :
    Inv (advance (s.take n) (feed (.recv size k) (got ++ s.inPipe.take n))) := by
  have hsame : ∀ r : Reader Command × Bytes,
      (advance (s.take n) r).client = s.client ∧ (advance (s.take n) r).requests = s.requests := by
    rintro ⟨p, bs⟩
    cases p with
    | recv size k => exact ⟨rfl, rfl⟩
    | done cmd => cases cmd <;> exact ⟨rfl, rfl⟩
  have hne : s.inPipe ≠ [] := fun hnil => by
    rw [hnil, List.length_nil] at hn
    omega
  refine hinv.worker (hsame _).1 (hsame _).2 halive ?_ ?_
  · rintro cs sent (rfl | ⟨c, hvalid, tail, htail, hsent⟩) h
    · exact absurd h.took_nil.2.1 hne
    · rcases h.advance hvalid hsent hworker with ⟨hreading, -⟩ | ⟨hnil, -⟩
      · exact hreading
      · exact absurd hnil htail
  · intro c got' hvalid h
    cases h with
    | reading prev hrequests hgot h =>
      rcases h.advance hvalid (List.append_nil _) hworker with
        ⟨hreading, -⟩ | ⟨-, hstate, hdrop, hconsumed⟩
      · exact .reading prev ((hsame _).2.trans hrequests) hgot hreading
      · -- the request is complete
        rw [hstate]
        refine .opening ⟨hdrop, ?_, ?_, ?_⟩ hgot rfl h.outPipe h.statuses
        · show s.decoded ++ [c] = s.requests
          rw [h.decoded, hrequests]
        · show s.consumed ++ s.inPipe.take n = encodings s.requests
          rw [hconsumed, hrequests, encodings, encodings, List.flatMap_append,
            List.flatMap_singleton]
        · show s.retcodes.length + 1 = s.requests.length
          rw [h.answered, hrequests, List.length_append, List.length_singleton]
    | opening hdecoded => exact absurd hdecoded.inPipe hne
    | replying hdecoded => exact absurd hdecoded.inPipe hne
    | replied hdecoded => exact absurd hdecoded.inPipe hne

theorem isInt_status (c : Call) (fileOpened datasetOpened : Bool) :
    IsInt (c.status fileOpened datasetOpened) := by
  have hsmall : ∀ n : Int, n = 0 ∨ n = 1 ∨ n = 3 → IsInt n := by
    rintro n (rfl | rfl | rfl) <;> decide
  apply hsmall
  cases c <;> cases fileOpened <;> cases datasetOpened <;> simp [Call.status]

theorem intBytes_ne_nil (n : Int) : intBytes n ≠ [] := fun hnil => by
  have hlen := length_intBytes n
  rw [hnil] at hlen
  cases hlen

/-- The worker has opened the file and the dataset, or not. -/
theorem inv_opened {s : State} {c : Call} (hinv : Inv s) (halive : s.alive = true)
    (hworker : s.worker = .opening c) (fileOpened datasetOpened : Bool) :
    Inv (s.reply (c.status fileOpened datasetOpened)) := by
  refine hinv.worker rfl rfl halive ?_ ?_
  · intro cs sent _ h
    obtain ⟨read, htook, -⟩ := h.took
    rw [hworker] at htook
    exact htook.elim
  · intro c' got _ h
    cases h with
    | reading prev hrequests hgot h =>
      obtain ⟨read, htook, -⟩ := h.took
      rw [hworker] at htook
      exact htook.elim
    | opening hdecoded hgot _ houtPipe hstatuses =>
      refine .replying ⟨hdecoded.inPipe, hdecoded.decoded, hdecoded.consumed, hdecoded.answered⟩
        _ (isInt_status c fileOpened datasetOpened) _ rfl (intBytes_ne_nil _) ?_ ?_
      · show intBytes _ = got ++ s.outPipe ++ intBytes _
        rw [hgot, houtPipe]
        rfl
      · show s.statuses ++ [_] = s.retcodes ++ [_]
        rw [hstatuses]
    | replying _ _ _ _ hreplying =>
      rw [hworker] at hreplying
      cases hreplying
    | replied _ _ _ htook =>
      rw [hworker] at htook
      exact htook.elim

/-- A `write` of the worker. -/
theorem inv_workerWrite {s : State} {left : Bytes} (hinv : Inv s) (halive : s.alive = true)
    (hworker : s.worker = .replying left) (n : Nat) :
    Inv ((s.put (left.take n)).setWorker
      (if left.drop n = [] then .working else .replying (left.drop n))) := by
  refine hinv.worker rfl rfl halive ?_ ?_
  · intro cs sent _ h
    obtain ⟨read, htook, -⟩ := h.took
    rw [hworker] at htook
    exact htook.elim
  · intro c got _ h
    cases h with
    | reading prev hrequests hgot h =>
      obtain ⟨read, htook, -⟩ := h.took
      rw [hworker] at htook
      exact htook.elim
    | opening _ _ hopening =>
      rw [hworker] at hopening
      cases hopening
    | replying hdecoded status hstatus left' hreplying hleft hbytes hstatuses =>
      have heq : left' = left := by
        rw [hworker] at hreplying
        cases hreplying
        rfl
      subst heq
      have hdecoded' : Decoded ((s.put (left'.take n)).setWorker
          (if left'.drop n = [] then .working else .replying (left'.drop n))) :=
        ⟨hdecoded.inPipe, hdecoded.decoded, hdecoded.consumed, hdecoded.answered⟩
      by_cases hdrop : left'.drop n = []
      · refine .replied hdecoded' status hstatus ?_ ?_ hstatuses
        · show (if left'.drop n = [] then Worker.working else _).Took []
          rw [if_pos hdrop]
          rfl
        · show intBytes status = got ++ (s.outPipe ++ left'.take n)
          rw [hbytes, ← List.append_assoc]
          conv_lhs => rw [← List.take_append_drop n left', hdrop, List.append_nil]
      · refine .replying hdecoded' status hstatus (left'.drop n) (if_neg hdrop) hdrop ?_ hstatuses
        show intBytes status = got ++ (s.outPipe ++ left'.take n) ++ left'.drop n
        rw [hbytes, List.append_assoc, List.append_assoc, List.append_assoc,
          List.take_append_drop]
    | replied _ _ _ htook =>
      rw [hworker] at htook
      exact htook.elim

/-- The worker goes back to its main loop. -/
theorem inv_finish {s : State} (hinv : Inv s) (halive : s.alive = true)
    (hworker : s.worker = .working) : Inv (s.setWorker (.reading readCommand [])) := by
  have htook : ∀ read, s.worker.Took read → (Worker.reading readCommand []).Took read := by
    intro read h
    rw [hworker] at h
    cases h
    rfl
  have hreading : ∀ cs sent, Reading s cs sent →
      Reading (s.setWorker (.reading readCommand [])) cs sent := by
    rintro cs sent ⟨⟨read, h, hread, hconsumed⟩, houtPipe, hdecoded, hstatuses, hanswered⟩
    exact ⟨⟨read, htook read h, hread, hconsumed⟩, houtPipe, hdecoded, hstatuses, hanswered⟩
  refine hinv.worker rfl rfl halive (fun cs sent _ => hreading cs sent) ?_
  intro c got _ h
  cases h with
  | reading prev hrequests hgot h => exact .reading prev hrequests hgot (hreading _ _ h)
  | opening _ _ hopening =>
    rw [hworker] at hopening
    cases hopening
  | replying _ _ _ _ hreplying =>
    rw [hworker] at hreplying
    cases hreplying
  | replied hdecoded status hstatus h hbytes hstatuses =>
    exact .replied ⟨hdecoded.inPipe, hdecoded.decoded, hdecoded.consumed, hdecoded.answered⟩
      status hstatus (htook [] h) hbytes hstatuses

theorem inv_workerStep {s s' : State} {a : Action} (hinv : Inv s) (halive : s.alive = true)
    (hs : workerStep s a = some s') : Inv s' := by
  cases a with
  | workerRead n =>
    dsimp only [workerStep] at hs
    split at hs
    · rename_i p got hworker
      split at hs
      · split at hs
        · rename_i hcond
          cases hs
          exact inv_workerRead hinv halive hworker hcond.1 hcond.2.2
        · cases hs
      · cases hs
    · cases hs
  | opened fileOpened datasetOpened =>
    dsimp only [workerStep] at hs
    split at hs
    · rename_i c hworker
      cases hs
      exact inv_opened hinv halive hworker fileOpened datasetOpened
    · cases hs
  | workerWrite n =>
    dsimp only [workerStep] at hs
    split at hs
    · rename_i left hworker
      split at hs
      · cases hs
        exact inv_workerWrite hinv halive hworker n
      · cases hs
    · cases hs
  | workerEintr =>
    dsimp only [workerStep] at hs
    split at hs
    · cases hs
      exact hinv
    · cases hs
      exact hinv
    · cases hs
  | finish =>
    dsimp only [workerStep] at hs
    split at hs
    · rename_i hworker
      cases hs
      exact inv_finish hinv halive hworker
    · cases hs
  | _ => cases hs

/-! ## 5. Every step -/

theorem inv_reap {s : State} (hinv : Inv s) : Inv s.reap := by
  have hdead : ¬ s.reap.alive = true := Bool.false_ne_true
  unfold Inv at hinv
  rw [Inv, show s.reap.client = s.client from rfl]
  split at hinv
  · trivial
  · exact ⟨hinv.took, hinv.outPipe, hinv.decoded, hinv.statuses, hinv.answered⟩
  · exact ⟨hinv.1, hinv.2.1, fun halive => absurd halive hdead⟩
  · exact ⟨hinv.1, hinv.2.1, fun halive => absurd halive hdead⟩
  · exact fun halive => absurd halive hdead
  · exact fun halive => absurd halive hdead

/-- **A step that meets the condition keeps the invariant.** -/
theorem inv_exec {s s' : State} {a : Action} (hinv : Inv s) (horder : a.InOrder s)
    (hs : exec s a = some s') : Inv s' := by
  cases a with
  | «open» c =>
    dsimp only [exec] at hs
    split at hs
    · rename_i htyped
      exact inv_openCall hinv htyped hs
    · cases hs
  | write r => exact inv_writeStep hinv horder hs
  | read r => exact inv_readStep hinv horder hs
  | close =>
    dsimp only [exec] at hs
    split at hs
    · rename_i hclient
      cases hs
      simp only [Inv, hclient] at hinv
      exact fun halive => (hinv halive).setClient _
    · cases hs
  | release =>
    dsimp only [exec] at hs
    split at hs
    · rename_i hclient
      cases hs
      simp only [Inv, hclient] at hinv
      split
      · rename_i halive
        exact (hinv halive).setClient _
      · trivial
    · cases hs
  | discard =>
    dsimp only [exec] at hs
    split at hs
    · split at hs
      · cases hs
      · cases hs
        trivial
    · cases hs
  | die =>
    dsimp only [exec] at hs
    split at hs
    · cases hs
      exact inv_reap hinv
    · cases hs
  | workerRead | opened | workerWrite | workerEintr | finish =>
    dsimp only [exec] at hs
    split at hs
    · rename_i halive
      exact inv_workerStep hinv halive hs
    · cases hs

theorem inv_start : Inv start := trivial

end HdfStream.Framing
