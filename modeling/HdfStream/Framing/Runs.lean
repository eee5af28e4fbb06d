/-
# Requests over whole runs

While the calls only move bytes and are interrupted, every request is decoded as it was passed to
the library, and the pipes are empty when it is answered (`requests_framed`).

When calls fail, a broken pipe or an end of file costs the worker and nothing else.  Another error
is different: the library gives the request up and puts the worker back into the pool, although it
waits for the rest of the request.  `idle_atCommand` is the guarantee for the runs in which that
does not happen.
-/
import HdfStream.Framing.Invariant

namespace HdfStream.Framing

open Fields
open Msgpack (Bytes)
open Fields.Reader (feed feed_eq_recv)

/-! ## 1. What the invariant says -/

/-- The worker's next byte is the first of a command. -/
def Worker.AtCommand : Worker → Prop
  | .reading p got => p = readCommand ∧ got = []
  | .working => True
  | _ => False

/-- The worker has received complete commands only, and nothing is left in the pipes. -/
structure AtCommand (s : State) : Prop where
  complete : s.consumed = encodings s.decoded
  inPipe : s.inPipe = []
  outPipe : s.outPipe = []
  worker : s.worker.AtCommand

theorem Worker.Took.atCommand {w : Worker} (h : w.Took []) : w.AtCommand := by
  cases w with
  | reading p got =>
    cases p with
    | recv n k =>
      have hfeed : feed readCommand [] = (readCommand, []) := rfl
      have htook : (readCommand, ([] : Bytes)) = (.recv n k, got) := hfeed.symm.trans h
      cases htook
      exact ⟨rfl, rfl⟩
    | done cmd => exact h.elim
  | working => trivial
  | opening c => exact h.elim
  | replying left => exact h.elim

theorem Reading.atCommand {s : State} {cs : List Call} (h : Reading s cs []) : AtCommand s where
  complete := by rw [h.took_nil.2.2, h.decoded]
  inPipe := h.took_nil.2.1
  outPipe := h.outPipe
  worker := h.took_nil.1.atCommand

/-- The worker decodes the requests in order. -/
theorem Inv.decoded_prefix {s : State} (hinv : Inv s) (halive : s.alive = true)
    (hclient : s.client ≠ .stopped) : s.decoded <+: s.requests := by
  have hall : s.decoded = s.requests → s.decoded <+: s.requests := fun h =>
    ⟨[], (List.append_nil _).trans h⟩
  have hreading : ∀ sent, Reading s s.requests sent → s.decoded <+: s.requests :=
    fun sent h => hall h.decoded
  unfold Inv at hinv
  split at hinv
  · exact absurd ‹_› hclient
  · exact hreading _ hinv
  · obtain ⟨-, -, hsending⟩ := hinv
    obtain ⟨sent, -, h⟩ := hsending halive
    exact hreading _ h
  · obtain ⟨-, -, hawait⟩ := hinv
    cases hawait halive with
    | reading prev hrequests _ h =>
      rw [h.decoded, hrequests]
      exact List.prefix_append _ _
    | opening hdecoded => exact hall hdecoded.decoded
    | replying hdecoded => exact hall hdecoded.decoded
    | replied hdecoded => exact hall hdecoded.decoded
  · exact hreading _ (hinv halive)
  · exact hreading _ (hinv halive)

/-! ## 2. Runs with failures -/

/-- What holds of a slot: an idle worker is at a command, and what a live worker has decoded are
the requests that the library sent to it. -/
structure InStep (s : State) : Prop where
  idle : s.client = .idle → AtCommand s
  decoded : s.client ≠ .stopped → s.alive = true → s.decoded <+: s.requests

/-- **An idle worker is at a command boundary**, after any failures of the calls, if no other
error than a broken pipe stops a request after its first byte. -/
theorem idle_atCommand {tr : List Action} {s : State} (hrun : machine.run tr = some s)
    (hmeet : machine.StepsMeet (fun s a => a.InOrder s) tr) : InStep s := by
  have hinv : Inv s := machine.stepsMeet_induction (I := Inv) (C := fun s a => a.InOrder s)
    inv_start (fun s a s' hinv horder hs => inv_exec hinv horder hs) tr s hrun hmeet
  refine ⟨fun hidle => ?_, fun hclient halive => hinv.decoded_prefix halive hclient⟩
  simp only [Inv, hidle] at hinv
  exact hinv.atCommand

/-- An object of a file, for the runs below. -/
def someCall : Call := .object [97] [98] 0 1 0

/-- An error before the first byte, a broken pipe after four, and a request to a new worker. -/
def failures : List Action :=
  [.open someCall, .write .error, .release,
    .open someCall, .write (.written 4), .die, .write .epipe, .release,
    .open someCall, .write (.written 4), .workerRead 4, .write .eintr, .write (.written 8)]

theorem idle_atCommand_failures : ∃ s, machine.run failures = some s ∧ InStep s := by
  obtain ⟨s, hrun⟩ : ∃ s, machine.run failures = some s := ⟨_, rfl⟩
  exact ⟨s, hrun, idle_atCommand hrun (machine.stepsMeet_of_meets (by decide +kernel))⟩

/-- An error after the command code: the worker is put back into the pool, and it waits for the
names of the request that was given up. -/
theorem idle_inRequest : ¬ ∀ tr s, machine.run tr = some s → InStep s := by
  intro h
  have hstep := h [.open someCall, .write (.written 4), .write .error, .release, .workerRead 4] _
    rfl
  obtain ⟨hworker, -⟩ := (hstep.idle rfl).worker
  cases hworker

/-! ## 3. Runs without failures -/

/-- The calls move bytes or are interrupted, and the worker does not die. -/
def Action.Smooth : Action → Prop
  | .write .epipe | .write .error => False
  | .read .endOfFile | .read .epipe | .read .error => False
  | .die => False
  | _ => True

instance : DecidablePred Action.Smooth := fun a =>
  match a with
  | .write .epipe | .write .error => .isFalse id
  | .read .endOfFile | .read .epipe | .read .error => .isFalse id
  | .die => .isFalse id
  | .write (.written _) | .write .eintr | .read (.read _) | .read .eintr => .isTrue trivial
  | .open _ | .close | .release | .discard => .isTrue trivial
  | .workerRead _ | .opened .. | .workerWrite _ | .workerEintr | .finish => .isTrue trivial

/-- The request of an action, if the checks of the parameters pass. -/
def Action.asks : Action → Option Call
  | .open c => if c.Checked then some c else none
  | _ => none

/-- The requests of a run. -/
def asked (tr : List Action) : List Call := tr.filterMap Action.asks

/-- The request that is being sent. -/
def Client.current : Client → List Call
  | .sending c _ _ => [c]
  | _ => []

/-- Without failures: before the first request, or with one worker that has had all of them. -/
inductive Unbroken (cs : List Call) (s : State) : Prop where
  | unused (hcs : cs = []) (hclient : s.client = .stopped) (hdead : s.alive = false)
      (hdecoded : s.decoded = [])
  | used (halive : s.alive = true) (hclient : s.client ≠ .stopped)
      (hcs : cs = s.requests ++ s.client.current)

theorem unbroken_sendNext {s : State} {cs : List Call} {c : Call} (ms : List Bytes)
    (halive : s.alive = true) (hcs : cs = s.requests ++ [c]) : Unbroken cs (s.sendNext c ms) := by
  induction ms with
  | nil => exact .used halive (by intro h; cases h) (hcs.trans (List.append_nil _).symm)
  | cons m ms ih =>
    rw [State.sendNext]
    split
    · exact ih
    · exact .used halive (by intro h; cases h) hcs

theorem Unbroken.move {s s' : State} {cs : List Call} (h : Unbroken cs s)
    (hclient : s.client ≠ .stopped) (halive : s'.alive = s.alive)
    (hclient' : s'.client ≠ .stopped)
    (hcs : s'.requests ++ s'.client.current = s.requests ++ s.client.current) :
    Unbroken cs s' := by
  cases h with
  | unused _ hstopped => exact absurd hstopped hclient
  | used halive' _ hcs' => exact .used (halive.trans halive') hclient' (hcs'.trans hcs.symm)

/-- A step of the worker. -/
theorem Unbroken.workerStep {s s' : State} {a : Action} {cs : List Call} (hinv : Inv s)
    (h : Unbroken cs s) (halive : s.alive = true) (hclient : s.client ≠ .stopped)
    (hs : workerStep s a = some s') : Unbroken cs s' := by
  cases a with
  | workerRead n =>
    dsimp only [Framing.workerStep] at hs
    split at hs
    · rename_i p got hworker
      split at hs
      · rename_i size k
        split at hs
        · rename_i hcond
          cases hs
          have hne : s.inPipe ≠ [] := fun hnil => by
            rw [hnil, List.length_nil] at hcond
            omega
          obtain ⟨prev, sent, tail, c, hvalid, hsent, hreading⟩ :=
            hinv.pending halive hclient hne
          rcases hreading.advance (n := n) hvalid hsent hworker with
            ⟨-, hsame⟩ | ⟨-, hstate, -⟩
          · refine h.move hclient hsame ?_ ?_
            all_goals
              cases feed (.recv size k) (got ++ s.inPipe.take n) with
              | mk q rest =>
                cases q with
                | recv => first | exact hclient | rfl
                | done cmd => cases cmd <;> first | exact hclient | rfl
          · rw [hstate]
            exact h.move hclient rfl hclient rfl
        · cases hs
      · cases hs
    · cases hs
  | opened fileOpened datasetOpened =>
    dsimp only [Framing.workerStep] at hs
    split at hs
    · cases hs
      exact h.move hclient rfl hclient rfl
    · cases hs
  | workerWrite n =>
    dsimp only [Framing.workerStep] at hs
    split at hs
    · split at hs
      · cases hs
        exact h.move hclient rfl hclient rfl
      · cases hs
    · cases hs
  | workerEintr =>
    dsimp only [Framing.workerStep] at hs
    split at hs
    · cases hs
      exact h
    · cases hs
      exact h
    · cases hs
  | finish =>
    dsimp only [Framing.workerStep] at hs
    split at hs
    · cases hs
      exact h.move hclient rfl hclient rfl
    · cases hs
  | _ => cases hs

/-- A call begins, if the checks of the parameters pass. -/
theorem Unbroken.openCall {s s' : State} {cs : List Call} (h : Unbroken cs s) {c : Call}
    (hs : openCall s c = some s') : Unbroken (cs ++ (Action.open c).asks.toList) s' := by
  rw [Framing.openCall] at hs
  by_cases hchecked : c.Checked
  · have hasks : (Action.open c).asks = some c := if_pos hchecked
    rw [if_pos hchecked] at hs
    rw [hasks]
    split at hs
    · rename_i hclient
      cases hs
      cases h with
      | unused hcs =>
        subst hcs
        exact unbroken_sendNext _ rfl rfl
      | used _ hused => exact absurd hclient hused
    · rename_i hclient
      split at hs
      · rename_i halive
        cases hs
        cases h with
        | unused _ hstopped =>
          rw [hclient] at hstopped
          cases hstopped
        | used _ _ hcs =>
          have hidle : s.client.current = [] := by rw [hclient]; rfl
          rw [hidle, List.append_nil] at hcs
          exact unbroken_sendNext _ halive (hcs ▸ rfl)
      · cases hs
    · cases hs
  · have hasks : (Action.open c).asks = none := if_neg hchecked
    rw [if_neg hchecked] at hs
    cases hs
    rw [hasks]
    exact (List.append_nil cs).symm ▸ h

/-- A `write` of the library. -/
theorem Unbroken.writeStep {s s' : State} {cs : List Call} (h : Unbroken cs s) {r : WriteResult}
    (hsmooth : (Action.write r).Smooth) (hs : writeStep s r = some s') : Unbroken cs s' := by
  cases r with
  | written n =>
    dsimp only [Framing.writeStep] at hs
    split at hs
    · rename_i c nleft rest hclient
      split at hs
      · cases hs
        cases h with
        | unused _ hstopped =>
          rw [hclient] at hstopped
          cases hstopped
        | used halive _ hcs =>
          rw [hclient] at hcs
          exact unbroken_sendNext _ halive hcs
      · cases hs
    · cases hs
  | eintr =>
    dsimp only [Framing.writeStep] at hs
    split at hs
    · cases hs
      exact h
    · cases hs
  | epipe => exact hsmooth.elim
  | error => exact hsmooth.elim

/-- A `read` of the library. -/
theorem Unbroken.readStep {s s' : State} {cs : List Call} (h : Unbroken cs s) {r : ReadResult}
    (hsmooth : (Action.read r).Smooth) (hs : readStep s r = some s') : Unbroken cs s' := by
  cases r with
  | read n =>
    dsimp only [Framing.readStep] at hs
    split at hs
    · rename_i c got hclient
      have hused : s.client ≠ .stopped := by rw [hclient]; intro h; cases h
      have hcurrent : s.client.current = [] := by rw [hclient]; rfl
      split at hs
      · split at hs
        · cases hs
          exact h.move hused rfl (by intro h; cases h) (hcurrent ▸ rfl)
        · cases hs
          by_cases hsucc : c.Succeeds (readInt (got ++ s.outPipe.take n))
          · have hclient' : ((s.pull n).received c
                (readInt (got ++ s.outPipe.take n))).client = .streaming := if_pos hsucc
            exact h.move hused rfl (by rw [hclient']; intro h; cases h)
              (by rw [hclient', hcurrent]; rfl)
          · have hclient' : ((s.pull n).received c
                (readInt (got ++ s.outPipe.take n))).client = .releasing := if_neg hsucc
            exact h.move hused rfl (by rw [hclient']; intro h; cases h)
              (by rw [hclient', hcurrent]; rfl)
      · cases hs
    · cases hs
  | eintr =>
    dsimp only [Framing.readStep] at hs
    split at hs
    · cases hs
      exact h
    · cases hs
  | endOfFile => exact hsmooth.elim
  | epipe => exact hsmooth.elim
  | error => exact hsmooth.elim

/-- The worker goes back to the pool, which finds no dead worker. -/
theorem Unbroken.poolStep {s s' : State} {cs : List Call} (h : Unbroken cs s) {a : Action}
    (ha : a = .close ∨ a = .release ∨ a = .discard) (hs : exec s a = some s') :
    Unbroken cs s' := by
  rcases ha with rfl | rfl | rfl
  · dsimp only [Framing.exec] at hs
    split at hs
    · rename_i hclient
      cases hs
      exact h.move (by rw [hclient]; intro h; cases h) rfl (by intro h; cases h)
        (by rw [hclient]; rfl)
    · cases hs
  · dsimp only [Framing.exec] at hs
    split at hs
    · rename_i hclient
      cases hs
      have hused : s.client ≠ .stopped := by rw [hclient]; intro h; cases h
      cases h with
      | unused _ hstopped => exact absurd hstopped hused
      | used halive hne hcs =>
        rw [if_pos halive]
        rw [hclient] at hcs
        exact .used halive (by intro h; cases h) hcs
    · cases hs
  · dsimp only [Framing.exec] at hs
    split at hs
    · rename_i hclient
      cases h with
      | unused _ hstopped =>
        rw [hclient] at hstopped
        cases hstopped
      | used halive =>
        rw [if_pos halive] at hs
        cases hs
    · cases hs

theorem Unbroken.exec {s s' : State} {a : Action} {cs : List Call} (hinv : Inv s)
    (h : Unbroken cs s) (hsmooth : a.Smooth) (hs : exec s a = some s') :
    Unbroken (cs ++ a.asks.toList) s' := by
  have hsame : ∀ {b : Action} {t : State}, b.asks = none → Unbroken cs t →
      Unbroken (cs ++ b.asks.toList) t := by
    intro b t hb ht
    rw [hb]
    exact (List.append_nil cs).symm ▸ ht
  cases a with
  | «open» c =>
    dsimp only [Framing.exec] at hs
    split at hs
    · exact h.openCall hs
    · cases hs
  | write r => exact hsame rfl (h.writeStep hsmooth hs)
  | read r => exact hsame rfl (h.readStep hsmooth hs)
  | close => exact hsame rfl (h.poolStep (.inl rfl) hs)
  | release => exact hsame rfl (h.poolStep (.inr (.inl rfl)) hs)
  | discard => exact hsame rfl (h.poolStep (.inr (.inr rfl)) hs)
  | die => exact hsmooth.elim
  | workerRead | opened | workerWrite | workerEintr | finish =>
    refine hsame rfl ?_
    dsimp only [Framing.exec] at hs
    split at hs
    · rename_i halive
      cases h with
      | unused _ _ hdead =>
        rw [hdead] at halive
        cases halive
      | used _ hclient hcs =>
        exact (Unbroken.used halive hclient hcs).workerStep hinv halive hclient hs
    · cases hs

/-- A step without a failure meets the condition on failures. -/
theorem Action.Smooth.inOrder {a : Action} (h : a.Smooth) (s : State) : a.InOrder s := by
  cases a with
  | write r =>
    cases r with
    | error => exact h.elim
    | _ => trivial
  | read r =>
    cases r with
    | error => exact h.elim
    | _ => trivial
  | _ => trivial

theorem unbroken_run {tr : List Action} {s : State} (hrun : machine.run tr = some s)
    (hsmooth : ∀ a ∈ tr, a.Smooth) : Inv s ∧ Unbroken (asked tr) s := by
  refine machine.run_induction
    (I := fun tr s => (∀ a ∈ tr, a.Smooth) → Inv s ∧ Unbroken (asked tr) s) ?_ ?_ tr s hrun hsmooth
  · exact fun _ => ⟨inv_start, .unused rfl rfl rfl rfl⟩
  · intro tr s a s' _ ih hs hall
    obtain ⟨hinv, h⟩ := ih fun b hb => hall b (List.mem_append_left _ hb)
    have ha : a.Smooth := hall a (List.mem_append_right _ (List.mem_singleton_self a))
    have hasked : asked (tr ++ [a]) = asked tr ++ a.asks.toList := by
      rw [asked, List.filterMap_append, asked]
      cases hasks : a.asks with
      | none => rw [List.filterMap_cons_none hasks, List.filterMap_nil]; rfl
      | some c => rw [List.filterMap_cons_some hasks, List.filterMap_nil]; rfl
    rw [hasked]
    exact ⟨inv_exec hinv (ha.inOrder s) hs, h.exec hinv ha hs⟩

/-! ## 4. Every request is decoded -/

/-- The worker has a request, and has not sent all of the status. -/
def Worker.HasRequest : Worker → Prop
  | .opening _ | .replying _ => True
  | _ => False

/-- The library has the return code of every request. -/
def Client.HasReplies : Client → Prop
  | .idle | .streaming | .releasing => True
  | _ => False

/-- A call of `hdfstream_dataset_multi_slice_open` or `hdfstream_object_open` is in progress. -/
def Client.Waits : Client → Prop
  | .sending .. | .receiving .. => True
  | _ => False

/-- The actions that move something. -/
def Action.Moves : Action → Prop
  | .write (.written _) | .read (.read _) => True
  | .workerRead _ | .opened .. | .workerWrite _ | .finish => True
  | _ => False

/-- What holds of the pipes after the requests `cs`:

* the worker has decoded the first of them as they were passed, and no others;
* when it sends a return code, it has decoded all of them and taken exactly their bytes;
* when the library returns, there is a return code for each, as the worker sent it, and nothing
  is left in the pipes;
* a call in progress can go on. -/
structure Framed (cs : List Call) (s : State) : Prop where
  decoded : s.decoded <+: cs
  atReply : s.worker.HasRequest → s.alive = true →
    s.decoded = cs ∧ s.consumed = encodings cs ∧ s.inPipe = []
  atReturn : s.client.HasReplies → s.decoded = cs ∧ s.consumed = encodings cs ∧
    s.retcodes = s.statuses ∧ s.retcodes.length = cs.length ∧ s.inPipe = [] ∧ s.outPipe = []
  goesOn : s.client.Waits → ∃ a : Action, a.Moves ∧ machine.Enabled s a

/-- The worker that reads a request is not stuck. -/
theorem Reading.goesOn {s : State} {cs : List Call} {c : Call} (h : Reading s cs c.encoding)
    (hvalid : c.Valid) (halive : s.alive = true) :
    ∃ a : Action, a.Moves ∧ machine.Enabled s a := by
  obtain ⟨⟨read, htook, hread, -⟩, -⟩ := h
  cases hworker : s.worker with
  | working =>
    refine ⟨.finish, trivial, ?_⟩
    simp [Machine.Enabled, machine, exec, halive, workerStep, hworker]
  | reading p got =>
    rw [hworker] at htook
    cases p with
    | done cmd => exact htook.elim
    | recv n k =>
      have htook' : feed readCommand read = (.recv n k, got) := htook
      have hlt := feed_eq_recv htook'
      rcases feed_partial hvalid.1 hvalid.2 hread with ⟨_, _, _, -, hne⟩ | ⟨hdone, -⟩
      · refine ⟨.workerRead 1, trivial, ?_⟩
        have hpos : 1 ≤ s.inPipe.length := List.length_pos_iff.mpr hne
        have hone : 1 ≤ n - got.length := by omega
        simp [Machine.Enabled, machine, exec, halive, workerStep, hworker, hpos, hone]
      · rw [htook'] at hdone
        cases hdone
  | opening c' =>
    rw [hworker] at htook
    exact htook.elim
  | replying left =>
    rw [hworker] at htook
    exact htook.elim

theorem Awaiting.goesOn {s : State} {c : Call} {got : Bytes} (h : Awaiting s c got)
    (hclient : s.client = .receiving c got) (hshort : got.length < 4) (hvalid : c.Valid)
    (halive : s.alive = true) : ∃ a : Action, a.Moves ∧ machine.Enabled s a := by
  cases h with
  | reading prev hrequests hgot h => exact h.goesOn hvalid halive
  | opening hdecoded hgot hworker =>
    refine ⟨.opened true true, trivial, ?_⟩
    simp [Machine.Enabled, machine, exec, halive, workerStep, hworker]
  | replying hdecoded status hstatus left hworker hleft =>
    refine ⟨.workerWrite 1, trivial, ?_⟩
    have hpos : 1 ≤ left.length := List.length_pos_iff.mpr hleft
    simp [Machine.Enabled, machine, exec, halive, workerStep, hworker, hpos]
  | replied hdecoded status hstatus hworker hbytes =>
    refine ⟨.read (.read 1), trivial, ?_⟩
    have hfour : (got ++ s.outPipe).length = 4 := by
      rw [← hbytes, length_intBytes]
    rw [List.length_append] at hfour
    have hpos : 1 ≤ s.outPipe.length := by omega
    have hone : 1 ≤ 4 - got.length := by omega
    simp only [Machine.Enabled, machine, exec, readStep, hclient]
    rw [if_pos ⟨by decide, hone, hpos⟩]
    split <;> rfl

theorem Reading.not_hasRequest {s : State} {cs : List Call} {sent : Bytes}
    (h : Reading s cs sent) : ¬ s.worker.HasRequest := by
  obtain ⟨⟨read, htook, -⟩, -⟩ := h
  intro hrequest
  cases hworker : s.worker with
  | opening c =>
    rw [hworker] at htook
    exact htook
  | replying left =>
    rw [hworker] at htook
    exact htook
  | reading p got =>
    rw [hworker] at hrequest
    exact hrequest
  | working =>
    rw [hworker] at hrequest
    exact hrequest

/-- A worker with a request has all bytes of it, and the library waits for the answer. -/
theorem Inv.atReply {s : State} (hinv : Inv s) (halive : s.alive = true)
    (hclient : s.client ≠ .stopped) (hrequest : s.worker.HasRequest) :
    Decoded s ∧ s.client.current = [] := by
  have hnot : ∀ cs sent, ¬ Reading s cs sent := fun cs sent h => h.not_hasRequest hrequest
  unfold Inv at hinv
  split at hinv
  · exact absurd ‹_› hclient
  · exact absurd hinv (hnot _ _)
  · obtain ⟨-, -, hsending⟩ := hinv
    obtain ⟨sent, -, h⟩ := hsending halive
    exact absurd h (hnot _ _)
  · rename_i c got hreceiving
    obtain ⟨-, -, hawait⟩ := hinv
    have hcurrent : s.client.current = [] := by rw [hreceiving]; rfl
    cases hawait halive with
    | reading prev _ _ h => exact absurd h (hnot _ _)
    | opening hdecoded => exact ⟨hdecoded, hcurrent⟩
    | replying hdecoded => exact ⟨hdecoded, hcurrent⟩
    | replied hdecoded => exact ⟨hdecoded, hcurrent⟩
  · exact absurd (hinv halive) (hnot _ _)
  · exact absurd (hinv halive) (hnot _ _)

theorem Inv.atReturn {s : State} (hinv : Inv s) (halive : s.alive = true)
    (hreplies : s.client.HasReplies) : Reading s s.requests [] ∧ s.client.current = [] := by
  unfold Inv at hinv
  cases hclient : s.client with
  | idle =>
    simp only [hclient] at hinv
    exact ⟨hinv, rfl⟩
  | streaming =>
    simp only [hclient] at hinv
    exact ⟨hinv halive, rfl⟩
  | releasing =>
    simp only [hclient] at hinv
    exact ⟨hinv halive, rfl⟩
  | _ =>
    rw [hclient] at hreplies
    exact hreplies.elim

theorem Inv.goesOn {s : State} (hinv : Inv s) (halive : s.alive = true)
    (hwaits : s.client.Waits) : ∃ a : Action, a.Moves ∧ machine.Enabled s a := by
  unfold Inv at hinv
  cases hclient : s.client with
  | sending c nleft rest =>
    simp only [hclient] at hinv
    refine ⟨.write (.written 1), trivial, ?_⟩
    have hpos : 1 ≤ nleft.length := List.length_pos_iff.mpr hinv.2.1
    simp [Machine.Enabled, machine, exec, writeStep, hclient, hpos]
  | receiving c got =>
    simp only [hclient] at hinv
    exact (hinv.2.2 halive).goesOn hclient hinv.2.1 hinv.1 halive
  | _ =>
    rw [hclient] at hwaits
    exact hwaits.elim

/-- **Every request is decoded as it was passed**, for every sequence of requests and every way
in which the transfers are split and interrupted. -/
theorem requests_framed {tr : List Action} {s : State} (hrun : machine.run tr = some s)
    (hsmooth : ∀ a ∈ tr, a.Smooth) : Framed (asked tr) s := by
  obtain ⟨hinv, h⟩ := unbroken_run hrun hsmooth
  cases h with
  | unused hcs hclient hdead hdecoded =>
    refine ⟨?_, ?_, ?_, ?_⟩
    · rw [hdecoded]
      exact List.nil_prefix
    · intro _ halive
      rw [hdead] at halive
      cases halive
    · intro hreplies
      rw [hclient] at hreplies
      exact hreplies.elim
    · intro hwaits
      rw [hclient] at hwaits
      exact hwaits.elim
  | used halive hclient hcs =>
    refine ⟨?_, ?_, ?_, hinv.goesOn halive⟩
    · rw [hcs]
      exact (hinv.decoded_prefix halive hclient).trans (List.prefix_append _ _)
    · intro hrequest _
      obtain ⟨hdecoded, hcurrent⟩ := hinv.atReply halive hclient hrequest
      rw [hcs, hcurrent, List.append_nil]
      exact ⟨hdecoded.decoded, hdecoded.consumed, hdecoded.inPipe⟩
    · intro hreplies
      obtain ⟨hreading, hcurrent⟩ := hinv.atReturn halive hreplies
      rw [hcs, hcurrent, List.append_nil]
      exact ⟨hreading.decoded, hreading.took_nil.2.2, hreading.statuses, hreading.answered,
        hreading.took_nil.2.1, hreading.outPipe⟩

/-- Two slices of a dataset. -/
def someSlices : Call := .dataset [97] [98] 2 1 [0, 4] [2, 3] 4096

/-- A request of each kind, with short and interrupted calls. -/
def transfers : List Action :=
  [.open someCall, .write (.written 3), .write .eintr, .write (.written 1), .write (.written 8),
    .workerRead 4, .workerEintr, .workerRead 5, .write (.written 2), .write (.written 8),
    .write (.written 2), .write (.written 4), .write (.written 8), .write (.written 8),
    .read .eintr, .workerRead 3, .workerRead 2, .workerRead 8, .workerRead 2, .workerRead 4,
    .workerRead 8, .workerRead 8, .opened true true, .workerWrite 1, .read (.read 1),
    .workerWrite 3, .finish, .read (.read 3), .close, .release,
    .open someSlices, .write (.written 4), .write (.written 8), .write (.written 2),
    .write (.written 8), .write (.written 2), .workerRead 4, .workerRead 8, .workerRead 2,
    .workerRead 8, .workerRead 2, .write (.written 4), .write (.written 4), .write (.written 9),
    .workerRead 4, .workerRead 4, .workerRead 9, .write (.written 7), .write (.written 16),
    .workerRead 7, .workerRead 10, .workerRead 6, .write (.written 8), .workerRead 8,
    .opened true true, .workerWrite 4]

theorem requests_framed_transfers : ∃ s, machine.run transfers = some s ∧
    s.client = .receiving someSlices [] ∧ s.decoded = [someCall, someSlices] ∧
      Framed [someCall, someSlices] s := by
  have hrun : (machine.run transfers).map (fun s => (s.client, s.decoded)) =
      some (.receiving someSlices [], [someCall, someSlices]) := by decide +kernel
  obtain ⟨s, hs, heq⟩ := Option.map_eq_some_iff.mp hrun
  have hboth := Prod.ext_iff.mp heq
  exact ⟨s, hs, hboth.1, hboth.2, requests_framed hs (by decide +kernel)⟩

end HdfStream.Framing
