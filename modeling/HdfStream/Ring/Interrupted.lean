/-
# The ring when waits are interrupted

`semaphore_wait` of `msgpack_chunkbuffer.c` calls `sem_wait` again while it has returned `EINTR`;
but `sem_wait` returns -1, so an interruption ends the loop, and the worker goes on without the
permit it waited for.

Here is the ring with this loop: a wait of the worker is one step, with the outcomes of its calls
of `sem_wait`.  `held` is the buffer whose `ready_for_write` permit the worker holds: a wait that
takes a permit gives it, and `sem_post` of `ready_for_read` gives it away.  A run in which no wait
is interrupted is a run of the ring, and the worker stores only into the buffer it holds.
-/
import HdfStream.Ring.Model
import HdfStream.Lib.Semaphore

namespace HdfStream.Ring

open Semaphore

/-! ## 1. The loop -/

/-- `semaphore_wait`: the permits it has taken when it returns. -/
def semaphoreWait (outcomes : List Outcome) : Option Nat :=
  (waitLoop (fun err _ => err == eintr) 0 0 outcomes).map Waited.permits

/-! ## 2. The machine -/

/-- `semaphore_wait` is called. -/
def WorkerPc.waits : WorkerPc → Bool
  | .claim _ | .flushWait _ => true
  | _ => false

/-- The worker stores into a buffer, or its header. -/
def WorkerPc.stores : WorkerPc → Bool
  | .reset _ | .publish _ => true
  | .copy left => left ≠ []
  | _ => false

/-- `sem_post` of `ready_for_read`. -/
def WorkerPc.gives : WorkerPc → Bool
  | .flushPost _ | .post => true
  | _ => false

/-- The ring, and the buffer whose permit the worker holds. -/
structure Waiting where
  ring : State
  held : Option Nat

/-- A step of the ring, or a wait of the worker. -/
inductive WaitAction where
  | step (a : Action)
  | wait (outcomes : List Outcome)

/-- Where the worker goes on after a wait. -/
def afterWait (w : Worker) : Worker :=
  match w.pc with
  | .claim caller => { w with pc := .reset caller }
  | .flushWait caller => flushReturn w 0 caller
  | _ => w

/-- The permit the worker holds after a step that is not a wait. -/
def heldAfter (s : Waiting) : Action → Option Nat
  | .worker => if s.ring.worker.pc.gives then none else s.held
  | .accept => none
  | _ => s.held

/-- The worker's next instruction is `semaphore_wait`. -/
def Action.isWait (s : State) : Action → Bool
  | .worker => s.worker.pc.waits
  | _ => false

/-- The step function. -/
def Waiting.exec (cfg : Config) (s : Waiting) : WaitAction → Option Waiting
  | .step a =>
    if a.isWait s.ring then none
    else (Ring.exec cfg s.ring a).map fun ring => { ring := ring, held := heldAfter s a }
  | .wait outcomes =>
    match s.ring.worker.pc.waits, s.ring.worker.dead, s.ring.worker.bufferNr,
      semaphoreWait outcomes with
    | true, false, some j, some permits =>
      let b := s.ring.shared.buffer j
      if permits ≤ b.readyForWrite then
        some
          { ring := { s.ring with
              shared :=
                s.ring.shared.setBuffer j { b with readyForWrite := b.readyForWrite - permits }
              worker := afterWait s.ring.worker }
            held := if permits = 1 then some j else none }
      else none
    | _, _, _, _ => none

/-- One worker and its client. -/
def waitMachine (cfg : Config) (status : Int) (mem : Nat → UInt8) :
    Machine Waiting WaitAction where
  init := { ring := start cfg status mem, held := none }
  exec := Waiting.exec cfg

/-- The first call of `sem_wait` takes a permit. -/
def WaitAction.Uninterrupted : WaitAction → Prop
  | .step _ => True
  | .wait outcomes => outcomes.head? = some .taken

/-- The worker stores only into a buffer whose permit it holds. -/
def StoresHeld (s : Waiting) : Prop :=
  s.ring.worker.dead = false → s.ring.worker.pc.stores = true →
    ∀ j, s.ring.worker.bufferNr = some j → s.held = some j

/-! ## 3. Runs without interruptions -/

variable {cfg : Config} {s s' : Waiting}

theorem semaphoreWait_taken (outcomes : List Outcome) :
    semaphoreWait (.taken :: outcomes) = some 1 := by
  rw [semaphoreWait, waitLoop_taken fun _ => rfl]
  rfl

theorem semaphoreWait_interrupted (outcomes : List Outcome) :
    semaphoreWait (.interrupted :: outcomes) = some 0 := by
  rw [semaphoreWait, waitLoop_giveUp rfl]
  rfl

/-- A wait of the ring. -/
theorem workerStep_wait {ring : State} {j : Nat} (hwaits : ring.worker.pc.waits = true)
    (hj : ring.worker.bufferNr = some j) (hfree : 0 < (ring.shared.buffer j).readyForWrite) :
    workerStep cfg ring = some { ring with
      shared := ring.shared.setBuffer j { ring.shared.buffer j with
        readyForWrite := (ring.shared.buffer j).readyForWrite - 1 }
      worker := afterWait ring.worker } := by
  cases hpc : ring.worker.pc with
  | claim caller => simp only [workerStep, hpc, hj, if_pos hfree, afterWait]
  | flushWait caller => simp only [workerStep, hpc, hj, if_pos hfree, afterWait]
  | _ =>
    rw [hpc] at hwaits
    cases hwaits

/-- The control points at which the worker has the buffer it writes to. -/
def WorkerPc.owns : WorkerPc → Bool
  | .command | .finished | .claim _ | .flushWait _ => false
  | _ => true

/-- The worker holds the permit of its buffer. -/
def HoldsOwn (s : Waiting) : Prop :=
  s.ring.worker.pc.owns = true → s.held = s.ring.worker.bufferNr

theorem flushReturn_owns {w : Worker} {ret : Int} {caller : Caller}
    (h : (flushReturn w ret caller).pc.owns = true) :
    (flushReturn w ret caller).bufferNr = w.bufferNr := by
  cases caller with
  | write left => rfl
  | destroy code =>
    rw [flushReturn] at h ⊢
    split at h
    · cases h
    · rfl

/-- A step of the worker that is not a wait, and after which it has a buffer. -/
theorem workerStep_owns {ring ring' : State} (hwaits : ring.worker.pc.waits = false)
    (h : workerStep cfg ring = some ring') (howns : ring'.worker.pc.owns = true) :
    ring.worker.pc.owns = true ∧ ring.worker.pc.gives = false ∧
      ring'.worker.bufferNr = ring.worker.bufferNr := by
  cases hpc : ring.worker.pc with
  | command | between =>
    simp only [workerStep, hpc] at h
    cases h
  | claim caller | flushWait caller =>
    rw [hpc] at hwaits
    cases hwaits
  | finished =>
    simp only [workerStep, hpc] at h
    cases h
    cases howns
  | flushStatus caller =>
    simp only [workerStep, hpc] at h
    split at h
    · cases h
      exact ⟨rfl, rfl, flushReturn_owns howns⟩
    · cases h
      exact ⟨rfl, rfl, rfl⟩
  | flushUsed caller =>
    cases hj : ring.worker.bufferNr with
    | none =>
      simp only [workerStep, hpc, hj] at h
      cases h
      exact ⟨rfl, rfl, (flushReturn_owns howns).trans hj⟩
    | some j =>
      simp only [workerStep, hpc, hj] at h
      split at h
      · cases h
        exact ⟨rfl, rfl, (flushReturn_owns howns).trans hj⟩
      · cases h
        exact ⟨rfl, rfl, rfl⟩
  | copy left =>
    cases hj : ring.worker.bufferNr with
    | none =>
      simp only [workerStep, hpc, hj] at h
      cases h
    | some j =>
      simp only [workerStep, hpc, hj] at h
      split at h
      · cases h
        exact ⟨rfl, rfl, rfl⟩
      · cases h
        exact ⟨rfl, rfl, rfl⟩
  | reset caller | publish code =>
    cases hj : ring.worker.bufferNr with
    | none =>
      simp only [workerStep, hpc, hj] at h
      cases h
    | some j =>
      simp only [workerStep, hpc, hj] at h
      cases h
      exact ⟨rfl, rfl, rfl⟩
  | flushPost caller | post =>
    cases hj : ring.worker.bufferNr with
    | none =>
      simp only [workerStep, hpc, hj] at h
      cases h
    | some j =>
      simp only [workerStep, hpc, hj] at h
      cases h
      cases howns

theorem afterWait_owns {w : Worker} {j : Nat} (hwaits : w.pc.waits = true)
    (hj : w.bufferNr = some j) : (afterWait w).bufferNr = some j := by
  rw [afterWait]
  cases hpc : w.pc with
  | claim caller => exact hj
  | flushWait caller =>
    cases caller with
    | write left => exact hj
    | destroy code =>
      dsimp only
      rw [flushReturn, hj]
  | _ =>
    rw [hpc] at hwaits
    cases hwaits

theorem clientStep_worker {ring ring' : State} (h : clientStep cfg ring = some ring') :
    ring'.worker = ring.worker := by
  unfold clientStep at h
  dsimp only at h
  split at h
  · cases h
    rfl
  · cases h
    rfl
  · split at h
    · cases h
      rfl
    · cases h
  · split at h
    · cases h
      rfl
    · cases h
      rfl
  · cases h
    rfl
  · cases h
    rfl
  · cases h
    rfl
  · cases h
    rfl
  · cases h

/-- The calls of the packer and the worker's loop. -/
def Action.ofWorker : Action → Bool
  | .worker | .write _ | .destroy _ | .accept | .die => true
  | _ => false

/-- The client does not move the worker. -/
theorem exec_worker {ring ring' : State} {a : Action} (ha : a.ofWorker = false)
    (h : Ring.exec cfg ring a = some ring') : ring'.worker = ring.worker := by
  cases a with
  | worker | write | destroy | accept | die => cases ha
  | client => exact clientStep_worker h
  | refuse =>
    simp only [Ring.exec] at h
    split at h
    · cases h
      rfl
    · cases h
  | «open» n | waitFailed | openFailed =>
    simp only [Ring.exec] at h
    split at h
    · split at h
      all_goals cases h
      rfl
    · cases h
  | read | close =>
    simp only [Ring.exec] at h
    split at h
    · split at h
      · cases h
        rfl
      · cases h
        rfl
    · cases h

/-- A call that is not a step of the worker. -/
theorem HoldsOwn.call (h : HoldsOwn s) {a : Action} (ha : a ≠ .worker) {ring : State}
    (hstep : Ring.exec cfg s.ring a = some ring) :
    HoldsOwn { ring := ring, held := heldAfter s a } := by
  unfold HoldsOwn at h ⊢
  intro howns
  cases hof : a.ofWorker with
  | false =>
    have hsame := exec_worker hof hstep
    have hheld : heldAfter s a = s.held := by cases a <;> first | rfl | cases hof
    dsimp only at howns ⊢
    rw [hsame] at howns ⊢
    rw [hheld]
    exact h howns
  | true =>
    cases a with
    | worker => exact absurd rfl ha
    | write buf =>
      simp only [Ring.exec] at hstep
      split at hstep
      · rename_i hpc hdead
        rw [hpc] at h
        cases hstep
        dsimp only at howns ⊢
        cases hj : s.ring.worker.bufferNr with
        | none =>
          rw [hj] at howns
          cases howns
        | some j => exact (h rfl).trans hj
      · cases hstep
    | destroy code =>
      simp only [Ring.exec] at hstep
      split at hstep
      · rename_i hpc hdead
        rw [hpc] at h
        cases hstep
        exact h rfl
      · cases hstep
    | accept =>
      simp only [Ring.exec] at hstep
      split at hstep
      · cases hstep
        rfl
      · cases hstep
    | die =>
      cases hstep
      exact h howns
    | _ => cases hof

/-- A wait that takes a permit is the ring's. -/
theorem Waiting.exec_wait {outcomes : List Outcome}
    (h : s.exec cfg (.wait (.taken :: outcomes)) = some s') :
    Ring.exec cfg s.ring .worker = some s'.ring ∧ s'.held = s'.ring.worker.bufferNr := by
  simp only [Waiting.exec, semaphoreWait_taken] at h
  split at h
  · rename_i hwaits hdead hj hpermits
    cases hpermits
    split at h
    · rename_i hfree
      cases h
      refine ⟨?_, ?_⟩
      · rw [Ring.exec, if_neg (by rw [hdead]; exact Bool.false_ne_true)]
        exact workerStep_wait hwaits hj hfree
      · exact (afterWait_owns hwaits hj).symm
    · cases h
  · cases h

/-- One step without an interruption. -/
theorem HoldsOwn.exec (h : HoldsOwn s) {a : WaitAction} (ha : a.Uninterrupted)
    (hstep : s.exec cfg a = some s') :
    HoldsOwn s' ∧ ∃ b, Ring.exec cfg s.ring b = some s'.ring := by
  cases a with
  | step a =>
    rw [Waiting.exec] at hstep
    split at hstep
    · cases hstep
    · rename_i hwait
      obtain ⟨ring, hring, rfl⟩ := Option.map_eq_some_iff.mp hstep
      refine ⟨?_, a, hring⟩
      by_cases hworker : a = .worker
      · subst hworker
        rw [Bool.not_eq_true] at hwait
        intro howns
        have hring' := hring
        rw [Ring.exec] at hring'
        split at hring'
        · cases hring'
        · obtain ⟨hown, hgives, hsame⟩ := workerStep_owns hwait hring' howns
          dsimp only
          rw [heldAfter, hgives, if_neg Bool.false_ne_true, hsame]
          exact h hown
      · exact h.call hworker hring
  | wait outcomes =>
    cases outcomes with
    | nil => cases ha
    | cons o outcomes =>
      cases ha
      obtain ⟨hring, hheld⟩ := Waiting.exec_wait hstep
      exact ⟨fun _ => hheld, .worker, hring⟩

/-- **The ring without interruptions**: it is the ring, and the worker stores only into a buffer
whose permit it holds. -/
theorem storesHeld_of_uninterrupted {status : Int} {mem : Nat → UInt8} {tr : List WaitAction}
    (h : (waitMachine cfg status mem).run tr = some s) (htr : ∀ a ∈ tr, a.Uninterrupted) :
    StoresHeld s ∧ (machine cfg status mem).Reachable s.ring := by
  have hinv : (∀ a ∈ tr, a.Uninterrupted) →
      HoldsOwn s ∧ (machine cfg status mem).Reachable s.ring := by
    refine (waitMachine cfg status mem).run_induction (I := fun tr s =>
      (∀ a ∈ tr, a.Uninterrupted) → HoldsOwn s ∧ (machine cfg status mem).Reachable s.ring)
      ?_ ?_ tr s h
    · exact fun _ => ⟨fun howns => (by cases howns), Machine.reachable_init _⟩
    · intro tr s a s' _ ih hstep htr
      obtain ⟨hholds, hreach⟩ := ih fun b hb => htr b (List.mem_append_left _ hb)
      obtain ⟨hholds', b, hb⟩ := hholds.exec
        (htr a (List.mem_append_right _ (List.mem_singleton_self a))) hstep
      exact ⟨hholds', hreach.step hb⟩
  obtain ⟨hholds, hreach⟩ := hinv htr
  refine ⟨fun _ hstores j hj => ?_, hreach⟩
  have howns : s.ring.worker.pc.owns = true := by
    cases hpc : s.ring.worker.pc <;> rw [hpc] at hstores <;> first | rfl | cases hstores
  exact (hholds howns).trans hj

end HdfStream.Ring
