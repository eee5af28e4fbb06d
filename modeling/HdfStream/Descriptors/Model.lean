/-
# The descriptors of the library and its workers

`worker_process_new` makes two pipes and forks, the child puts its ends of them at its standard
input and output and executes the reader, and `worker_process_free` closes the ends that the
library has kept.  No descriptor is marked close-on-exec, so a worker keeps a copy of every
descriptor that was open when it was forked, among them the ends that belong to other workers.
Whether a write fails with `EPIPE` and whether a read sees the end of the file depends on all
these copies.  This file is the model of the processes and their descriptor tables:

* the calls of `worker_process_new` and `worker_process_free`, one step for each system call,
  numbered in the order of the calls (`Stage`).  The calls of `worker_process_new` come one after
  the other: `process_pool_start_worker` makes them while it holds the mutex of the pool.  What
  happens to the workers that are there already, and their ends, goes on at the same time;
* the child branch of the fork and the life of the worker (`Child`);
* what is written to a pipe and not yet read, as a number of bytes;
* other code in the process of the library, which opens and closes descriptors of its own, and
  the end of that process at any time.

What the system decides is in the `Action`: the numbers that `pipe` returns, which calls fail, how
many bytes a call moves, and when a process ends.
-/
import HdfStream.Lib.Descriptors
import HdfStream.Lib.Machine
import Mathlib.Logic.Function.Basic

namespace HdfStream.Descriptors

/-! ## 1. Objects and processes -/

/-- `int input_pipe[2]` and `int output_pipe[2]`: the numbers of the two ends. -/
structure Pipe where
  read : ℕ
  write : ℕ
deriving DecidableEq, Repr

/-- What a descriptor refers to: an end of one of the pipes of a worker, or something else. -/
inductive Object where
  | inputRead (w : ℕ)
  | inputWrite (w : ℕ)
  | outputRead (w : ℕ)
  | outputWrite (w : ℕ)
  | other (n : ℕ)
deriving DecidableEq, Repr

/-- The worker whose pipe it is. -/
def Object.worker : Object → Option ℕ
  | .inputRead w | .inputWrite w | .outputRead w | .outputWrite w => some w
  | .other _ => none

abbrev Table := DescriptorTable Object

/-- How far the library is with a worker. -/
inductive Stage where
  /-- `worker_process_new` has not been called. -/
  | unborn
  /-- At `pipe(worker->input_pipe)`. -/
  | pipeInput
  /-- At `pipe(worker->output_pipe)`. -/
  | pipeOutput (input : Pipe)
  | fork (input output : Pipe)
  /-- In the parent branch, at `close(worker->input_pipe[PIPE_READ])`. -/
  | closeInputRead (input output : Pipe)
  /-- At `close(worker->output_pipe[PIPE_WRITE])`. -/
  | closeOutputWrite (input output : Pipe)
  /-- In the callback `worker->init`. -/
  | init (input output : Pipe)
  /-- `worker_process_new` has returned the worker. -/
  | running (input output : Pipe)
  /-- In `worker_process_free`, at the calls of `waitpid`. -/
  | waiting (input output : Pipe)
  /-- At `close(worker->input_pipe[PIPE_WRITE])`. -/
  | closeInputWrite (input output : Pipe)
  /-- At `close(worker->output_pipe[PIPE_READ])`. -/
  | closeOutputRead (output : Pipe)
  /-- The worker has been freed. -/
  | freed
  /-- `worker_process_new` has returned `NULL` after a failed `pipe` or `fork`, with the pipes
  made until then. -/
  | null (input output : Option Pipe)
deriving DecidableEq, Repr

/-- The child branch of `worker_process_new`. -/
inductive Branch where
  | closeInputWrite
  | closeOutputRead
  /-- `dup2(worker->output_pipe[PIPE_WRITE], STDOUT_FILENO)` -/
  | dupOutput
  /-- `dup2(worker->input_pipe[PIPE_READ], STDIN_FILENO)` -/
  | dupInput
  | closeInputRead
  | closeOutputWrite
  | execv
deriving DecidableEq, Repr

/-- What the process of a worker does. -/
inductive Child where
  | unborn
  /-- It has not executed the reader yet; the numbers are those in its copy of the struct. -/
  | branch (pc : Branch) (input output : Pipe)
  /-- At the `worker_recv` of a command code, or the `poll` before it. -/
  | reading
  /-- Anywhere else in `main`: in the start-up, or from a command to the next round. -/
  | working
  | dead
deriving DecidableEq, Repr

/-- The process exists. -/
def Child.Alive (c : Child) : Prop := c ≠ .unborn ∧ c ≠ .dead

instance : DecidablePred Child.Alive := fun _ => inferInstanceAs (Decidable (_ ∧ _))

/-- The processes, their tables, and how many bytes of each pipe nobody has read yet. -/
structure State where
  /-- The process of the library is running. -/
  library : Bool
  /-- How many times `worker_process_new` was called. -/
  calls : ℕ
  /-- The call that is going on. -/
  starting : Option ℕ
  stage : ℕ → Stage
  /-- `worker->is_dead` -/
  isDead : ℕ → Bool
  child : ℕ → Child
  libraryTable : Table
  childTable : ℕ → Table
  inputBytes : ℕ → ℕ
  outputBytes : ℕ → ℕ

/-- Some process holds the object. -/
def State.Held (s : State) (o : Object) : Prop :=
  s.libraryTable.Holds o ∨ ∃ w < s.calls, (s.childTable w).Holds o

instance (s : State) (o : Object) : Decidable (s.Held o) :=
  inferInstanceAs (Decidable (s.libraryTable.Holds o ∨ ∃ w < s.calls, (s.childTable w).Holds o))

def State.setStage (s : State) (w : ℕ) (st : Stage) : State :=
  { s with stage := Function.update s.stage w st }

def State.setChild (s : State) (w : ℕ) (c : Child) (t : Table) : State :=
  { s with
    child := Function.update s.child w c
    childTable := Function.update s.childTable w t }

/-- The call of `worker_process_new` for this worker has returned. -/
def State.setReturned (s : State) (w : ℕ) : State :=
  if s.starting = some w then { s with starting := none } else s

/-- The end of a process: all its descriptors are closed. -/
def State.die (s : State) (w : ℕ) : State := s.setChild w .dead ∅

/-! ## 2. The library -/

/-- The steps of the library with a worker. -/
inductive LibraryAction where
  /-- `pipe()` returns these numbers, or fails. -/
  | pipe (p : Option Pipe)
  | fork (ok : Bool)
  | close
  /-- `worker->init(worker)` returns 0, or something else. -/
  | initReturns (ok : Bool)
  /-- A `write` in `worker_process_send` moves `n` bytes. -/
  | send (n : ℕ)
  /-- It fails with `EPIPE`. -/
  | sendBroken
  /-- A `read` in `worker_process_recv` moves `n` bytes. -/
  | recv (n : ℕ)
  /-- It sees the end of the file. -/
  | recvEnd
  /-- `waitpid` in `worker_process_is_alive` returns the process. -/
  | isAlive
  /-- `worker_process_free` is called. -/
  | free
  /-- `waitpid` in `worker_process_free` returns the process. -/
  | waitpid
deriving DecidableEq, Repr

/-- Both numbers of the pipe are free and they are different. -/
def Pipe.Fresh (p : Pipe) (t : Table) : Prop :=
  p.read ≠ p.write ∧ t.lookup p.read = none ∧ t.lookup p.write = none

instance (p : Pipe) (t : Table) : Decidable (p.Fresh t) :=
  inferInstanceAs (Decidable (_ ∧ _ ∧ _))

/-- The calls of `pipe`. -/
def State.pipe (s : State) (w : ℕ) : Option Pipe → Option State
  | none =>
    match s.stage w with
    | .pipeInput => some ((s.setStage w (.null none none)).setReturned w)
    | .pipeOutput input => some ((s.setStage w (.null (some input) none)).setReturned w)
    | _ => none
  | some p =>
    if p.Fresh s.libraryTable then
      match s.stage w with
      | .pipeInput =>
        some { s.setStage w (.pipeOutput p) with
          libraryTable :=
            (s.libraryTable.insert p.read (.inputRead w)).insert p.write (.inputWrite w) }
      | .pipeOutput input =>
        some { s.setStage w (.fork input p) with
          libraryTable :=
            (s.libraryTable.insert p.read (.outputRead w)).insert p.write (.outputWrite w) }
      | _ => none
    else none

/-- The call of `fork`. -/
def State.fork (s : State) (w : ℕ) (ok : Bool) : Option State :=
  match s.stage w with
  | .fork input output =>
    if ok then
      some ((s.setStage w (.closeInputRead input output)).setChild w
        (.branch .closeInputWrite input output) s.libraryTable)
    else some ((s.setStage w (.null (some input) (some output))).setReturned w)
  | _ => none

/-- The number that the next `close` is called with, and what comes after it. -/
def Stage.close : Stage → Option (ℕ × Stage)
  | .closeInputRead input output => some (input.read, .closeOutputWrite input output)
  | .closeOutputWrite input output => some (output.write, .init input output)
  | .closeInputWrite input output => some (input.write, .closeOutputRead output)
  | .closeOutputRead output => some (output.read, .freed)
  | _ => none

/-- The calls of `close`; the last one of a `worker_process_free` that `worker_process_new` has
called ends that call. -/
def State.close (s : State) (w : ℕ) : Option State :=
  match (s.stage w).close with
  | none => none
  | some (fd, st) =>
    let s' := { s.setStage w st with libraryTable := s.libraryTable.erase fd }
    some (if st = .freed then s'.setReturned w else s')

/-- `worker_process_free` up to the first `close` or the calls of `waitpid`. -/
def State.free (s : State) (w : ℕ) (input output : Pipe) : State :=
  s.setStage w (if s.isDead w then .closeInputWrite input output else .waiting input output)

/-- The callers may use the worker. -/
def Stage.InUse : Stage → Prop
  | .init _ _ | .running _ _ => True
  | _ => False

instance : DecidablePred Stage.InUse
  | .init _ _ | .running _ _ => isTrue trivial
  | .unborn | .pipeInput | .pipeOutput _ | .fork _ _ | .closeInputRead _ _ | .closeOutputWrite _ _
  | .waiting _ _ | .closeInputWrite _ _ | .closeOutputRead _ | .freed | .null _ _ => isFalse id

/-- A step of the library with worker `w`. -/
def libraryStep (s : State) (w : ℕ) : LibraryAction → Option State
  | .pipe p => s.pipe w p
  | .fork ok => s.fork w ok
  | .close => s.close w
  | .initReturns ok =>
    match s.stage w with
    | .init input output =>
      if ok then some ((s.setStage w (.running input output)).setReturned w)
      else some (s.free w input output)
    | _ => none
  | .send n =>
    if (s.stage w).InUse ∧ s.isDead w = false ∧ s.Held (.inputRead w) then
      some { s with inputBytes := Function.update s.inputBytes w (s.inputBytes w + n) }
    else none
  | .sendBroken =>
    if (s.stage w).InUse ∧ s.isDead w = false ∧ ¬ s.Held (.inputRead w) then
      some { s with isDead := Function.update s.isDead w true }
    else none
  | .recv n =>
    if (s.stage w).InUse ∧ s.isDead w = false ∧ n ≤ s.outputBytes w then
      some { s with outputBytes := Function.update s.outputBytes w (s.outputBytes w - n) }
    else none
  | .recvEnd =>
    if (s.stage w).InUse ∧ s.isDead w = false ∧ s.outputBytes w = 0 ∧
        ¬ s.Held (.outputWrite w) then
      some { s with isDead := Function.update s.isDead w true }
    else none
  | .isAlive =>
    if (s.stage w).InUse ∧ s.isDead w = false ∧ s.child w = .dead then
      some { s with isDead := Function.update s.isDead w true }
    else none
  | .free =>
    match s.stage w with
    | .running input output => some (s.free w input output)
    | _ => none
  | .waitpid =>
    match s.stage w with
    | .waiting input output =>
      if s.child w = .dead then some (s.setStage w (.closeInputWrite input output)) else none
    | _ => none

/-! ## 3. The workers -/

/-- The steps of the process of a worker. -/
inductive ChildAction where
  /-- The next call of the child branch; a `dup2` may be interrupted. -/
  | branch (interrupted : Bool)
  /-- `execv` fails. -/
  | abort
  /-- A `read` of the standard input moves `n` bytes. -/
  | recv (n : ℕ)
  /-- It sees the end of the file at a command code. -/
  | recvEnd
  /-- A `write` to the standard output moves `n` bytes. -/
  | send (n : ℕ)
  /-- The worker comes to the next round of its main loop. -/
  | finish
  | openOther (fd n : ℕ)
  | closeOther (fd : ℕ)
  /-- The process ends for any reason. -/
  | die
deriving DecidableEq, Repr

/-- One call of the child branch: the table after it, and what comes next. -/
def branchStep (t : Table) (input output : Pipe) (interrupted : Bool) : Branch → Table × Child
  | .closeInputWrite => (t.erase input.write, .branch .closeOutputRead input output)
  | .closeOutputRead => (t.erase output.read, .branch .dupOutput input output)
  | .dupOutput =>
    if interrupted then (t, .branch .dupOutput input output)
    else (t.dup2 output.write 1, .branch .dupInput input output)
  | .dupInput =>
    if interrupted then (t, .branch .dupInput input output)
    else (t.dup2 input.read 0, .branch .closeInputRead input output)
  | .closeInputRead => (t.erase input.read, .branch .closeOutputWrite input output)
  | .closeOutputWrite => (t.erase output.write, .branch .execv input output)
  | .execv => (t, .working)

/-- A step of worker `w`. -/
def childStep (s : State) (w : ℕ) : ChildAction → Option State
  | .branch interrupted =>
    match s.child w with
    | .branch pc input output =>
      let r := branchStep (s.childTable w) input output interrupted pc
      some (s.setChild w r.2 r.1)
    | _ => none
  | .abort =>
    match s.child w with
    | .branch .execv _ _ => some (s.die w)
    | _ => none
  | .recv n =>
    if (s.child w = .reading ∨ s.child w = .working) ∧ 0 < n ∧ n ≤ s.inputBytes w then
      some { s.setChild w .working (s.childTable w) with
        inputBytes := Function.update s.inputBytes w (s.inputBytes w - n) }
    else none
  | .recvEnd =>
    if s.child w = .reading ∧ s.inputBytes w = 0 ∧ ¬ s.Held (.inputWrite w) then some (s.die w)
    else none
  | .send n =>
    if s.child w = .working then
      some { s with outputBytes := Function.update s.outputBytes w (s.outputBytes w + n) }
    else none
  | .finish =>
    if s.child w = .working then some (s.setChild w .reading (s.childTable w)) else none
  | .openOther fd n =>
    if (s.child w = .reading ∨ s.child w = .working) ∧ (s.childTable w).lookup fd = none then
      some (s.setChild w (s.child w) ((s.childTable w).insert fd (.other n)))
    else none
  | .closeOther fd =>
    if (s.child w = .reading ∨ s.child w = .working) ∧
        (∃ o, (s.childTable w).lookup fd = some o ∧ o.worker = none) then
      some (s.setChild w (s.child w) ((s.childTable w).erase fd))
    else none
  | .die => if (s.child w).Alive then some (s.die w) else none

/-! ## 4. The machine -/

/-- The steps of the system. -/
inductive Action where
  /-- `worker_process_new` is called. -/
  | new
  | library (w : ℕ) (a : LibraryAction)
  | child (w : ℕ) (a : ChildAction)
  /-- Other code in the process of the library. -/
  | openOther (fd n : ℕ)
  | closeOther (fd : ℕ)
  /-- The process of the library ends. -/
  | exit
deriving DecidableEq, Repr

/-- One step. -/
def exec (s : State) : Action → Option State
  | .new =>
    if s.library ∧ s.starting = none then
      some { s.setStage s.calls .pipeInput with
        calls := s.calls + 1
        starting := some s.calls }
    else none
  | .library w a => if s.library then libraryStep s w a else none
  | .child w a => childStep s w a
  | .openOther fd n =>
    if s.library ∧ s.libraryTable.lookup fd = none then
      some { s with libraryTable := s.libraryTable.insert fd (.other n) }
    else none
  | .closeOther fd =>
    if s.library ∧ (∃ o, s.libraryTable.lookup fd = some o ∧ o.worker = none) then
      some { s with libraryTable := s.libraryTable.erase fd }
    else none
  | .exit => if s.library then some { s with library := false, libraryTable := ∅ } else none

/-- The table of a process with a standard input, output and error. -/
def standardTable : Table :=
  (((∅ : Table).insert 0 (.other 0)).insert 1 (.other 1)).insert 2 (.other 2)

/-- Before the first worker. -/
def start : State where
  library := true
  calls := 0
  starting := none
  stage := fun _ => .unborn
  isDead := fun _ => false
  child := fun _ => .unborn
  libraryTable := standardTable
  childTable := fun _ => ∅
  inputBytes := fun _ => 0
  outputBytes := fun _ => 0

/-- The library and its workers. -/
def machine : Machine State Action := ⟨start, exec⟩

/-- The step does not close the standard input or output of the library. -/
def Action.KeepsStandard : Action → Prop
  | .closeOther fd => 1 < fd
  | _ => True

instance : DecidablePred Action.KeepsStandard
  | .closeOther fd => inferInstanceAs (Decidable (1 < fd))
  | .new | .library _ _ | .child _ _ | .openOther _ _ | .exit => isTrue trivial

end HdfStream.Descriptors
