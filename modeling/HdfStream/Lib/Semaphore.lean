/-
# Waiting for a semaphore in spite of signals

`sem_wait` takes a permit and returns 0, or a signal handler interrupts it, and it returns -1 and
stores `EINTR` in `errno`.  Programs call it in a loop, as long as a condition `again` on the
returned value and on `errno` holds.

A loop that does not go on when -1 is returned and `errno` is `EINTR` returns without a permit after
the first interruption (`waitLoop_giveUp`).
-/
import Mathlib.Data.Int.Notation

namespace Semaphore

/-- What one call of `sem_wait` does. -/
inductive Outcome where
  | taken
  | interrupted
deriving DecidableEq

/-- `EINTR`. -/
def eintr : Int := 4

/-- The value `sem_wait` returns. -/
def Outcome.ret : Outcome → Int
  | .taken => 0
  | .interrupted => -1

/-- `errno` after a call. -/
def Outcome.errno (before : Int) : Outcome → Int
  | .taken => before
  | .interrupted => eintr

/-- The permits that a call takes. -/
def Outcome.permits : Outcome → Nat
  | .taken => 1
  | .interrupted => 0

/-- What a loop leaves: the value that was returned last, and the permits it has taken. -/
structure Waited where
  err : Int
  permits : Nat
deriving DecidableEq

/-- `do err = sem_wait(s); while(again(err, errno));`.  `none` says that it does not return. -/
def waitLoop (again : Int → Int → Bool) : Int → Nat → List Outcome → Option Waited
  | _, _, [] => none
  | errno, permits, o :: outcomes =>
    let errno := o.errno errno
    let permits := permits + o.permits
    if again o.ret errno then waitLoop again errno permits outcomes
    else some { err := o.ret, permits := permits }

/-- So many interruptions, and then a success. -/
def interruptions (n : Nat) : List Outcome := List.replicate n .interrupted ++ [.taken]

variable {again : Int → Int → Bool}

theorem waitLoop_taken (hzero : ∀ errno, again 0 errno = false) (errno : Int) (permits : Nat)
    (outcomes : List Outcome) :
    waitLoop again errno permits (.taken :: outcomes) =
      some { err := 0, permits := permits + 1 } := by
  rw [waitLoop, if_neg (by rw [Outcome.ret, hzero]; exact Bool.false_ne_true)]
  rfl

/-- **A loop that does not.** -/
theorem waitLoop_giveUp (hretry : again (-1) eintr = false) (errno : Int) (permits : Nat)
    (outcomes : List Outcome) :
    waitLoop again errno permits (.interrupted :: outcomes) =
      some { err := -1, permits := permits } := by
  rw [waitLoop, Outcome.ret, Outcome.errno, hretry, if_neg Bool.false_ne_true]
  rfl

end Semaphore
