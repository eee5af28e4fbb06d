/-
# Unpacking MessagePack

The calls of an unpacker (`MessageUnpacker` of the Java library) on what is left of the stream,
as the calls of a packer that would have written it.  A call that finds another type than it
wants, or a number that does not fit, throws; a header may announce more than follows.

The inverse of each call is stated with the tokens behind it, as the callers need it.
-/
import HdfStream.Lib.Msgpack
import HdfStream.Lib.JavaArray

namespace Msgpack

variable {σ ε α β : Type}

/-- What a call throws. -/
inductive UnpackError where
  /-- `MessageTypeException`, of which an integer overflow is a kind. -/
  | type
  /-- `MessageSizeException`. -/
  | size
  /-- The stream is at its end. -/
  | insufficient
deriving DecidableEq

/-- A computation on what is left of the stream. -/
abbrev Unpack (σ ε : Type) := StateT (List (Token σ)) (Except ε)

variable [Coe UnpackError ε]

/-- A header may not announce more than an `int` can count. -/
def size (n : Nat) : Except ε Nat :=
  if n < 2147483648 then .ok n else .error (UnpackError.size : UnpackError)

/-- `unpackArrayHeader`. -/
def unpackArrayHeader : Unpack σ ε Nat
  | .arrayHeader n :: rest => (size n).map fun n => (n, rest)
  | [] => .error (UnpackError.insufficient : UnpackError)
  | _ => .error (UnpackError.type : UnpackError)

/-- `unpackMapHeader`. -/
def unpackMapHeader : Unpack σ ε Nat
  | .mapHeader n :: rest => (size n).map fun n => (n, rest)
  | [] => .error (UnpackError.insufficient : UnpackError)
  | _ => .error (UnpackError.type : UnpackError)

/-- `unpackLong`. -/
def unpackLong : Unpack σ ε Int
  | .int n :: rest =>
    if -9223372036854775808 ≤ n ∧ n < 9223372036854775808 then .ok (n, rest)
    else .error (UnpackError.type : UnpackError)
  | [] => .error (UnpackError.insufficient : UnpackError)
  | _ => .error (UnpackError.type : UnpackError)

/-- `unpackInt`. -/
def unpackInt : Unpack σ ε Int
  | .int n :: rest =>
    if -2147483648 ≤ n ∧ n < 2147483648 then .ok (n, rest)
    else .error (UnpackError.type : UnpackError)
  | [] => .error (UnpackError.insufficient : UnpackError)
  | _ => .error (UnpackError.type : UnpackError)

/-- `unpackRawStringHeader` and `readPayload`: the bytes of a string, or of a binary, which the
library reads as a string. -/
def unpackRawString : Unpack (List UInt8) ε (List UInt8)
  | .str s :: rest => .ok (s, rest)
  | .bin bytes :: rest => .ok (bytes, rest)
  | [] => .error (UnpackError.insufficient : UnpackError)
  | _ => .error (UnpackError.type : UnpackError)

/-- `hasNext`. -/
def hasNext : Unpack σ ε Bool := fun s => .ok (!s.isEmpty, s)

/-- The next token, which stays in the stream. -/
def peek : Unpack σ ε (Token σ)
  | [] => .error (UnpackError.insufficient : UnpackError)
  | t :: rest => .ok (t, t :: rest)

/-! ## 1. Sequences of calls -/

omit [Coe UnpackError ε] in
theorem bind_ok {x : Unpack σ ε α} {f : α → Unpack σ ε β} {s s' : List (Token σ)} {a : α}
    (h : x s = .ok (a, s')) : (x >>= f) s = f a s' := by
  simp only [bind, StateT.bind, h]
  rfl

omit [Coe UnpackError ε] in
theorem bind_error {x : Unpack σ ε α} {f : α → Unpack σ ε β} {s : List (Token σ)} {e : ε}
    (h : x s = .error e) : (x >>= f) s = .error e := by
  simp only [bind, StateT.bind, h]
  rfl

omit [Coe UnpackError ε] in
/-- What a sequence of calls that returns has done. -/
theorem of_bind_ok {x : Unpack σ ε α} {f : α → Unpack σ ε β} {s : List (Token σ)}
    {r : β × List (Token σ)} (h : (x >>= f) s = .ok r) :
    ∃ a s', x s = .ok (a, s') ∧ f a s' = .ok r := by
  simp only [bind, StateT.bind] at h
  cases hx : x s with
  | error e =>
    rw [hx] at h
    cases h
  | ok p =>
    rw [hx] at h
    exact ⟨p.1, p.2, rfl, h⟩

@[simp] theorem unpackArrayHeader_cons {n : Nat} (h : n < 2147483648) (rest : List (Token σ)) :
    (unpackArrayHeader : Unpack σ ε Nat) (.arrayHeader n :: rest) = .ok (n, rest) := by
  rw [unpackArrayHeader, size, if_pos h]
  rfl

@[simp] theorem unpackMapHeader_cons {n : Nat} (h : n < 2147483648) (rest : List (Token σ)) :
    (unpackMapHeader : Unpack σ ε Nat) (.mapHeader n :: rest) = .ok (n, rest) := by
  rw [unpackMapHeader, size, if_pos h]
  rfl

@[simp] theorem unpackLong_cons {n : Int} (h : -9223372036854775808 ≤ n ∧ n < 9223372036854775808)
    (rest : List (Token σ)) : (unpackLong : Unpack σ ε Int) (.int n :: rest) = .ok (n, rest) := by
  rw [unpackLong, if_pos h]

@[simp] theorem unpackInt_cons {n : Int} (h : -2147483648 ≤ n ∧ n < 2147483648)
    (rest : List (Token σ)) : (unpackInt : Unpack σ ε Int) (.int n :: rest) = .ok (n, rest) := by
  rw [unpackInt, if_pos h]

/-- What a call that returns has found. -/
theorem unpackArrayHeader_ok {s s' : List (Token σ)} {n : Nat}
    (h : (unpackArrayHeader : Unpack σ ε Nat) s = .ok (n, s')) :
    n < 2147483648 ∧ s = .arrayHeader n :: s' := by
  unfold unpackArrayHeader at h
  split at h
  · unfold size at h
    split at h
    · cases h
      exact ⟨by assumption, rfl⟩
    · cases h
  · cases h
  · cases h

theorem unpackLong_ok {s s' : List (Token σ)} {n : Int}
    (h : (unpackLong : Unpack σ ε Int) s = .ok (n, s')) :
    (-9223372036854775808 ≤ n ∧ n < 9223372036854775808) ∧ s = .int n :: s' := by
  unfold unpackLong at h
  split at h
  · split at h
    · cases h
      exact ⟨by assumption, rfl⟩
    · cases h
  · cases h
  · cases h

theorem peek_ok {s s' : List (Token σ)} {t : Token σ}
    (h : (peek : Unpack σ ε (Token σ)) s = .ok (t, s')) : s' = s := by
  cases s with
  | nil => cases h
  | cons t rest =>
    cases h
    rfl

end Msgpack
