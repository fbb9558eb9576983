import Tandem.Connection.Error
import Tandem.Frame.Basic

/-!
# Writing a frame

A stream takes as much of what it is offered as it likes.  A transfer keeps the part of a frame that
the stream has not taken yet; header and body stay two stretches, and what is offered is the one
followed by the other.  `Transfer.writeAll` goes on until the stream has taken everything.
-/

namespace Tandem.Frame

/-- What a stream answers to an attempt to write. -/
inductive Attempt where
  /-- it took that many bytes -/
  | wrote (n : Nat)
  /-- it takes nothing at the moment -/
  | busy
  | failed (f : Fault)
  deriving DecidableEq, Repr

/-- What is still to be written of a frame. -/
structure Transfer where
  header : Bytes
  body : Bytes
  deriving DecidableEq, Repr, Inhabited

namespace Transfer

/-- All of the frame of a body. -/
def ofBody (body : Bytes) : Transfer := ⟨Bytes.bigEndian headerLength body.length, body⟩

/-- All of a message without a frame. -/
def ofBytes (bs : Bytes) : Transfer := ⟨[], bs⟩

/-- What the stream is offered. -/
def offered (t : Transfer) : Bytes := t.header ++ t.body

/-- Leaves out the first `n` bytes. -/
def advance (t : Transfer) (n : Nat) : Transfer :=
  ⟨t.header.drop n, t.body.drop (n - t.header.length)⟩

/-- Whether everything was taken. -/
def isDone (t : Transfer) : Bool := t.header.isEmpty && t.body.isEmpty

/-- One attempt: the bytes that the stream took, and what is left.  A stream that takes nothing and
is not busy has failed. -/
def attempt (t : Transfer) : Attempt → Except Fault (Bytes × Transfer)
  | .wrote 0 => .error .writeZero
  | .wrote n => .ok (t.offered.take n, t.advance n)
  | .busy => .ok ([], t)
  | .failed f => .error f

/-- How far writing has come. -/
inductive Progress where
  /-- everything was taken -/
  | done
  | failed (f : Fault)
  /-- there is something left to be written -/
  | left (t : Transfer)
  deriving DecidableEq, Repr

/-- Writes until everything was taken, an attempt failed or there are no more answers.  Gives the
bytes that the stream took. -/
def writeAll (t : Transfer) : List Attempt → Bytes × Progress
  | [] => ([], if t.isDone then .done else .left t)
  | a :: as =>
    if t.isDone then ([], .done)
    else
      match t.attempt a with
      | .error f => ([], .failed f)
      | .ok (taken, t) =>
        let (more, progress) := t.writeAll as
        (taken ++ more, progress)

theorem offered_ofBody (body : Bytes) : (ofBody body).offered = encode body := rfl

theorem offered_advance (t : Transfer) (n : Nat) : (t.advance n).offered = t.offered.drop n := by
  simp [offered, advance, List.drop_append]

theorem isDone_iff (t : Transfer) : t.isDone = true ↔ t.offered = [] := by
  simp [isDone, offered, List.isEmpty_iff]

end Transfer

end Tandem.Frame
