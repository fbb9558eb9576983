import Tandem.Frame.Basic
import Tandem.View

/-!
# Receiving frames

A receiver takes a stream in pieces of any size.  It offers memory for the next piece, first for the
header of a frame and then for its body, and is told how much of it was filled.  A body is handed
out as soon as it is complete.  The memory for a body is taken only after its length was accepted.
-/

namespace Tandem.Frame

/-- What a receiver is waiting for. -/
inductive Phase where
  /-- a header, of which the first `filled` bytes have come -/
  | header (bytes : Bytes) (filled : Nat)
  /-- a body, of which the first `filled` bytes have come -/
  | body (view : View) (filled : Nat)
  deriving DecidableEq, Repr

/-- The state of a stream of frames. -/
structure Receiver where
  phase : Phase
  /-- the length that bodies must stay below -/
  max : Option Nat
  deriving DecidableEq, Repr

namespace Receiver

/-- Nothing of a header has come yet. -/
def awaiting : Phase := .header (.zeros headerLength) 0

def create (max : Option Nat) : Receiver := ⟨awaiting, max⟩

def isAwaitingHeader (r : Receiver) : Bool :=
  match r.phase with
  | .header .. => true
  | .body .. => false

/-- The number of bytes that the next piece may have. -/
def targetLength (r : Receiver) : Nat :=
  match r.phase with
  | .header bs filled => bs.length - filled
  | .body v filled => v.length - filled

/-- Whether more was reported than there was memory for. -/
def isOverrun (r : Receiver) : Bool :=
  match r.phase with
  | .header bs filled => bs.length < filled
  | .body v filled => v.length < filled

/-- Makes the memory for the next piece the receiver's own. -/
def prepare (r : Receiver) (m : Memory) : Receiver × Memory :=
  match r.phase with
  | .header .. => (r, m)
  | .body v filled =>
    let (v, m) := v.own m
    ({ r with phase := .body v filled }, m)

/-- Puts a piece into the memory that is offered for it. -/
def place (r : Receiver) (bs : Bytes) (m : Memory) : Receiver × Memory :=
  match r.phase with
  | .header header filled => ({ r with phase := .header (header.splice filled bs) filled }, m)
  | .body v filled =>
    let (v, m) := v.write filled bs m
    ({ r with phase := .body v filled }, m)

/-- Takes note that `n` more bytes were filled.  Gives the body that they complete, or the reason
why the length that they complete is refused. -/
def report (r : Receiver) (n : Nat) (m : Memory) :
    Except FramingError (Option View) × Receiver × Memory :=
  match r.phase with
  | .header bs filled =>
    let filled := filled + n
    let waiting := { r with phase := .header bs filled }
    if filled < headerLength then (.ok none, waiting, m)
    else
      match accept r.max (declared bs) with
      -- a refused header stays, and so does what was counted of it
      | .error e => (.error e, waiting, m)
      | .ok 0 =>
        let (v, m) := View.create 0 m
        (.ok (some v), { r with phase := awaiting }, m)
      | .ok length =>
        let (v, m) := View.create length m
        let (v, m) := v.setLength length m
        (.ok none, { r with phase := .body v 0 }, m)
  | .body v filled =>
    let filled := filled + n
    if filled < v.length then (.ok none, { r with phase := .body v filled }, m)
    else (.ok (some v), { r with phase := awaiting }, m)

/-- Takes one piece of the stream. -/
def receive (r : Receiver) (bs : Bytes) (m : Memory) :
    Except FramingError (Option View) × Receiver × Memory :=
  let (r, m) := r.place bs m
  r.report bs.length m

/-! ### Feeding a stream -/

/-- What came of feeding a stretch of a stream. -/
structure Fed where
  /-- the number of pieces taken -/
  pieces : Nat
  /-- the bodies completed -/
  bodies : List Bytes
  /-- the error that ended the feeding -/
  error : Option FramingError
  /-- the bytes not taken -/
  rest : Bytes
  deriving DecidableEq, Repr

/-- Feeds pieces of at most `piece` bytes until the data is used up, a length is refused or no more
is asked for; there are at most `rounds` pieces.  Bodies are let go of once they were looked at. -/
def feedRounds (piece : Option Nat) : Nat → Receiver → Bytes → Memory → Fed × Receiver × Memory
  | 0, r, data, m => (⟨0, [], none, data⟩, r, m)
  | rounds + 1, r, data, m =>
    let (r, m) := r.prepare m
    let n := (piece.map (min r.targetLength)).getD r.targetLength
    let bs := data.take n
    if bs.isEmpty then (⟨0, [], none, data⟩, r, m)
    else
      match r.receive bs m with
      | (.error e, r, m) => (⟨1, [], some e, data.drop n⟩, r, m)
      | (.ok none, r, m) =>
        let (fed, r, m) := feedRounds piece rounds r (data.drop n) m
        ({ fed with pieces := fed.pieces + 1 }, r, m)
      | (.ok (some v), r, m) =>
        -- the body is looked at before its array can be used again
        let body := v.bytes m
        let (fed, r, m) := feedRounds piece rounds r (data.drop n) (v.drop m)
        ({ fed with pieces := fed.pieces + 1, bodies := body :: fed.bodies }, r, m)

/-- Feeds data in pieces.  Every piece takes at least a byte of it. -/
def feed (r : Receiver) (data : Bytes) (piece : Option Nat) (m : Memory) :
    Fed × Receiver × Memory :=
  feedRounds piece data.length r data m

end Receiver

end Tandem.Frame
