import Tandem.Scalar

/-!
# Frames

A stream carries bodies in frames: the length of the body as a signed 32-bit number, then the body.
A receiver may limit the lengths that it accepts.  `Frame.split` cuts a whole stream into its
bodies; it stops at the first length that is refused and leaves an incomplete frame uncut.
-/

namespace Tandem

/-- Why a declared length is refused. -/
inductive FramingError where
  | negativeLength (n : Int)
  | bodyTooLong (length max : Nat)
  deriving DecidableEq, Repr

def FramingError.message : FramingError → String
  | negativeLength n => s!"peer declared a negative body length {n}"
  | bodyTooLong n max => s!"peer declared a body length of {n} bytes, the maximum is {max}"

namespace Frame

/-- The number of bytes in front of a body. -/
def headerLength : Nat := 4

/-- A body with its length in front. -/
def encode (body : Bytes) : Bytes := Bytes.bigEndian headerLength body.length ++ body

/-- The length that a header declares. -/
def declared (header : Bytes) : Int := (Scalar.decode .i32 header).toInt

/-- Accepts a declared length that is not negative and below the maximum. -/
def accept (max : Option Nat) (n : Int) : Except FramingError Nat :=
  if n < 0 then .error (.negativeLength n)
  else
    match max with
    | some m => if m ≤ n.toNat then .error (.bodyTooLong n.toNat m) else .ok n.toNat
    | none => .ok n.toNat

/-- What a stream is cut into: the bodies, the error that ended the cutting, and what was left
uncut. -/
structure Cut where
  bodies : List Bytes
  error : Option FramingError
  rest : Bytes
  deriving DecidableEq, Repr

/-- Cuts at most `n` frames off a stream. -/
def splitUpTo (max : Option Nat) : Nat → Bytes → Cut
  | 0, bs => ⟨[], none, bs⟩
  | n + 1, bs =>
    if bs.length < headerLength then ⟨[], none, bs⟩
    else
      match accept max (declared (bs.take headerLength)) with
      | .error e => ⟨[], some e, bs⟩
      | .ok length =>
        if bs.length < headerLength + length then ⟨[], none, bs⟩
        else
          let cut := splitUpTo max n (bs.drop (headerLength + length))
          { cut with bodies := bs.slice headerLength length :: cut.bodies }

/-- Cuts a stream into frames.  Each of them takes at least a byte of the stream. -/
def split (max : Option Nat) (bs : Bytes) : Cut := splitUpTo max bs.length bs

end Frame

end Tandem
