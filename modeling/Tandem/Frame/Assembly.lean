import Tandem.Frame.Basic

/-!
# Putting frames together

An assembly takes a stream in pieces and gives out each body with its last byte.  It keeps what has
come of the current header or body and says how long the next piece may be.  `Frame.Receiver` does
the same in shared memory.
-/

namespace Tandem.Frame

/-- What has come of the current frame. -/
inductive Assembly where
  /-- a part of the header -/
  | header (got : Bytes)
  /-- the header, which declares the length, and a part of the body -/
  | body (length : Nat) (got : Bytes)
  deriving DecidableEq, Repr

namespace Assembly

/-- Nothing has come of the current frame. -/
def start : Assembly := header []

instance : Inhabited Assembly := ⟨start⟩

/-- How long the next piece may be. -/
def wanted : Assembly → Nat
  | header got => headerLength - got.length
  | body length got => length - got.length

/-- Takes a piece that is not longer than wanted.  Gives the body that it completes, or the reason
why the length that it completes is refused. -/
def take (max : Option Nat) (a : Assembly) (piece : Bytes) :
    Except FramingError (Option Bytes) × Assembly :=
  match a with
  | header got =>
    let got := got ++ piece
    if got.length < headerLength then (.ok none, header got)
    else
      match accept max (declared got) with
      | .error e => (.error e, header got)
      | .ok 0 => (.ok (some []), start)
      | .ok length => (.ok none, body length [])
  | body length got =>
    let got := got ++ piece
    if got.length < length then (.ok none, body length got) else (.ok (some got), start)

end Assembly

end Tandem.Frame
