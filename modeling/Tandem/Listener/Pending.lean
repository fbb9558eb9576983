import Tandem.Config
import Tandem.Handshake
import Tandem.Table

/-!
# Pending handshakes

A stream that was accepted waits under a token until its client has sent the token back.  Every
token is used by one stream at a time, and every stream leaves the table once: its handshake is
completed, given up or timed out, or the table is cleared.
-/

namespace Tandem

/-- Names a stream; no two streams have the same name. -/
abbrev StreamId := Nat

namespace Pending

/-- A stream that waits. -/
structure Entry where
  stream : StreamId
  /-- where the stream comes from -/
  address : Address
  /-- when it is given up -/
  deadline : Nat
  deriving DecidableEq, Repr, Inhabited

end Pending

/-- The streams that wait, by token, and how many of them timed out so far. -/
structure Pending where
  entries : Table Token Pending.Entry
  timeouts : Nat

namespace Pending

def empty : Pending := ⟨.empty, 0⟩

instance : Inhabited Pending := ⟨empty⟩

def size (p : Pending) : Nat := p.entries.size

def isEmpty (p : Pending) : Bool := p.size = 0

/-- The first of the drawn tokens that no stream waits under. -/
def fresh? (p : Pending) (draws : List Token) : Option Token :=
  draws.find? fun t => !p.entries.contains t

/-- Lets a stream wait under the first drawn token that is not in use. -/
def register (p : Pending) (draws : List Token) (e : Entry) : Option (Token × Pending) :=
  (p.fresh? draws).map fun t => (t, { p with entries := p.entries.set t e })

/-- Takes out the stream that waits under a token. -/
def complete (p : Pending) (t : Token) : Option Entry × Pending :=
  match p.entries.get? t with
  | none => (none, p)
  | some e => (some e, { p with entries := p.entries.erase t })

/-- Gives up a stream; gives it in order to be closed. -/
def abandon (p : Pending) (t : Token) : Option StreamId × Pending :=
  let (e, p) := p.complete t
  (e.map Entry.stream, p)

/-- Gives up a stream that has waited too long; gives it in order to be closed. -/
def expire (p : Pending) (t : Token) : Option StreamId × Pending :=
  match p.complete t with
  | (none, p) => (none, p)
  | (some e, p) => (some e.stream, { p with timeouts := p.timeouts + 1 })

/-- Gives up all streams; gives them in order to be closed. -/
def clear (p : Pending) : List StreamId × Pending :=
  (p.entries.values.map Entry.stream, { p with entries := .empty })

/-- The tokens whose streams have waited too long. -/
def overdue (p : Pending) (now : Nat) : List Token :=
  (p.entries.entries.filter fun e => e.2.deadline ≤ now).map Prod.fst

end Pending

end Tandem
