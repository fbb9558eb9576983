import Tandem.Config
import Tandem.Bytes

/-!
# Inboxes

Received messages wait in an inbox for the application.  An inbox has a limited number of places.  A
datagram that finds none is lost, whereas a body of the stream waits: as soon as a message is taken
out, the place is kept for it (`Held.admitted`), so that no datagram can get ahead of it there.
-/

namespace Tandem

/-- A received message and how it came. -/
structure Delivery where
  channel : Channel
  body : Bytes
  deriving DecidableEq, Repr, Inhabited

/-- A body of the stream on its way into an inbox. -/
inductive Held where
  | nothing
  /-- there is no place for it yet -/
  | waiting (body : Bytes)
  /-- a place is kept for it -/
  | admitted (body : Bytes)
  deriving DecidableEq, Repr, Inhabited

/-- Received messages, oldest first. -/
structure Inbox where
  capacity : Nat
  items : List Delivery
  held : Held
  /-- nothing more is put in -/
  closed : Bool
  deriving DecidableEq, Repr, Inhabited

namespace Inbox

def empty (capacity : Nat) : Inbox := ⟨capacity, [], .nothing, false⟩

/-- The number of places in use or kept. -/
def used (i : Inbox) : Nat :=
  match i.held with
  | .admitted _ => i.items.length + 1
  | _ => i.items.length

def isFull (i : Inbox) : Bool := i.capacity ≤ i.used

/-- Puts in a datagram, unless it is empty or there is no place for it; says whether it did. -/
def offer (i : Inbox) (datagram : Bytes) : Bool × Inbox :=
  if datagram.isEmpty || i.closed || i.isFull then (false, i)
  else (true, { i with items := i.items ++ [⟨.unreliable, datagram⟩] })

/-- Brings a body of the stream; it gets a place at once if there is one. -/
def hold (i : Inbox) (body : Bytes) : Inbox :=
  { i with
    held := if i.closed then .nothing else if i.isFull then .waiting body else .admitted body }

/-- Puts in the body that a place is kept for. -/
def settle (i : Inbox) : Inbox :=
  match i.held with
  | .admitted body => { i with items := i.items ++ [⟨.reliable, body⟩], held := .nothing }
  | _ => i

/-- Takes out the oldest message; its place goes to the body that waits. -/
def take? (i : Inbox) : Option (Delivery × Inbox) :=
  match i.items with
  | [] => none
  | d :: items =>
    let held := match i.held with
      | .waiting body => .admitted body
      | held => held
    some (d, { i with items, held })

/-- Gives up the body that is on its way. -/
def forget (i : Inbox) : Inbox := { i with held := .nothing }

/-- Throws everything away and lets nothing more in. -/
def close (i : Inbox) : Inbox := { i with items := [], held := .nothing, closed := true }

end Inbox

end Tandem
