import Tandem.Connection.Basic

/-!
# Two connected connections

A link is a client and a server that are connected with each other, with the bytes and datagrams on
their way between them.  The stream keeps the order of the bytes and loses none, but may cut what is
written and what is read anywhere.  Datagrams may get lost.  What happens when is up to the events
of a run.
-/

namespace Tandem

/-- The two ends of a stream. -/
inductive Side where
  | client
  | server
  deriving DecidableEq, Repr, Inhabited

def Side.other : Side → Side
  | client => server
  | server => client

/-- Something at either end. -/
structure Pair (α : Type) where
  client : α
  server : α
  deriving DecidableEq, Repr, Inhabited

namespace Pair

variable {α : Type}

def get (p : Pair α) : Side → α
  | .client => p.client
  | .server => p.server

def set (p : Pair α) (s : Side) (a : α) : Pair α :=
  match s with
  | .client => { p with client := a }
  | .server => { p with server := a }

@[simp] theorem get_set_self (p : Pair α) (s : Side) (a : α) : (p.set s a).get s = a := by
  cases s <;> rfl

@[simp] theorem get_set_other (p : Pair α) (s : Side) (a : α) :
    (p.set s a).get s.other = p.get s.other := by
  cases s <;> rfl

@[simp] theorem get_set_of_other (p : Pair α) (s : Side) (a : α) :
    (p.set s.other a).get s = p.get s := by
  cases s <;> rfl

end Pair

/-- One direction of a stream. -/
structure Wire where
  /-- the bytes on their way, oldest first -/
  bytes : Bytes
  /-- nothing more is written -/
  ended : Bool
  deriving DecidableEq, Repr, Inhabited

def Wire.empty : Wire := ⟨[], false⟩

/-- A client and a server, each with what is on its way from it. -/
structure Link where
  ends : Pair Connection
  wires : Pair Wire
  /-- the datagrams on their way, oldest first -/
  air : Pair (List Bytes)

namespace Link

/-- A client and a server right after the handshake. -/
def create (client server : Connection) : Link where
  ends := ⟨client, server⟩
  wires := ⟨.empty, .empty⟩
  air := ⟨[], []⟩

/-- The connection at an end. -/
def conn (l : Link) (s : Side) : Connection := l.ends.get s

/-- Changes the connection at an end.  When it is disconnected by that, its direction of the stream
ends. -/
def modify (l : Link) (s : Side) (f : Connection → Connection) : Link :=
  let c := f (l.conn s)
  let w := l.wires.get s
  { l with
    ends := l.ends.set s c
    wires := if c.isConnected then l.wires else l.wires.set s { w with ended := true } }

/-- Sends at an end. -/
def send (l : Link) (s : Side) (bs : Bytes) (ch : Channel) (a : DatagramAttempt) : Bool × Link :=
  let (accepted, _) := (l.conn s).sendBytes bs ch a
  let air :=
    if accepted && ch = .unreliable then l.air.set s (l.air.get s ++ [bs]) else l.air
  (accepted, { l with air }.modify s fun c => (c.sendBytes bs ch a).2)

/-- One attempt of an end to write to the stream. -/
def write (l : Link) (s : Side) (a : Frame.Attempt) : Link :=
  let (taken, _) := (l.conn s).write a
  let w := l.wires.get s
  { l with wires := l.wires.set s { w with bytes := w.bytes ++ taken } }.modify s
    fun c => (c.write a).2

/-- An end reads at most `n` bytes of the stream, or its end. -/
def read (l : Link) (s : Side) (n : Nat) : Link :=
  let c := l.conn s
  let w := l.wires.get s.other
  if !c.isReading then l
  else if w.bytes.isEmpty then if w.ended then l.modify s Connection.readEnd else l
  else
    let n := min n c.wanted
    if n = 0 then l
    else
      { l with wires := l.wires.set s.other { w with bytes := w.bytes.drop n } }.modify s
        fun c => c.read (w.bytes.take n)

/-- The oldest datagram on its way to an end arrives.  An end that is not connected any more does
not get to see it. -/
def arrive (l : Link) (s : Side) : Link :=
  match l.air.get s.other with
  | [] => l
  | bs :: rest =>
    let l := { l with air := l.air.set s.other rest }
    if (l.conn s).isConnected then l.modify s fun c => c.datagram bs else l

/-- The oldest datagram on its way to an end gets lost. -/
def lose (l : Link) (s : Side) : Link :=
  { l with air := l.air.set s.other (l.air.get s.other).tail }

/-- What can happen to a link. -/
inductive Event where
  | start (s : Side)
  | send (s : Side) (bs : Bytes) (ch : Channel) (a : DatagramAttempt)
  | write (s : Side) (a : Frame.Attempt)
  | read (s : Side) (n : Nat)
  | settle (s : Side)
  | arrive (s : Side)
  | lose (s : Side)
  | poll (s : Side) (now : Nat)
  | check (s : Side)
  | finish (s : Side)
  | conclude (s : Side)
  | disconnect (s : Side) (cause : Cause)
  deriving DecidableEq, Repr

/-- What becomes of a link by an event. -/
def step (l : Link) : Event → Link
  | .start s => l.modify s Connection.start
  | .send s bs ch a => (l.send s bs ch a).2
  | .write s a => l.write s a
  | .read s n => l.read s n
  | .settle s => l.modify s Connection.settle
  | .arrive s => l.arrive s
  | .lose s => l.lose s
  | .poll s now => l.modify s fun c => (c.poll now).2
  | .check s => l.modify s Connection.check
  | .finish s => l.modify s Connection.finish
  | .conclude s => l.modify s Connection.conclude
  | .disconnect s cause => l.modify s fun c => (c.disconnectWith cause).2

/-- What becomes of a link by events, one after the other. -/
def run (l : Link) (es : List Event) : Link := es.foldl step l

end Link

end Tandem
