import Tandem.Connection.Dispatcher
import Tandem.Connection.State
import Tandem.Frame.Assembly
import Tandem.Frame.Transfer
import Tandem.Handshake
import Tandem.Message.Basic
import Tandem.RoundTrip.Basic

/-!
# Connections

A connection is one end of a stream, for reliable messages, and of an exchange of datagrams, for
unreliable ones.  Its work is done in small steps: a frame is written piece by piece, the stream is
read piece by piece, received messages wait in the inbox, and the handler is called with one at a
time.  What the sockets answer comes in as an argument of the step, so that a run of a connection is
a list of events (`Connection.run`).

Whatever ends a connection goes through `Connection.disconnectWith`, which takes effect once.
-/

namespace Tandem

/-- The bytes that a connection has sent and received, those of frame headers included. -/
structure Traffic where
  streamSent : Nat
  streamReceived : Nat
  datagramsSent : Nat
  datagramsReceived : Nat
  deriving DecidableEq, Repr, Inhabited

/-- What a socket answers to an attempt to send a datagram. -/
inductive DatagramAttempt where
  | sent
  /-- it takes nothing at the moment -/
  | busy
  | failed (f : Fault)
  deriving DecidableEq, Repr

/-- A frame on its way into the stream. -/
structure OutgoingFrame where
  bodyLength : Nat
  /-- what the stream has not taken yet -/
  left : Frame.Transfer
  deriving DecidableEq, Repr, Inhabited

/-- One end of a stream and of an exchange of datagrams. -/
structure Connection where
  state : ConnectionState
  token : Token
  noDelay : Bool
  /-- received bodies must be shorter than this -/
  maxBody : Option Nat
  /-- whether the sockets are being served -/
  running : Bool
  /-- the bodies to be written, oldest first -/
  outbound : List Bytes
  frame : Option OutgoingFrame
  assembly : Frame.Assembly
  dispatcher : Dispatcher
  trips : RoundTrip
  traffic : Traffic

namespace Connection

/-- The longest datagram that can be sent, and how much is taken of one that comes in. -/
def maxDatagram : Nat := 65507

/-- A new connection, not started yet. -/
def create (c : EndpointConfig) (maxBody : Option Nat) (token : Token) : Connection where
  state := .connected
  token
  noDelay := c.noDelay
  maxBody
  running := false
  outbound := []
  frame := none
  assembly := .start
  dispatcher := .create c.dispatchQueueLength
  trips := .create c.sampleCount c.pingBacklog
  traffic := ⟨0, 0, 0, 0⟩

def isConnected (c : Connection) : Bool := c.state = .connected

/-! ### Beginning and end -/

/-- Begins to call the handler and, if the connection is still connected, to serve the sockets.  A
second start has no effect. -/
def start (c : Connection) : Connection :=
  if c.dispatcher.phase = .unstarted then
    { c with dispatcher := c.dispatcher.start, running := c.isConnected }
  else c

/-- Ends a connection and says whether it did: only the first call does.  What has not been written
stays unwritten; received messages that have their place in the inbox stay there. -/
def disconnectWith (c : Connection) (cause : Cause) : Bool × Connection :=
  let (won, _) := c.state.beginDisconnect
  if won then
    (true,
      { c with
        state := .disconnected
        running := false
        outbound := []
        frame := none
        dispatcher :=
          { c.dispatcher with inbox := c.dispatcher.inbox.forget }.announce cause })
  else (false, c)

/-- Ends a connection from this side. -/
def disconnect (c : Connection) : Bool × Connection := c.disconnectWith (.plain .success)

/-! ### Sending -/

/-- Queues a body for the stream, unless it is too long for a frame. -/
def sendReliable (c : Connection) (bs : Bytes) : Bool × Connection :=
  if Kind.maxCount < bs.length then (false, c)
  else (true, { c with outbound := c.outbound ++ [bs] })

/-- Sends a datagram.  One that is too long or that the socket has no time for is dropped; a socket
that fails ends the connection. -/
def sendUnreliable (c : Connection) (bs : Bytes) (a : DatagramAttempt) : Bool × Connection :=
  if maxDatagram < bs.length then (false, c)
  else
    match a with
    | .sent =>
      (true, { c with
        traffic := { c.traffic with datagramsSent := c.traffic.datagramsSent + bs.length } })
    | .busy => (false, c)
    | .failed f => (false, (c.disconnectWith (.ofFault f)).2)

/-- Sends the bytes of a message, if the connection is connected. -/
def sendBytes (c : Connection) (bs : Bytes) (ch : Channel) (a : DatagramAttempt) :
    Bool × Connection :=
  if c.isConnected then
    match ch with
    | .reliable => c.sendReliable bs
    | .unreliable => c.sendUnreliable bs a
  else (false, c)

/-- Sends a message.  A ping is remembered, with the time, before it is sent. -/
def send (c : Connection) (x : Message) (m : Memory) (ch : Channel) (a : DatagramAttempt)
    (now : Nat) : Bool × Connection :=
  let c := if x.isPing then { c with trips := c.trips.sent x.code now } else c
  c.sendBytes (x.wire m) ch a

/-- The frame being written; if there is none, that of the oldest body. -/
def nextFrame (c : Connection) : Option OutgoingFrame × List Bytes :=
  match c.frame, c.outbound with
  | some f, rest => (some f, rest)
  | none, [] => (none, [])
  | none, b :: rest => (some ⟨b.length, .ofBody b⟩, rest)

/-- One attempt to write to the stream.  Gives the bytes that the stream took.  A frame counts when
it was taken completely. -/
def write (c : Connection) (a : Frame.Attempt) : Bytes × Connection :=
  if c.running then
    match c.nextFrame with
    | (none, _) => ([], c)
    | (some f, outbound) =>
      match f.left.attempt a with
      | .error fault => ([], (c.disconnectWith (.ofFault fault)).2)
      | .ok (taken, left) =>
        -- a frame counts as a whole, with its last byte
        if left.isDone then
          let sent := c.traffic.streamSent + (Frame.headerLength + f.bodyLength)
          (taken, { c with
            outbound, frame := none, traffic := { c.traffic with streamSent := sent } })
        else (taken, { c with outbound, frame := some { f with left } })
  else ([], c)

/-! ### Receiving -/

/-- Whether the stream is being read; it is not while a body waits for its place. -/
def isReading (c : Connection) : Bool := c.running && c.dispatcher.inbox.held = .nothing

/-- How long the next piece of the stream may be. -/
def wanted (c : Connection) : Nat := c.assembly.wanted

/-- Takes a piece of the stream. -/
def read (c : Connection) (piece : Bytes) : Connection :=
  if c.isReading then
    let received := c.traffic.streamReceived + piece.length
    let (result, assembly) := c.assembly.take c.maxBody piece
    let c := { c with assembly, traffic := { c.traffic with streamReceived := received } }
    match result with
    | .ok none => c
    | .ok (some body) =>
      { c with dispatcher := { c.dispatcher with inbox := c.dispatcher.inbox.hold body } }
    | .error _ => (c.disconnectWith (.plain .protocolViolation)).2
  else c

/-- The peer closed the stream. -/
def readEnd (c : Connection) : Connection :=
  if c.isReading then (c.disconnectWith (.plain .disconnecting)).2 else c

/-- Reading the stream failed. -/
def readFailed (c : Connection) (f : Fault) : Connection :=
  if c.isReading then (c.disconnectWith (.ofFault f)).2 else c

/-- Puts the body that a place is kept for into the inbox. -/
def settle (c : Connection) : Connection :=
  { c with dispatcher := { c.dispatcher with inbox := c.dispatcher.inbox.settle } }

/-- What is taken of a datagram; the rest of a longer one is cut off. -/
def fitting (bs : Bytes) : Bytes := bs.take maxDatagram

/-- A datagram arrives. -/
def datagram (c : Connection) (bs : Bytes) : Connection :=
  let received := c.traffic.datagramsReceived + (fitting bs).length
  { c with
    traffic := { c.traffic with datagramsReceived := received }
    dispatcher := { c.dispatcher with inbox := (c.dispatcher.inbox.offer (fitting bs)).2 } }

/-- Receiving datagrams failed. -/
def datagramFailed (c : Connection) (f : Fault) : Connection :=
  if c.running && !f.isBounce then (c.disconnectWith (.ofFault f)).2 else c

/-! ### Calling the handler -/

/-- Takes note of an acknowledgement among the received messages. -/
def noteAcknowledgement (c : Connection) (bs : Bytes) (now : Nat) : Connection :=
  match Header.decode bs with
  | .ok h =>
    if h.isAcknowledgement then { c with trips := (c.trips.acknowledged h.code now).2 } else c
  | .error _ => c

/-- Looks for a message and calls the handler with it; gives the message. -/
def poll (c : Connection) (now : Nat) : Option Delivery × Connection :=
  match c.dispatcher.poll with
  | (none, dispatcher) => (none, { c with dispatcher })
  | (some d, dispatcher) => (some d, { c with dispatcher }.noteAcknowledgement d.body now)

/-- Looks for the end, after there was no message. -/
def check (c : Connection) : Connection := { c with dispatcher := c.dispatcher.check }

/-- The handler returns. -/
def finish (c : Connection) : Connection := { c with dispatcher := c.dispatcher.finish }

/-- Reports the end to the handler. -/
def conclude (c : Connection) : Connection := { c with dispatcher := c.dispatcher.conclude }

/-! ### Runs -/

/-- What can happen to a connection. -/
inductive Event where
  | start
  | send (bs : Bytes) (ch : Channel) (a : DatagramAttempt)
  | write (a : Frame.Attempt)
  | read (piece : Bytes)
  | readEnd
  | readFailed (f : Fault)
  | settle
  | datagram (bs : Bytes)
  | datagramFailed (f : Fault)
  | poll (now : Nat)
  | check
  | finish
  | conclude
  | disconnect (cause : Cause)
  deriving DecidableEq, Repr

/-- What becomes of a connection by an event. -/
def step (c : Connection) : Event → Connection
  | .start => c.start
  | .send bs ch a => (c.sendBytes bs ch a).2
  | .write a => (c.write a).2
  | .read piece => c.read piece
  | .readEnd => c.readEnd
  | .readFailed f => c.readFailed f
  | .settle => c.settle
  | .datagram bs => c.datagram bs
  | .datagramFailed f => c.datagramFailed f
  | .poll now => (c.poll now).2
  | .check => c.check
  | .finish => c.finish
  | .conclude => c.conclude
  | .disconnect cause => (c.disconnectWith cause).2

/-- What becomes of a connection by events, one after the other. -/
def run (c : Connection) (es : List Event) : Connection := es.foldl step c

end Connection

end Tandem
