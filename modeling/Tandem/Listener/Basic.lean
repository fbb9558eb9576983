import Tandem.Connection.Basic
import Tandem.Listener.Pending
import Tandem.Listener.PeerTable

/-!
# Listeners

A listener accepts streams and receives the datagrams of all its connections on one socket.  It
starts to send a token over each stream that it accepts and lets the stream wait; if the token
cannot be sent, the stream is given up.  A datagram that comes from the endpoint of a connection is
for that connection.  One from anywhere else is looked at as the echo of a token: if a stream waits
under the token, the stream and the endpoint become a connection, which is put into the peer table
before it is greeted.

A step of a listener gives the effects that it has on the network; a run is a list of events.
-/

namespace Tandem

/-- A connection of a listener. -/
structure Member where
  connection : Connection
  stream : StreamId
  /-- where the stream comes from -/
  address : Address
  /-- where datagrams go to and come from -/
  endpoint : Address

/-- A listener with the connections that it has made, oldest first. -/
structure Listener where
  config : ListenerConfig
  pending : Pending
  peers : PeerTable
  members : List Member

namespace Listener

/-- What a listener does to the network. -/
inductive Effect where
  /-- starts to send bytes over a stream; if that fails, the listener is told so by an event -/
  | startSending (stream : StreamId) (bs : Bytes)
  | datagram (target : Address) (bs : Bytes)
  /-- closes a stream in both directions -/
  | close (stream : StreamId)
  deriving DecidableEq, Repr

def create (c : ListenerConfig) : Listener := ⟨c, .empty, .empty, []⟩

/-- The number of connections in the peer table. -/
def connectionCount (l : Listener) : Nat := l.peers.size

/-- The connections in the peer table. -/
def connections (l : Listener) : List MemberId := l.peers.values

/-- Changes a connection.  One that is disconnected by that leaves the peer table, and its stream is
closed. -/
def modify (l : Listener) (id : MemberId) (f : Connection → Connection) : List Effect × Listener :=
  match l.members[id]? with
  | none => ([], l)
  | some x =>
    let c := f x.connection
    let l := { l with members := l.members.set id { x with connection := c } }
    if x.connection.isConnected && !c.isConnected then
      -- the endpoint may belong to another connection by now, whose entry stays
      ([.close x.stream], { l with peers := (l.peers.remove x.endpoint id).2 })
    else ([], l)

/-- Disconnects a connection. -/
def disconnect (l : Listener) (id : MemberId) (cause : Cause) : List Effect × Listener :=
  l.modify id fun c => (c.disconnectWith cause).2

/-- Disconnects connections, one after the other. -/
def disconnectAll (l : Listener) : List MemberId → List Effect × Listener
  | [] => ([], l)
  | id :: ids =>
    let (effects, l) := l.disconnect id (.plain .success)
    let (more, l) := l.disconnectAll ids
    (effects ++ more, l)

/-- A stream is accepted: it is given a token, which is sent from now on, and waits. -/
def accept (l : Listener) (e : Pending.Entry) (draws : List Token) : List Effect × Listener :=
  match l.pending.register draws e with
  | none => ([], l)
  | some (t, pending) => ([.startSending e.stream (Handshake.encodeToken t)], { l with pending })

/-- Closes the stream that was taken out of the table of pending handshakes. -/
def giveUp (l : Listener) (r : Option StreamId × Pending) : List Effect × Listener :=
  (r.1.toList.map .close, { l with pending := r.2 })

/-- Makes a connection of a stream and an endpoint and puts it into the peer table, where it
replaces what was there. -/
def enroll (l : Listener) (t : Token) (e : Pending.Entry) (endpoint : Address) :
    List Effect × Listener :=
  let id := l.members.length
  let c := Connection.create l.config.toEndpointConfig (some l.config.maxBodyLength) t
  -- from here on, datagrams of the endpoint are messages for the new connection
  let (replaced, peers) := PeerTable.insert l.peers endpoint id
  let l := { l with peers, members := l.members ++ [⟨c, e.stream, e.address, endpoint⟩] }
  match replaced with
  | none => ([], l)
  | some old => l.disconnect old (.plain .success)

/-- A datagram from an endpoint without a connection.  `failure` says whether sending the greeting
fails, and how; the connection does not outlive that. -/
def echo (l : Listener) (source : Address) (bs : Bytes) (failure : Option Fault) :
    List Effect × Listener :=
  match Handshake.tokenOfDatagram? bs with
  | none => ([], l)
  | some t =>
    match l.pending.complete t with
    | (none, _) => ([], l)
    | (some e, pending) =>
      let id := l.members.length
      let (effects, l) := { l with pending }.enroll t e source
      match failure with
      | none => (effects ++ [.datagram source (Handshake.encodeHello t)], l)
      | some f =>
        let (more, l) := l.disconnect id (.ofFault f)
        (effects ++ more, l)

/-- A datagram arrives. -/
def datagram (l : Listener) (source : Address) (bs : Bytes) (failure : Option Fault) :
    List Effect × Listener :=
  match l.peers.get? source with
  | some id => l.modify id fun c => c.datagram bs
  | none => l.echo source bs failure

/-- Closes all streams that wait and disconnects all connections. -/
def shutdown (l : Listener) : List Effect × Listener :=
  let (streams, pending) := l.pending.clear
  let (effects, l) := { l with pending }.disconnectAll l.connections
  (streams.map .close ++ effects, l)

/-- What can happen to a listener. -/
inductive Event where
  /-- a stream is accepted; tokens are drawn for it -/
  | accepted (e : Pending.Entry) (draws : List Token)
  /-- sending a token failed -/
  | tokenFailed (t : Token)
  /-- a stream has waited too long -/
  | expired (t : Token)
  /-- a datagram arrives; sending a greeting would fail as said -/
  | datagram (source : Address) (bs : Bytes) (failure : Option Fault)
  /-- something happens to a connection -/
  | connection (id : MemberId) (e : Connection.Event)
  | shutdown
  deriving DecidableEq, Repr

/-- The effects of an event and what becomes of the listener. -/
def step (l : Listener) : Event → List Effect × Listener
  | .accepted e draws => l.accept e draws
  | .tokenFailed t => l.giveUp (l.pending.abandon t)
  | .expired t => l.giveUp (l.pending.expire t)
  | .datagram source bs failure => l.datagram source bs failure
  | .connection id e => l.modify id fun c => c.step e
  | .shutdown => l.shutdown

/-- The effects of events, one after the other, and what becomes of the listener. -/
def run (l : Listener) : List Event → List Effect × Listener
  | [] => ([], l)
  | e :: es =>
    let (effects, l) := l.step e
    let (more, l) := l.run es
    (effects ++ more, l)

end Listener

end Tandem
