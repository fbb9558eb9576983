import Tandem.Connection.Basic

/-!
# Connecting to a listener

A client waits for nine bytes of the stream, the token message, sends them back in a datagram and
waits for the greeting, the first datagram that comes.  The handshake depends on the network only
through what comes in time: the pieces of the stream, how the stream goes on after them, and the
datagrams (`Client.Network`).
-/

namespace Tandem.Client

/-- How a stream goes on after what came in time. -/
inductive StreamEnd where
  /-- nothing more comes -/
  | silent
  /-- the peer closed it -/
  | closed
  | failed (f : Fault)
  deriving DecidableEq, Repr, Inhabited

/-- What comes to the datagram socket. -/
inductive Arrival where
  | datagram (bs : Bytes)
  | failed (f : Fault)
  deriving DecidableEq, Repr

/-- What a client gets to see of the network. -/
structure Network where
  /-- why the server cannot be reached -/
  unreachable : Option Fault
  /-- why there is no datagram socket -/
  socketFault : Option Fault
  /-- the pieces of the stream that come in time -/
  pieces : List Bytes
  ending : StreamEnd
  /-- why the echo cannot be sent -/
  echoFault : Option Fault
  /-- what comes in time after the echo -/
  arrivals : List Arrival
  deriving DecidableEq, Repr, Inhabited

/-- What comes of connecting. -/
structure Outcome where
  result : Except ConnectError Connection
  /-- the datagram that was sent -/
  echo : Option Bytes
  /-- the pieces of the stream that were not used -/
  rest : List Bytes
  /-- the stream was closed -/
  closed : Bool

/-- The first `n` bytes of a stream that comes in pieces, and the pieces that are left. -/
def gather : Nat → List Bytes → Option (Bytes × List Bytes)
  | 0, pieces => some ([], pieces)
  | _ + 1, [] => none
  | n + 1, piece :: pieces =>
    if piece.length ≤ n + 1 then
      (gather (n + 1 - piece.length) pieces).map fun (bs, rest) => (piece ++ bs, rest)
    else some (piece.take (n + 1), piece.drop (n + 1) :: pieces)

/-- Waits for the bytes of a token message. -/
def awaitToken (pieces : List Bytes) (ending : StreamEnd) :
    Except ConnectError (Bytes × List Bytes) :=
  match gather Handshake.tokenLength pieces with
  | some r => .ok r
  | none =>
    match ending with
    | .silent => .error (.refused "timeout waiting for auth token from server" .timedOut)
    | .closed => .error (.failed "receiving the auth token failed" .unexpectedEnd)
    | .failed f => .error (.failed "receiving the auth token failed" f)

/-- How much of a datagram is looked at. -/
def helloRoom : Nat := 64

/-- Waits for the greeting with a token. -/
def awaitHello (t : Token) : List Arrival → Except ConnectError Unit
  | [] => .error (.refused "timeout waiting for UDP acknowledgement" .timedOut)
  | .failed f :: arrivals =>
    if f.isBounce then awaitHello t arrivals
    else .error (.failed "receiving the UDP acknowledgement failed" f)
  -- a first datagram that is no greeting is not passed over
  | .datagram bs :: _ =>
    match (Handshake.takeHello (bs.take helloRoom)).1 with
    | .error e =>
      .error (.refused ("malformed UDP acknowledgement: " ++ e.message) .protocolViolation)
    | .ok u =>
      if u = t then .ok ()
      else .error (.refused "auth token mismatch in UDP acknowledgement" .protocolViolation)

/-- The handshake: the token, the datagram sent and the pieces of the stream not used. -/
def handshake (n : Network) : Except ConnectError Token × Option Bytes × List Bytes :=
  match awaitToken n.pieces n.ending with
  | .error e => (.error e, none, [])
  | .ok (bs, rest) =>
    match (Handshake.takeToken bs).1 with
    | .error e =>
      (.error (.refused ("malformed auth token: " ++ e.message) .protocolViolation), none, rest)
    | .ok t =>
      match n.echoFault with
      | some f => (.error (.failed "echoing the auth token over UDP failed" f), none, rest)
      | none => ((awaitHello t n.arrivals).map fun _ => t, some bs, rest)

/-- Connects, if the configuration is accepted and the server can be reached.  The connection is
started at once.  After a failed handshake the stream is closed. -/
def connect (c : ClientConfig) (n : Network) : Outcome :=
  match c.check with
  | .error e =>
    let reason := "invalid client configuration: " ++ e.message
    ⟨.error (.refused reason .other), none, n.pieces, false⟩
  | .ok () =>
    match n.unreachable, n.socketFault with
    | some f, _ => ⟨.error (.transport f), none, n.pieces, false⟩
    | none, some f => ⟨.error (.failed "binding the UDP socket failed" f), none, n.pieces, true⟩
    | none, none =>
      match handshake n with
      | (.error e, echo, rest) => ⟨.error e, echo, rest, true⟩
      | (.ok t, echo, rest) =>
        ⟨.ok (Connection.create c.toEndpointConfig none t).start, echo, rest, false⟩

end Tandem.Client
