import Tandem.Client
import Tandem.Link
import Tandem.Listener.Basic

/-!
# Scripts

A script lets clients connect to a listener, or to a server that is scripted as well, and lets raw
peers, who know no protocol, write to streams and send datagrams.  Everybody has a name; the
connections of the listener are called `s0`, `s1` and so on.  A `Report` says what came of a step,
what everybody has heard since the step before, and how the connections and the listener are.
-/

namespace Tandem.Session

/-- The network that a script runs in. -/
inductive Environment where
  /-- everybody reaches everybody; nothing gets lost -/
  | loopback
  /-- connecting always fails -/
  | isolated
  deriving DecidableEq, Repr

/-- A stretch of what is sent.  A token goes by the name of who was given it. -/
inductive Part where
  | bytes (bs : Bytes)
  | token (name : String)
  /-- the number after a token -/
  | nextToken (name : String)
  deriving DecidableEq, Repr

/-- What a scripted server does while a client connects. -/
structure Server where
  /-- what it writes to the stream, piece by piece -/
  pieces : List Bytes
  /-- it closes the stream after that -/
  closes : Bool
  /-- the datagrams with which it answers the echo -/
  hellos : List Bytes
  deriving DecidableEq, Repr

/-- An address to compare with. -/
inductive Landmark where
  | listenerStream
  | listenerDatagrams
  /-- where the datagrams of a raw peer come from -/
  | rawDatagrams (name : String)
  /-- where the stream of a connection comes from -/
  | connection (name : String)
  deriving DecidableEq, Repr

/-- The steps of a script. -/
inductive Step where
  | client (name : String) (c : EndpointConfig)
  | clientRefused (name : String) (c : EndpointConfig)
  | clientOf (name : String) (c : EndpointConfig) (server : Server)
  | raw (name : String)
  /-- takes a new datagram socket -/
  | rawSocket (name : String)
  | rawDatagram (name : String) (ps : List Part)
  | rawWrite (name : String) (ps : List Part)
  | rawClose (name : String)
  | send (name : String) (ps : List Part) (ch : Channel)
  /-- sends the message that the bytes stand for -/
  | sendMessage (name : String) (bs : Bytes) (ch : Channel)
  | burst (name : String) (bodies : List Bytes) (ch : Channel)
  | disconnect (name : String)
  | shutdown
  /-- from now on the handler acknowledges pings -/
  | acknowledge (name : String)
  /-- from now on the handler does not return -/
  | hold (name : String)
  | release (name : String)
  | wait (nanoseconds : Nat)
  | endpoint (name protocol : String) (other : Landmark)
  | tableInsert (port : Nat) (name : String)
  | tableRemove (port : Nat) (name : String)
  | tableGet (port : Nat)
  | pendingRegister (name : String) (timeout : Nat)
  | pendingComplete (name : String)
  | pendingAbandon (name : String)
  | pendingClear
  | pendingShow
  | samePort
  | sameToken (name other : String)
  deriving DecidableEq, Repr

/-- How a table of pending handshakes is. -/
structure PendingCounts where
  size : Nat
  isEmpty : Bool
  timeouts : Nat
  deriving DecidableEq, Repr

def PendingCounts.of (p : Pending) : PendingCounts := ⟨p.size, p.isEmpty, p.timeouts⟩

/-- What comes of a step. -/
inductive Result where
  | done
  | flag (b : Bool)
  | flags (bs : List Bool)
  | connected
  | failed (e : ConnectError)
  /-- connected to a scripted server, or not; the echo that it waited for, and the token -/
  | answered (e : Option ConnectError) (echo : Option Bytes) (token : Option Token)
  | tokenMessage (bs : Bytes)
  /-- whether an endpoint is the expected one, and whether each of the two is -/
  | endpoint (equal : Option Bool) (stream datagrams : Bool)
  | table (size : Nat)
  | removed (b : Bool) (size : Nat)
  | found (name : Option String)
  | counts (c : PendingCounts)
  | completed (sameAddress : Option Bool) (c : PendingCounts)
  | abandoned (b : Bool) (c : PendingCounts)
  deriving DecidableEq, Repr

/-- Why a script cannot go on. -/
inductive Failure where
  /-- nobody has this name -/
  | unknownConnection (name : String)
  | unknownPeer (name : String)
  | unknownHandshake (name : String)
  /-- a raw peer cannot connect -/
  | unreachable
  | noListener
  | badConfig (e : ConfigError)
  deriving DecidableEq, Repr

/-- What somebody has heard. -/
inductive Event where
  | call (c : Call)
  /-- bytes of the stream -/
  | stream (bs : Bytes)
  | datagram (bs : Bytes)
  /-- the end of the stream -/
  | closed
  deriving DecidableEq, Repr

/-- How a connection is. -/
structure ConnectionReport where
  state : ConnectionState
  noDelay : Bool
  traffic : Traffic
  hasLatest : Bool
  hasSmoothed : Bool
  deriving DecidableEq, Repr

/-- How a listener is. -/
structure ListenerReport where
  connections : Nat
  listed : Nat
  pending : Nat
  timeouts : Nat
  deriving DecidableEq, Repr

def ListenerReport.of (l : Listener) : ListenerReport :=
  ⟨l.connectionCount, l.connections.length, l.pending.size, l.pending.timeouts⟩

/-- What is said about a step. -/
structure Report where
  result : Result
  events : List (String × List Event)
  connections : List (String × ConnectionReport)
  listener : Option ListenerReport
  deriving DecidableEq, Repr

end Tandem.Session
