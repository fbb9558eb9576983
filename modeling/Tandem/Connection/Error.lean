/-!
# Causes of failure

`Fault` is what a socket reports, `SocketError` what an application is told about the end of a
connection, and `ConnectError` why a connection did not come about.
-/

namespace Tandem

/-- What a socket reports. -/
inductive Fault where
  | connectionReset
  | connectionAborted
  | connectionRefused
  | timedOut
  | notConnected
  | brokenPipe
  | unexpectedEnd
  /-- nothing could be written -/
  | writeZero
  /-- any other failure -/
  | other
  deriving DecidableEq, Repr, Inhabited

/-- Whether a fault only says that an earlier datagram found nobody. -/
def Fault.isBounce : Fault → Bool
  | .connectionReset | .connectionRefused => true
  | _ => false

/-- The cause of the end of a connection. -/
inductive SocketError where
  /-- the connection was closed on this side -/
  | success
  /-- the peer closed the stream -/
  | disconnecting
  | connectionReset
  | connectionAborted
  | connectionRefused
  | timedOut
  | notConnected
  /-- the socket was shut down -/
  | shutdown
  /-- the peer broke a rule of the protocol -/
  | protocolViolation
  | other
  deriving DecidableEq, Repr, Inhabited

namespace SocketError

/-- All causes. -/
def all : List SocketError :=
  [success, disconnecting, connectionReset, connectionAborted, connectionRefused, timedOut,
    notConnected, shutdown, protocolViolation, other]

/-- The name of a cause. -/
def name : SocketError → String
  | success => "Success"
  | disconnecting => "Disconnecting"
  | connectionReset => "ConnectionReset"
  | connectionAborted => "ConnectionAborted"
  | connectionRefused => "ConnectionRefused"
  | timedOut => "TimedOut"
  | notConnected => "NotConnected"
  | shutdown => "Shutdown"
  | protocolViolation => "ProtocolViolation"
  | other => "Other"

/-- A cause in words. -/
def message : SocketError → String
  | success => "success"
  | disconnecting => "disconnecting"
  | connectionReset => "connection reset"
  | connectionAborted => "connection aborted"
  | connectionRefused => "connection refused"
  | timedOut => "timed out"
  | notConnected => "not connected"
  | shutdown => "shutdown"
  | protocolViolation => "protocol violation"
  | other => "other socket error"

/-- Whether a cause is a regular close. -/
def isGraceful : SocketError → Bool
  | success | disconnecting => true
  | _ => false

/-- The cause that a fault amounts to. -/
def ofFault : Fault → SocketError
  | .connectionReset => connectionReset
  | .connectionAborted => connectionAborted
  | .connectionRefused => connectionRefused
  | .timedOut => timedOut
  | .notConnected => notConnected
  | .brokenPipe => shutdown
  | .unexpectedEnd => disconnecting
  | .writeZero | .other => other

end SocketError

/-- What an application is told about the end of a connection, with the fault that is behind it. -/
structure Cause where
  error : SocketError
  fault : Option Fault
  deriving DecidableEq, Repr, Inhabited

/-- An end that no fault is behind. -/
def Cause.plain (e : SocketError) : Cause := ⟨e, none⟩

/-- An end that comes from a fault. -/
def Cause.ofFault (f : Fault) : Cause := ⟨.ofFault f, some f⟩

/-- Why a connection did not come about. -/
inductive ConnectError where
  /-- the handshake did not complete -/
  | establishment (reason : String) (cause : SocketError) (fault : Option Fault)
  /-- a socket failed -/
  | transport (fault : Fault)
  deriving DecidableEq, Repr

namespace ConnectError

def cause : ConnectError → SocketError
  | establishment _ cause _ => cause
  | transport fault => .ofFault fault

def message : ConnectError → String
  | establishment reason _ _ => "connection establishment failed: " ++ reason
  | transport fault => "socket error during connect: " ++ (SocketError.ofFault fault).message

/-- Whether a fault of a socket is behind the failure. -/
def hasFault : ConnectError → Bool
  | establishment _ _ fault => fault.isSome
  | transport _ => true

/-- A failure of the handshake that no fault is behind. -/
def refused (reason : String) (cause : SocketError) : ConnectError :=
  establishment reason cause none

/-- A failure of the handshake that comes from a fault. -/
def failed (reason : String) (fault : Fault) : ConnectError :=
  establishment reason (.ofFault fault) (some fault)

end ConnectError

end Tandem
