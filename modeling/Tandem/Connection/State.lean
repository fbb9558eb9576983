/-!
# The life of a connection

A connection starts out connected and ends disconnected; in between it is disconnecting while its
sockets are shut down.  The other two states are for programs that follow their own attempts to
connect.  `beginDisconnect` can succeed once: after that the state is past it.
-/

namespace Tandem

/-- Where a connection is in its life. -/
inductive ConnectionState where
  | disconnected
  | connecting
  | connected
  | disconnecting
  | interrupted
  deriving DecidableEq, Repr, Inhabited

namespace ConnectionState

/-- All states, in the order of their numbers. -/
def all : List ConnectionState := [disconnected, connecting, connected, disconnecting, interrupted]

/-- The number of a state. -/
def toNat : ConnectionState → Nat
  | disconnected => 0
  | connecting => 1
  | connected => 2
  | disconnecting => 3
  | interrupted => 4

/-- The state with a number. -/
def ofNat? (n : Nat) : Option ConnectionState := all[n]?

/-- The name of a state. -/
def name : ConnectionState → String
  | disconnected => "Disconnected"
  | connecting => "Connecting"
  | connected => "Connected"
  | disconnecting => "Disconnecting"
  | interrupted => "Interrupted"

/-- What is said of a number that is none of a state's. -/
def unknownMessage (n : Nat) : String :=
  let quote := String.singleton (Char.ofNat 0x60)
  "No discriminant in enum " ++ quote ++ "ConnectionState" ++ quote ++ " matches the value " ++
    quote ++ toString n ++ quote

/-- Whether disconnecting has begun. -/
def isEnding : ConnectionState → Bool
  | disconnecting | disconnected => true
  | _ => false

/-- Begins to disconnect, unless that has begun before; says whether it did. -/
def beginDisconnect (s : ConnectionState) : Bool × ConnectionState :=
  if s.isEnding then (false, s) else (true, disconnecting)

end ConnectionState

end Tandem
