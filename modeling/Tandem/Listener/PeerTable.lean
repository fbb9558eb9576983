import Tandem.Config
import Tandem.Table

/-!
# Peer tables

A listener finds the connection that a datagram is for by the endpoint that it comes from.  A
connection can only take itself out: what has replaced it stays.
-/

namespace Tandem

/-- Names the connections of a listener, in the order in which they were made. -/
abbrev MemberId := Nat

/-- Connections by the endpoint of their peer. -/
abbrev PeerTable := Table Address MemberId

namespace PeerTable

/-- Puts a connection in; gives the one that it replaces, in order to be disconnected. -/
def insert (p : PeerTable) (a : Address) (c : MemberId) : Option MemberId × PeerTable :=
  (p.get? a, p.set a c)

/-- Takes a connection out, if it is this one that is in; says whether it was. -/
def remove (p : PeerTable) (a : Address) (c : MemberId) : Bool × PeerTable :=
  if p.get? a = some c then (true, p.erase a) else (false, p)

end PeerTable

end Tandem
