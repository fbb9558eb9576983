import Tandem.Session.State

/-!
# Running a script

`run` carries out the steps of a script and reports on each.  After a step everything happens that
follows from it, before the next step is carried out.  A step that names somebody who does not exist
ends the script.
-/

namespace Tandem.Session

/-- What a step does: it gives a result and changes the state, unless the script ends with it. -/
abbrev Play := StateT State (Except Failure)

namespace State

/-! ### Connecting -/

/-- What comes of connecting, where the server cannot be reached. -/
def refuse (c : EndpointConfig) (fault : Fault) : Result :=
  let config : ClientConfig :=
    { toEndpointConfig := c, tcpAddress := address 0, udpAddress := address 0 }
  match (Client.connect config ⟨some fault, none, [], .silent, none, []⟩).result with
  | .ok _ => .connected
  | .error e => .failed e

/-- Whether a client with this configuration gets as far as the handshake. -/
def mayConnect (s : State) (c : EndpointConfig) : Bool :=
  s.environment = .loopback && (c.check matches .ok ())

/-- The client that sees this of the network echoes its token, if it gets so far.  The listener
answers at once and starts the connection that it makes. -/
def echo (s : State) (socket : Nat) (n : Client.Network) : State :=
  match (Client.handshake n).2.1 with
  | some echo =>
    let s := s.listen (.datagram (address socket) echo none)
    let count := ((s.listener.map Listener.members).getD []).length
    s.modify (.member (count - 1)) Connection.start
  | none => s

/-- The datagrams that have come to a socket, which are no longer on their way. -/
def receive (s : State) (socket : Nat) : List Bytes × State :=
  ((s.air.filter fun d => d.target = socket).map fun d => d.bytes,
    { s with air := s.air.filter fun d => d.target ≠ socket })

/-- Connects a client with what it gets to see of the network. -/
def connect (s : State) (name : String) (c : EndpointConfig) (n : Client.Network)
    (e : Connection → ClientEnd) : Client.Outcome × State :=
  let config : ClientConfig :=
    { toEndpointConfig := c, tcpAddress := address s.listenerPort
      udpAddress := address s.listenerSocket }
  let outcome := Client.connect config n
  match outcome.result with
  | .ok conn =>
    let e := e conn
    let s := s.setWire e.stream .server ⟨outcome.rest.flatten, (s.wire e.stream .server).ended⟩
    (outcome, { s with clients := s.clients.set name e })
  | .error _ => (outcome, s)

def addRaw (s : State) (name : String) (r : RawPeer) : State :=
  { s with raws := s.raws.set name r }

/-! ### Endpoints -/

/-- The ports of the two endpoints of a connection's peer. -/
def remotePorts (s : State) : Owner → Nat × Nat
  | .client name =>
    ((s.clients.get? name).map fun e => (e.serverPort, e.serverSocket)).getD (0, 0)
  | .member id => ((s.member? id).map fun x => (x.address.port, x.endpoint.port)).getD (0, 0)

/-- The port of a connection's own end of the stream. -/
def localPort (s : State) : Owner → Nat
  | .client name => ((s.clients.get? name).map ClientEnd.port).getD 0
  | .member _ => s.listenerPort

/-! ### Sending -/

/-- Sends bodies one after the other. -/
def sendAll (s : State) (o : Owner) (ch : Channel) : List Bytes → List Bool × State
  | [] => ([], s)
  | bs :: rest =>
    let (accepted, s) := s.send o bs ch
    let (more, s) := s.sendAll o ch rest
    (accepted :: more, s)

/-- Sends a message with its bytes; a ping is remembered. -/
def sendMessage (s : State) (o : Owner) (bs : Bytes) (ch : Channel) : Bool × State :=
  let (v, m) := View.ofBytes bs .initial
  match Message.ofWire v false m with
  | (.error _, _) => (false, s)
  | (.ok x, m) => s.sendWith o bs ch fun c => c.send x m ch .sent s.clock

/-! ### Reports -/

/-- How the connections are. -/
def connectionReports (s : State) : List (String × ConnectionReport) :=
  s.owners.filterMap fun (name, o) => (s.connection? o).map fun (c, _, _) =>
    (name, ⟨c.state, c.noDelay, c.traffic, c.trips.latest.isSome, c.trips.smoothed.isSome⟩)

/-- The report on a step, after which nothing has been heard. -/
def report (s : State) (r : Result) : Report × State :=
  (⟨r, s.heard.entries, s.connectionReports, s.listener.map .of⟩, { s with heard := .empty })

end State

namespace Play

open State

/-- What the state has of something that must be there. -/
def find {α : Type} (x : State → Option α) (f : Failure) : Play α := do
  match x (← get) with
  | some a => return a
  | none => throw f

/-- The owner of the connection of a name. -/
def owner (name : String) : Play Owner := find (·.owner? name) (.unknownConnection name)

def connection (name : String) : Play (Owner × Connection) :=
  find (fun s => (s.owner? name).bind fun o => (s.connection? o).map fun c => (o, c.1))
    (.unknownConnection name)

def rawPeer (name : String) : Play RawPeer := find (·.raws.get? name) (.unknownPeer name)

def theListener : Play Listener := find State.listener .noListener

/-- A raw peer needs a network. -/
def needNetwork : Play Unit :=
  find (fun s => if s.environment = .isolated then none else some ()) .unreachable

/-! ### Tokens -/

/-- The token of a raw peer, read off the stream of the listener, or of a connection. -/
def tokenOf (name : String) : Play Token := do
  match (← get).tokens.get? name with
  | some t => return t
  | none => return (← connection name).2.token

/-- The bytes of what is sent. -/
def bytesOf : List Part → Play Bytes
  | [] => return []
  | .bytes bs :: ps => return bs ++ (← bytesOf ps)
  | .token name :: ps => do
    let t ← tokenOf name
    return Scalar.encode (k := .i64) t ++ (← bytesOf ps)
  | .nextToken name :: ps => do
    let t ← tokenOf name
    return Scalar.encode (k := .i64) (t + 1) ++ (← bytesOf ps)

/-! ### Connecting -/

/-- A stream to the listener, accepted by it, and the port that it comes from. -/
def openStream (l : Listener) : Play (StreamId × Nat) := do
  let stream ← modifyGet newStream
  let port ← modifyGet newPort
  let t ← modifyGet newToken
  let deadline := (← get).clock + l.config.handshakeTimeout
  modify (·.listen (.accepted ⟨stream, address port, deadline⟩ [t]))
  return (stream, port)

/-- A client connects to the listener. -/
def client (name : String) (c : EndpointConfig) : Play Result := do
  let l ← theListener
  if !(← get).mayConnect c then return refuse c .other
  let (stream, port) ← openStream l
  let socket ← modifyGet newPort
  let n : Client.Network :=
    ⟨none, none, [((← get).wire stream .server).bytes], .silent, none, []⟩
  modify (·.echo socket n)
  let hellos ← modifyGet (·.receive socket)
  let outcome ← modifyGet fun s =>
    s.connect name c { n with arrivals := hellos.map .datagram } fun conn =>
      ⟨conn, stream, port, socket, s.listenerPort, s.listenerSocket⟩
  match outcome.result with
  | .ok _ => return .connected
  | .error e =>
    modify (·.endWire stream .client)
    return .failed e

/-- A client connects to a scripted server, whose end of the stream becomes a raw peer. -/
def clientOf (name : String) (c : EndpointConfig) (server : Server) : Play Result := do
  if !(← get).mayConnect c then return refuse c .other
  let stream ← modifyGet newStream
  let port ← modifyGet newPort
  let socket ← modifyGet newPort
  let serverPort ← modifyGet newPort
  let serverSocket ← modifyGet newPort
  let ending := if server.closes then .closed else .silent
  let n : Client.Network :=
    ⟨none, none, server.pieces, ending, none, server.hellos.map .datagram⟩
  let outcome ← modifyGet (·.connect name c n fun conn =>
    ⟨conn, stream, port, socket, serverPort, serverSocket⟩)
  let echo := if server.hellos.isEmpty then none else outcome.echo
  modify fun s =>
    if server.closes then s.endWire stream .server
    else s.addRaw (name ++ "_peer") ⟨stream, .server, serverPort, serverSocket, socket, false⟩
  match outcome.result with
  | .ok conn =>
    modify fun s => (server.hellos.drop 1).foldl (fun s bs => s.fly serverSocket socket bs) s
    return .answered none echo (some conn.token)
  | .error e =>
    modify fun s =>
      (if e.cause = .timedOut then s.elapse c.handshakeTimeout else s).endWire stream .client
    return .answered (some e) echo none

/-- A raw peer opens a stream to the listener and reads the token. -/
def raw (name : String) : Play Result := do
  let l ← theListener
  needNetwork
  let (stream, port) ← openStream l
  let socket ← modifyGet newPort
  let message := ((← get).wire stream .server).bytes
  modify fun s => s.setWire stream .server { s.wire stream .server with bytes := [] }
  modify fun s =>
    let tokens := match (Handshake.takeToken message).1 with
      | .ok t => s.tokens.set name t
      | .error _ => s.tokens
    { s with tokens }.addRaw name ⟨stream, .client, port, socket, s.listenerSocket, false⟩
  return .tokenMessage message

/-! ### The script's own tables -/

def pendingRegister (name : String) (timeout : Nat) : Play Result := do
  needNetwork
  let stream ← modifyGet newStream
  let port ← modifyGet newPort
  let socket ← modifyGet newPort
  let t ← modifyGet newToken
  let entry : Pending.Entry := ⟨stream, address port, (← get).clock + timeout⟩
  let (t, pending) ← find (·.pending.register [t] entry) (.unknownHandshake name)
  modify fun s => { s with pending, tokens := s.tokens.set name t }.addRaw name
    ⟨stream, .client, port, socket, s.listenerSocket, false⟩
  return .done

/-- The token under which the stream of a raw peer was registered. -/
def handshakeToken (name : String) : Play Token :=
  find (·.tokens.get? name) (.unknownHandshake name)

def pendingComplete (name : String) : Play Result := do
  let t ← handshakeToken name
  let (e, pending) := (← get).pending.complete t
  modify fun s => { s with pending }
  let own := ((← get).raws.get? name).map fun r => address r.port
  return .completed (e.map fun e => decide (some e.address = own)) (.of pending)

def pendingAbandon (name : String) : Play Result := do
  let t ← handshakeToken name
  let (stream, pending) := (← get).pending.abandon t
  modify fun s =>
    stream.toList.foldl (fun s stream => s.endWire stream .server) { s with pending }
  return .abandoned stream.isSome (.of pending)

def pendingClear : Play Result := do
  let (streams, pending) := (← get).pending.clear
  modify fun s => streams.foldl (fun s stream => s.endWire stream .server) { s with pending }
  return .counts (.of pending)

/-- Puts a connection into the script's own table; one that it replaces is disconnected. -/
def tableInsert (port : Nat) (name : String) : Play Result := do
  let _ ← owner name
  modify fun s =>
    let replaced := (s.peers.get? port).bind s.owner?
    replaced.toList.foldl (fun s old => s.modify old fun c => c.disconnect.2) s
  modify fun s => { s with peers := s.peers.set port name }
  return .table (← get).peers.size

def tableRemove (port : Nat) (name : String) : Play Result := do
  let _ ← owner name
  let peers := (← get).peers
  let removed := decide (peers.get? port = some name)
  let peers := if removed then peers.erase port else peers
  modify fun s => { s with peers }
  return .removed removed peers.size

/-! ### Steps -/

/-- The port of a landmark. -/
def landmarkPort : Landmark → Play Nat
  | .listenerStream => return (← get).listenerPort
  | .listenerDatagrams => return (← get).listenerSocket
  | .rawDatagrams name => return (← rawPeer name).socket
  | .connection name => do
    let o ← owner name
    return (← get).localPort o

def endpoint (name protocol : String) (other : Landmark) : Play Result := do
  let o ← owner name
  let port ← landmarkPort other
  let (stream, datagrams) := (← get).remotePorts o
  let protocol := String.ofList (protocol.toList.map Char.toLower)
  let equal := if protocol = "tcp" then some (decide (stream = port))
    else if protocol = "udp" then some (decide (datagrams = port)) else none
  return .endpoint equal (stream = port) (datagrams = port)

def setHabits (name : String) (f : Habits → Habits) : Play Result := do
  let _ ← owner name
  modify fun s =>
    { s with habits := s.habits.set name (f ((s.habits.get? name).getD default)) }
  return .done

/-- Carries out a step. -/
def perform : Step → Play Result
  | .client name c => client name c
  | .clientRefused _ c => do
    return refuse c (if (← get).environment = .loopback then .connectionRefused else .other)
  | .clientOf name c server => clientOf name c server
  | .raw name => raw name
  | .rawSocket name => do
    let r ← rawPeer name
    let socket ← modifyGet newPort
    modify (·.addRaw name { r with socket })
    return .done
  | .rawDatagram name ps => do
    let r ← rawPeer name
    let bs ← bytesOf ps
    modify (·.fly r.socket r.target bs)
    return .done
  | .rawWrite name ps => do
    let r ← rawPeer name
    let bs ← bytesOf ps
    modify (·.push r.stream r.side bs)
    return .done
  | .rawClose name => do
    let r ← rawPeer name
    modify (·.endWire r.stream r.side)
    return .done
  | .send name ps ch => do
    let o ← owner name
    let bs ← bytesOf ps
    return .flag (← modifyGet (·.send o bs ch))
  | .sendMessage name bs ch => do
    let o ← owner name
    return .flag (← modifyGet (·.sendMessage o bs ch))
  | .burst name bodies ch => do
    let o ← owner name
    return .flags (← modifyGet (·.sendAll o ch bodies))
  | .disconnect name => do
    let (o, c) ← connection name
    modify (·.modify o fun c => c.disconnect.2)
    return .flag c.disconnect.1
  | .shutdown => do
    let _ ← theListener
    modify (·.listen .shutdown)
    return .done
  | .acknowledge name => setHabits name fun h => { h with acknowledges := true }
  | .hold name => setHabits name fun h => { h with holds := true }
  | .release name => setHabits name fun h => { h with holds := false }
  | .wait time => do
    modify (·.elapse time)
    return .done
  | .endpoint name protocol other => endpoint name protocol other
  | .tableInsert port name => tableInsert port name
  | .tableRemove port name => tableRemove port name
  | .tableGet port => return .found ((← get).peers.get? port)
  | .pendingRegister name timeout => pendingRegister name timeout
  | .pendingComplete name => pendingComplete name
  | .pendingAbandon name => pendingAbandon name
  | .pendingClear => pendingClear
  | .pendingShow => return .counts (.of (← get).pending)
  | .samePort => do
    let _ ← theListener
    let s ← get
    return .flag (s.listenerPort = s.listenerSocket)
  | .sameToken name other => do
    let (_, c) ← connection name
    let (_, d) ← connection other
    return .flag (c.token = d.token)

/-- Carries out steps, one after the other. -/
def performAll : List Step → Play (List Report)
  | [] => return []
  | step :: steps => do
    let r ← perform step
    modify settle
    let report ← modifyGet (·.report r)
    return report :: (← performAll steps)

end Play

/-- Carries out a script, with a listener if a configuration is given for it. -/
def run (e : Environment) (c : Option ListenerConfig) (steps : List Step) :
    Except Failure (List Report) :=
  match c.map ListenerConfig.check with
  | some (.error e) => .error (.badConfig e)
  | _ => (Play.performAll steps).run' (State.initial e c)

end Tandem.Session
