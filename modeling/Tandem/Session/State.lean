import Tandem.Session.Script

/-!
# The world of a script

The state of a script holds the listener, the clients and the raw peers together with everything
that is on its way between them.  `State.settle` lets everything happen that follows from what was
done: frames are written and read, datagrams arrive, and handlers are called until nothing is left
to do.
-/

namespace Tandem.Session

/-- The connection of a client. -/
structure ClientEnd where
  connection : Connection
  stream : StreamId
  /-- the port that the stream comes from -/
  port : Nat
  /-- the port of the datagram socket -/
  socket : Nat
  /-- the ports of the server -/
  serverPort : Nat
  serverSocket : Nat

/-- Somebody who writes and reads without a protocol. -/
structure RawPeer where
  stream : StreamId
  /-- the end of the stream that is the peer's -/
  side : Side
  port : Nat
  socket : Nat
  /-- where datagrams are sent to -/
  target : Nat
  /-- the end of the stream was read -/
  ended : Bool
  deriving DecidableEq, Repr

/-- How a handler behaves. -/
structure Habits where
  holds : Bool
  acknowledges : Bool
  deriving DecidableEq, Repr, Inhabited

/-- A datagram on its way. -/
structure Flying where
  source : Nat
  target : Nat
  bytes : Bytes
  deriving DecidableEq, Repr

/-- Who has a connection. -/
inductive Owner where
  | client (name : String)
  | member (id : MemberId)
  deriving DecidableEq, Repr

/-- Everything that a script deals with. -/
structure State where
  environment : Environment
  clock : Nat
  /-- the number of tokens drawn so far -/
  draws : Nat
  /-- the first port that is free -/
  freePort : Nat
  listener : Option Listener
  listenerPort : Nat
  listenerSocket : Nat
  clients : Table String ClientEnd
  raws : Table String RawPeer
  streams : Table StreamId (Pair Wire)
  freeStream : StreamId
  air : List Flying
  habits : Table String Habits
  heard : Table String (List Event)
  /-- the script's own pending handshakes, and the tokens under which streams wait there -/
  pending : Pending
  tokens : Table String Token
  /-- the script's own peer table, by port -/
  peers : Table Nat String

namespace State

def localhost : Bytes := [127, 0, 0, 1]

def address (port : Nat) : Address := ⟨localhost, port⟩

/-- The beginning of a script with or without a listener. -/
def initial (e : Environment) (c : Option ListenerConfig) : State where
  environment := e
  clock := 0
  draws := 0
  freePort := 3
  listener := c.map Listener.create
  listenerPort := 1
  listenerSocket := if (c.bind ListenerConfig.udpPort).isSome then 2 else 1
  clients := .empty
  raws := .empty
  streams := .empty
  freeStream := 0
  air := []
  habits := .empty
  heard := .empty
  pending := .empty
  tokens := .empty
  peers := .empty

/-! ### Names -/

def memberName (id : MemberId) : String := "s" ++ toString id

/-- Who has the connection of a name. -/
def owner? (s : State) (name : String) : Option Owner :=
  if s.clients.contains name then some (.client name)
  else
    let count := ((s.listener.map Listener.members).getD []).length
    ((List.range count).find? fun id => memberName id == name).map .member

def member? (s : State) (id : MemberId) : Option Member :=
  s.listener.bind fun l => l.members[id]?

/-- A connection, its stream and its end of it. -/
def connection? (s : State) : Owner → Option (Connection × StreamId × Side)
  | .client name => (s.clients.get? name).map fun e => (e.connection, e.stream, .client)
  | .member id => (s.member? id).map fun x => (x.connection, x.stream, .server)

/-- All connections. -/
def owners (s : State) : List (String × Owner) :=
  let count := ((s.listener.map Listener.members).getD []).length
  s.clients.keys.map (fun name => (name, .client name)) ++
    (List.range count).map fun id => (memberName id, .member id)

/-! ### The network -/

/-- A port that nobody has had before. -/
def newPort (s : State) : Nat × State := (s.freePort, { s with freePort := s.freePort + 1 })

def newStream (s : State) : StreamId × State :=
  (s.freeStream, { s with
    streams := s.streams.set s.freeStream ⟨.empty, .empty⟩, freeStream := s.freeStream + 1 })

/-- Tokens that were not drawn before. -/
def newToken (s : State) : Token × State :=
  (Scalar.ofInt .i64 ((s.draws + 1) * 0x9e3779b97f4a7c15), { s with draws := s.draws + 1 })

/-- What is on its way from an end of a stream. -/
def wire (s : State) (stream : StreamId) (side : Side) : Wire :=
  ((s.streams.get? stream).map fun p => p.get side).getD ⟨[], true⟩

def setWire (s : State) (stream : StreamId) (side : Side) (w : Wire) : State :=
  match s.streams.get? stream with
  | none => s
  | some p => { s with streams := s.streams.set stream (p.set side w) }

/-- An end of a stream writes. -/
def push (s : State) (stream : StreamId) (side : Side) (bs : Bytes) : State :=
  let w := s.wire stream side
  if w.ended then s else s.setWire stream side { w with bytes := w.bytes ++ bs }

/-- An end of a stream stops writing. -/
def endWire (s : State) (stream : StreamId) (side : Side) : State :=
  s.setWire stream side { s.wire stream side with ended := true }

def fly (s : State) (source target : Nat) (bs : Bytes) : State :=
  { s with air := s.air ++ [⟨source, target, bs⟩] }

/-- Somebody hears something; stretches of a stream are joined. -/
def hear (s : State) (name : String) (e : Event) : State :=
  let before := (s.heard.get? name).getD []
  let after := match e, before.getLast? with
    | .stream bs, some (.stream old) => before.dropLast ++ [.stream (old ++ bs)]
    | e, _ => before ++ [e]
  { s with heard := s.heard.set name after }

/-- An effect of the listener. -/
def apply (s : State) : Listener.Effect → State
  | .startSending stream bs => s.push stream .server bs
  | .datagram target bs => s.fly s.listenerSocket target.port bs
  | .close stream => s.endWire stream .server

/-- A step of the listener with its effects. -/
def listen (s : State) (e : Listener.Event) : State :=
  match s.listener with
  | none => s
  | some l =>
    let (effects, l) := l.step e
    effects.foldl apply { s with listener := some l }

/-- Changes a connection. -/
def modify (s : State) (o : Owner) (f : Connection → Connection) : State :=
  match o with
  | .client name =>
    match s.clients.get? name with
    | none => s
    | some e =>
      let c := f e.connection
      let s := { s with clients := s.clients.set name { e with connection := c } }
      if c.isConnected then s else s.endWire e.stream .client
  | .member id =>
    match s.listener with
    | none => s
    | some l =>
      let (effects, l) := l.modify id f
      effects.foldl apply { s with listener := some l }

/-- The ports that a connection's datagrams come from and go to. -/
def route (s : State) : Owner → Nat × Nat
  | .client name => ((s.clients.get? name).map fun e => (e.socket, e.serverSocket)).getD (0, 0)
  | .member id => (s.listenerSocket, ((s.member? id).map fun x => x.endpoint.port).getD 0)

/-- Carries out a call that sends; a datagram that is accepted is on its way. -/
def sendWith (s : State) (o : Owner) (bs : Bytes) (ch : Channel)
    (f : Connection → Bool × Connection) : Bool × State :=
  match s.connection? o with
  | none => (false, s)
  | some (c, _, _) =>
    let (accepted, _) := f c
    let s := s.modify o fun c => (f c).2
    let (source, target) := s.route o
    (accepted, if accepted && ch = .unreliable then s.fly source target bs else s)

/-- Sends bytes over a connection. -/
def send (s : State) (o : Owner) (bs : Bytes) (ch : Channel) : Bool × State :=
  s.sendWith o bs ch fun c => c.sendBytes bs ch .sent

/-! ### What follows -/

/-- The oldest datagram arrives.  A connection that the listener makes is started at once. -/
def arrive (s : State) (d : Flying) : State :=
  if d.target = s.listenerSocket && s.listener.isSome then
    let count := ((s.listener.map Listener.members).getD []).length
    (s.listen (.datagram (address d.source) d.bytes none)).modify (.member count) Connection.start
  else
    match s.clients.entries.find? fun e => e.2.socket = d.target with
    | some (name, e) =>
      if e.serverSocket = d.source && e.connection.isConnected then
        s.modify (.client name) fun c => c.datagram d.bytes
      else s
    | none =>
      match s.raws.entries.find? fun e => e.2.socket = d.target with
      | some (name, _) => s.hear name (.datagram d.bytes)
      | none => s

/-- The acknowledgement of a ping: an empty message with its tag and code. -/
def acknowledgement? (bs : Bytes) : Option Bytes :=
  match Header.decode bs with
  | .ok h =>
    if h.isPing then
      some (Header.encode ⟨Flags.ping ||| Flags.acknowledgement, h.tag, h.code⟩)
    else none
  | .error _ => none

/-- The handler of a connection returns from a message, which it has taken note of. -/
def answer (s : State) (name : String) (o : Owner) (h : Habits) (d : Delivery) : State :=
  let s := (s.hear name (.call (.message d))).modify o Connection.finish
  if h.acknowledges then
    match acknowledgement? d.body with
    | some bs => (s.send o bs d.channel).2
    | none => s
  else s

/-- The next thing that the handler of a connection does. -/
def handle? (s : State) (name : String) (o : Owner) (d : Dispatcher) : Option State :=
  let h := (s.habits.get? name).getD default
  match d.phase with
  | .unstarted | .ended => none
  | .idle =>
    if d.inbox.items.isEmpty && d.signal.isNone then none
    else some (s.modify o fun c => (c.poll s.clock).2)
  | .checking => some (s.modify o Connection.check)
  | .calling =>
    match d.calls.getLast? with
    | some (.message x) => if h.holds then none else some (s.answer name o h x)
    | _ => none
  | .ending cause =>
    some ((s.hear name (.call (.disconnected cause))).modify o Connection.conclude)

/-- The next thing that happens to a connection. -/
def serve? (s : State) (name : String) (o : Owner) : Option State :=
  match s.connection? o with
  | none => none
  | some (c, stream, side) =>
    -- whatever is queued for the stream is written before anything is read
    match c.nextFrame with
    | (some f, _) =>
      if c.running then
        let a := Frame.Attempt.wrote f.left.offered.length
        some ((s.push stream side (c.write a).1).modify o fun c => (c.write a).2)
      else s.handle? name o c.dispatcher
    | (none, _) =>
      match c.dispatcher.inbox.held with
      | .admitted _ => some (s.modify o Connection.settle)
      | held =>
        let w := s.wire stream side.other
        let n := min c.wanted w.bytes.length
        if c.running && held = .nothing && 0 < n then
          some ((s.setWire stream side.other { w with bytes := w.bytes.drop n }).modify o
            fun c => c.read (w.bytes.take n))
        else if c.running && held = .nothing && w.bytes.isEmpty && w.ended then
          some (s.modify o Connection.readEnd)
        else s.handle? name o c.dispatcher

/-- What a raw peer reads next. -/
def listenRaw? (s : State) (name : String) (r : RawPeer) : Option State :=
  let w := s.wire r.stream r.side.other
  if !w.bytes.isEmpty then
    some ((s.setWire r.stream r.side.other { w with bytes := [] }).hear name (.stream w.bytes))
  else if w.ended && !r.ended then
    some ({ s with raws := s.raws.set name { r with ended := true } }.hear name .closed)
  else none

/-- The next thing that happens anywhere. -/
def next? (s : State) : Option State :=
  match s.air with
  | d :: rest => some ({ s with air := rest }.arrive d)
  | [] =>
    (s.owners.findSome? fun (name, o) => s.serve? name o).or
      (s.raws.entries.findSome? fun (name, r) => s.listenRaw? name r)

/-- The sum of what each of the items weighs. -/
def total {α : Type} (weight : α → Nat) (items : List α) : Nat :=
  items.foldl (fun n a => n + weight a) 0

/-- How much is on its way or waits. -/
def load (s : State) : Nat :=
  let conns := s.owners.filterMap fun (_, o) => s.connection? o
  total (fun p => p.client.bytes.length + p.server.bytes.length) s.streams.values +
    total (fun (c, _, _) =>
      total (fun b => b.length + Frame.headerLength) c.outbound +
        total (fun d => d.body.length) c.dispatcher.inbox.items + c.dispatcher.inbox.used) conns +
    total (fun d => d.bytes.length + 1) s.air + s.owners.length + s.raws.size

/-- At most `n` things happen. -/
def settleUpTo : Nat → State → State
  | 0, s => s
  | n + 1, s =>
    match s.next? with
    | none => s
    | some s => settleUpTo n s

/-- Everything happens that follows from what was done.  Each byte and each message is handled a
few times at most, an acknowledgement of it included. -/
def settle (s : State) : State := settleUpTo (64 * (s.load + 1)) s

/-! ### Time -/

/-- Time passes; the streams that have waited too long are given up. -/
def elapse (s : State) (nanoseconds : Nat) : State :=
  let s := { s with clock := s.clock + nanoseconds }
  let overdue := ((s.listener.map Listener.pending).getD .empty).overdue s.clock
  let s := overdue.foldl (fun s t => s.listen (.expired t)) s
  (s.pending.overdue s.clock).foldl (fun s t =>
    match s.pending.expire t with
    | (some stream, pending) => { s with pending }.endWire stream .server
    | (none, _) => s) s

end State

end Tandem.Session
