import Tandem.Bytes

/-!
# Configuration

What a listener and a client can be told.  `check` refuses a configuration with a value that nothing
can work with; of several such values it names the first one.
-/

namespace Tandem

/-- An address: the four or sixteen bytes of an internet address, and a port. -/
structure Address where
  host : Bytes
  port : Nat
  deriving DecidableEq, Repr, Inhabited

/-- What a listener does when one of its own sockets fails. -/
inductive Strategy where
  /-- it stops -/
  | bichannel
  /-- it tries again -/
  | compatibility
  deriving DecidableEq, Repr, Inhabited

def Strategy.name : Strategy → String
  | bichannel => "bichannel"
  | compatibility => "compatibility"

/-- Why a configuration is refused. -/
inductive ConfigError where
  | zeroBodyLength
  | bodyLengthOutOfRange (n : Nat)
  | zeroHandshakeTimeout
  | zeroDispatchQueue
  | zeroSampleCount
  | zeroPingBacklog
  deriving DecidableEq, Repr

def ConfigError.message : ConfigError → String
  | zeroBodyLength => "max TCP body length must be positive"
  | bodyLengthOutOfRange n => s!"max TCP body length {n} exceeds the range of the frame header"
  | zeroHandshakeTimeout => "handshake timeout must be positive"
  | zeroDispatchQueue => "dispatch queue length must be positive"
  | zeroSampleCount => "RTT sample count must be positive"
  | zeroPingBacklog => "ping backlog must be positive"

/-- What listeners and clients have in common. -/
structure EndpointConfig where
  /-- send small writes at once -/
  noDelay : Bool := false
  /-- the time to wait for the next step of a handshake, in nanoseconds -/
  handshakeTimeout : Nat := 5000000000
  /-- how many received messages may wait for the application -/
  dispatchQueueLength : Nat := 256
  /-- how many round trips are averaged -/
  sampleCount : Nat := 10
  /-- how many pings are remembered -/
  pingBacklog : Nat := 64
  deriving DecidableEq, Repr, Inhabited

/-- All four quantities must be positive. -/
def EndpointConfig.check (c : EndpointConfig) : Except ConfigError Unit :=
  if c.handshakeTimeout = 0 then .error .zeroHandshakeTimeout
  else if c.dispatchQueueLength = 0 then .error .zeroDispatchQueue
  else if c.sampleCount = 0 then .error .zeroSampleCount
  else if c.pingBacklog = 0 then .error .zeroPingBacklog
  else .ok ()

/-- What a listener is told. -/
structure ListenerConfig extends EndpointConfig where
  host : Bytes
  tcpPort : Nat
  /-- the port for datagrams, if it is not that of the streams -/
  udpPort : Option Nat := none
  /-- bodies of this length and longer are refused -/
  maxBodyLength : Nat := 65535
  listenBacklog : Nat := 100
  strategy : Strategy := .bichannel
  deriving DecidableEq, Repr, Inhabited

namespace ListenerConfig

/-- Stands for every local address. -/
def anyHost : Bytes := [0, 0, 0, 0]

def tcpAddress (c : ListenerConfig) : Address := ⟨c.host, c.tcpPort⟩

def udpAddress (c : ListenerConfig) : Address := ⟨c.host, c.udpPort.getD c.tcpPort⟩

/-- Body lengths must be positive and fit a frame header, and the rest must be in order. -/
def check (c : ListenerConfig) : Except ConfigError Unit :=
  if c.maxBodyLength = 0 then .error .zeroBodyLength
  else if 0x7fffffff < c.maxBodyLength then .error (.bodyLengthOutOfRange c.maxBodyLength)
  else c.toEndpointConfig.check

end ListenerConfig

/-- What a client is told. -/
structure ClientConfig extends EndpointConfig where
  tcpAddress : Address
  udpAddress : Address
  deriving DecidableEq, Repr, Inhabited

/-- One address for streams and datagrams. -/
def ClientConfig.ofAddress (a : Address) : ClientConfig where
  tcpAddress := a
  udpAddress := a

/-- How a message is sent. -/
inductive Channel where
  /-- over the stream -/
  | reliable
  /-- in a datagram -/
  | unreliable
  deriving DecidableEq, Repr, Inhabited

def Channel.name : Channel → String
  | reliable => "reliable"
  | unreliable => "unreliable"

end Tandem
