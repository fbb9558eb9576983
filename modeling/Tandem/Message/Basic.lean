import Tandem.Message.Header
import Tandem.Serializable

/-!
# Messages

A message is a header with a payload that is a view of shared memory.  A message made from received
bytes may be read-only: it then refuses every change.  A clone is always writable and shares the
payload.  A ping asks for an acknowledgement with the same code.
-/

namespace Tandem

/-- Why an operation on a message fails. -/
inductive MessageError where
  | readOnly
  | notAPing
  | truncated (t : Truncated)
  | read (e : ReadError)
  deriving DecidableEq, Repr

def MessageError.message : MessageError → String
  | readOnly => "message is read-only - create a writable instance using Message::clone()"
  | notAPing => "the message to acknowledge is not a ping message"
  | truncated ⟨n, header⟩ => s!"{n} bytes are too short for a message header of {header} bytes"
  | read e => e.message

/-- A header with a payload. -/
structure Message where
  flags : UInt8
  tag : UInt16
  code : UInt16
  payload : View
  readOnly : Bool
  deriving DecidableEq, Repr, Inhabited

namespace Message

/-! ### Making and releasing messages -/

/-- A writable message with the given payload. -/
def ofPayload (tag : UInt16) (payload : View) : Message := ⟨0, tag, 0, payload, false⟩

/-- A message without a payload. -/
def empty (tag : UInt16) (m : Memory) : Message × Memory :=
  let (v, m) := View.create 0 m
  (ofPayload tag v, m)

/-- A message whose payload shares what a writer wrote. -/
def ofWriter (tag : UInt16) (w : Writer) (m : Memory) : Message × Memory :=
  let (v, m) := w.share m
  (ofPayload tag v, m)

/-- What a value of an application type is written as. -/
def recordPayload {α : Type} [Serializable α] (a : α) (m : Memory) : View × Memory :=
  let (w, m) := Writer.create Writer.standardRoom .standard m
  let (w, m) := w.writeRecord a m
  (w.view, m)

/-- A message whose payload is a value of an application type. -/
def ofRecord {α : Type} [Serializable α] (tag : UInt16) (a : α) (m : Memory) : Message × Memory :=
  let (v, m) := recordPayload a m
  (ofPayload tag v, m)

/-- The message that received bytes stand for.  The payload is a view of the same array. -/
def ofWire (v : View) (readOnly : Bool) (m : Memory) : Except MessageError Message × Memory :=
  match Header.decode (v.bytes m) with
  | .error t => (.error (.truncated t), m)
  | .ok h =>
    let payload : View := ⟨v.array, v.offset + h.length, v.length - h.length⟩
    (.ok ⟨h.flags, h.tag, h.code, payload, readOnly⟩, v.clone m)

/-- A writable message equal to this one, sharing its payload. -/
def clone (x : Message) (m : Memory) : Message × Memory :=
  ({ x with readOnly := false }, x.payload.clone m)

/-- Lets go of the payload. -/
def drop (x : Message) (m : Memory) : Memory := x.payload.drop m

/-! ### Looking at messages -/

def header (x : Message) : Header := ⟨x.flags, x.tag, x.code⟩

def isCommand (x : Message) : Bool := Flags.has x.flags Flags.command

def isPing (x : Message) : Bool := x.header.isPing

def isAcknowledgement (x : Message) : Bool := x.header.isAcknowledgement

/-- The code of a ping or acknowledgement. -/
def pingCode? (x : Message) : Option UInt16 := if x.header.hasCode then some x.code else none

def length (x : Message) : Nat := x.payload.length

/-- The bytes that stand for a message on the wire. -/
def wire (x : Message) (m : Memory) : Bytes := x.header.encode ++ x.payload.bytes m

/-- The bytes on the wire in a new view. -/
def toView (x : Message) (m : Memory) : View × Memory := View.ofBytes (x.wire m) m

/-- A reader over the payload, with a handle of its own. -/
def reader (x : Message) (m : Memory) : Reader × Memory := (.ofView x.payload, x.payload.clone m)

/-- A line that says what a message is. -/
def display (x : Message) : String :=
  let tag := x.tag.toNat
  let length := x.length
  s!"Message with tag '{tag}' and {length} bytes of data."

/-- The fields of a message, with the given text in place of the code. -/
def describe (x : Message) (code : String) : String :=
  let flags := x.flags.toNat
  let tag := x.tag.toNat
  let length := x.length
  let readOnly := x.readOnly
  s!"Message \x7b flags: {flags}, tag: {tag}, ping_code: {code}, " ++
    s!"data_len: {length}, read_only: {readOnly} \x7d"

/-- The code of a message as `describe` shows it. -/
def codeText (x : Message) : String :=
  match x.pingCode? with
  | some code =>
    let n := code.toNat
    s!"Some({n})"
  | none => "None"

/-! ### Changing messages -/

/-- Changes a message unless it is read-only. -/
def modify (x : Message) (f : Message → Message) : Except MessageError Message :=
  if x.readOnly then .error .readOnly else .ok (f x)

def setTag (x : Message) (tag : UInt16) : Except MessageError Message :=
  x.modify fun x => { x with tag }

def setCommand (x : Message) (command : Bool) : Except MessageError Message :=
  x.modify fun x =>
    { x with
      flags := if command then x.flags ||| Flags.command else x.flags &&& ~~~ Flags.command }

/-- Makes a message a ping with the given code. -/
def makePing (x : Message) (code : UInt16) : Except MessageError Message :=
  x.modify fun x =>
    { x with flags := (x.flags ||| Flags.ping) &&& ~~~ Flags.acknowledgement, code }

/-- Makes a message the acknowledgement of a ping. -/
def makeAcknowledgement (x ping : Message) : Except MessageError Message :=
  if x.readOnly then .error .readOnly
  else if !ping.isPing then .error .notAPing
  else .ok { x with flags := x.flags ||| (Flags.ping ||| Flags.acknowledgement), code := ping.code }

/-- Puts another payload in place; `make` gives it. -/
def replacePayload (x : Message) (make : Memory → View × Memory) (m : Memory) :
    Except MessageError Message × Memory :=
  if x.readOnly then (.error .readOnly, m)
  else
    let (v, m) := make m
    -- the old payload is held until the new one is there
    (.ok { x with payload := v }, x.payload.drop m)

/-- Takes the payload away. -/
def clear (x : Message) (m : Memory) : Except MessageError Message × Memory :=
  x.replacePayload (View.create 0) m

/-- Makes what a writer wrote the payload. -/
def setWriter (x : Message) (w : Writer) (m : Memory) : Except MessageError Message × Memory :=
  x.replacePayload w.share m

/-- Makes a value of an application type the payload. -/
def setRecord {α : Type} [Serializable α] (x : Message) (a : α) (m : Memory) :
    Except MessageError Message × Memory :=
  x.replacePayload (recordPayload a) m

/-- Reads a value of an application type from the payload. -/
def getRecord (α : Type) [Serializable α] (x : Message) (m : Memory) :
    Except MessageError α × Memory :=
  let (r, m) := x.reader m
  let (result, r) := r.read (Read.record α) m
  (result.mapError .read, r.drop m)

/-- Reads the payload into an existing value. -/
def getRecordInto {α : Type} [Serializable α] (x : Message) (a : α) (m : Memory) :
    (Except MessageError Unit × α) × Memory :=
  let (r, m) := x.reader m
  let ((result, a), r) := r.readInto a m
  ((result.mapError .read, a), r.drop m)

end Message

end Tandem
