import Tandem.Draft
import Tandem.Message.Basic

/-!
# Messages under names

A workspace of messages is changed by operations, one after the other.  An operation that fails
leaves all messages as they are; so does one whose payload cannot be written.
-/

namespace Tandem

/-- What is written in order to become a payload. -/
structure Manuscript : Type 1 where
  room : Nat
  encoding : Encoding
  ops : List WriteOp

/-- Operations that make or change messages. -/
inductive MessageOp : Type 1 where
  | empty (name : String) (tag : UInt16)
  | ofManuscript (name : String) (tag : UInt16) (s : Manuscript)
  | ofRecord {α : Type} [Serializable α] (name : String) (tag : UInt16) (a : α)
  | ofPayload (name : String) (tag : UInt16) (bs : Bytes)
  | ofWire (name : String) (bs : Bytes) (readOnly : Bool)
  /-- the message that the bytes of another message stand for -/
  | rewire (name source : String) (readOnly : Bool)
  | clone (name source : String)
  | drop (name : String)
  | setTag (name : String) (tag : UInt16)
  | setCommand (name : String) (command : Bool)
  | makePing (name : String) (code : UInt16)
  | makeAcknowledgement (name ping : String)
  | clear (name : String)
  | setManuscript (name : String) (s : Manuscript)
  | setRecord {α : Type} [Serializable α] (name : String) (a : α)

namespace MessageOp

/-- What an operation answers. -/
inductive Reply where
  | done
  | failed (e : MessageError)
  /-- a name is not in use, or a step of a manuscript is refused -/
  | refused (e : Misuse)
  deriving DecidableEq, Repr

variable (w : Workspace Message)

/-- Carries on with the message of a name, which must be in use. -/
def onMessage (name : String) (f : Message → Reply × Workspace Message) :
    Reply × Workspace Message :=
  match w.slots.get? name with
  | none => (.refused .outOfRange, w)
  | some x => f x

/-- Puts a new message under a name. -/
def put (name : String) (r : Message × Memory) : Reply × Workspace Message :=
  (.done, w.assign Message.drop name r.1 r.2)

/-- Puts the message under a name that the bytes of a view stand for; the view is let go of. -/
def receive (name : String) (readOnly : Bool) (r : View × Memory) : Reply × Workspace Message :=
  match Message.ofWire r.1 readOnly r.2 with
  | (.ok x, m) => put w name (x, r.1.drop m)
  | (.error e, m) => (.failed e, { w with memory := r.1.drop m })

/-- Replaces a message by what became of it. -/
def change (name : String) (r : Except MessageError Message × Memory) :
    Reply × Workspace Message :=
  match r with
  | (.ok x, m) => (.done, w.update name x m)
  | (.error e, m) => (.failed e, { w with memory := m })

/-- Writes a manuscript and carries on with the draft. -/
def write (s : Manuscript) (f : Draft → Reply × Workspace Message) : Reply × Workspace Message :=
  match Draft.make s.room s.encoding w.memory with
  | .error e => (.refused e, { w with memory := w.memory.miss })
  | .ok d =>
    match d.performAll s.ops with
    | (.ok (), d) => f d
    | (.error e, d) => (.refused e, { w with memory := d.drop })

/-- Carries out an operation. -/
def run : MessageOp → Reply × Workspace Message
  | empty name tag => put w name (Message.empty tag w.memory)
  | ofManuscript name tag s => write w s fun d =>
    let (x, m) := Message.ofWriter tag d.writer d.memory
    -- the draft goes, and its array stays for the payload
    put w name (x, { d with memory := m }.drop)
  | @ofRecord _ _ name tag a => put w name (Message.ofRecord tag a w.memory)
  | ofPayload name tag bs =>
    let (v, m) := View.ofBytes bs w.memory
    put w name (.ofPayload tag v, m)
  | ofWire name bs readOnly => receive w name readOnly (View.ofBytes bs w.memory)
  | rewire name source readOnly => onMessage w source fun x =>
    receive w name readOnly (x.toView w.memory)
  | clone name source => onMessage w source fun x => put w name (x.clone w.memory)
  | drop name => (.done, w.discard Message.drop name)
  | setTag name tag => onMessage w name fun x => change w name (x.setTag tag, w.memory)
  | setCommand name command => onMessage w name fun x =>
    change w name (x.setCommand command, w.memory)
  | makePing name code => onMessage w name fun x => change w name (x.makePing code, w.memory)
  | makeAcknowledgement name ping => onMessage w name fun x => onMessage w ping fun y =>
    change w name (x.makeAcknowledgement y, w.memory)
  | clear name => onMessage w name fun x => change w name (x.clear w.memory)
  | setManuscript name s => onMessage w name fun x => write w s fun d =>
    let (result, m) := x.setWriter d.writer d.memory
    change w name (result, { d with memory := m }.drop)
  | @setRecord _ _ name a => onMessage w name fun x => change w name (x.setRecord a w.memory)

end MessageOp

end Tandem
