import Tandem.Writer
import Tandem.Reader

/-!
# Application types

A type takes part in messages by saying how its values are written and read.  Reading a value, or
an array of values, is atomic: a failure takes nothing.  A value can also be read into an
existing one, which may keep parts of it; after a failure that value may be partly overwritten.
-/

namespace Tandem

/-- Types whose values can be written and read. -/
class Serializable (α : Type) where
  serialize : α → Writer → Memory → Writer × Memory
  deserialize : Read α
  /-- Reads into an existing value; what has become of it is given also after a failure. -/
  deserializeInto : α → Cursor → (Except ReadError Unit × α) × Cursor := fun a c =>
    match deserialize.run c with
    | (.ok b, c) => ((.ok (), b), c)
    | (.error e, c) => ((.error e, a), c)

variable {α : Type} [Serializable α]

namespace Writer

/-- Writes the values of an array, one after the other. -/
def writeEach (w : Writer) : List α → Memory → Writer × Memory
  | [], m => (w, m)
  | a :: as, m =>
    let (w, m) := Serializable.serialize a w m
    w.writeEach as m

/-- Writes a value of an application type. -/
def writeRecord (w : Writer) (a : α) (m : Memory) : Writer × Memory := Serializable.serialize a w m

/-- Writes an array of such values: their number, then each. -/
def writeRecords (w : Writer) (as : List α) (m : Memory) : Writer × Memory :=
  let (w, m) := w.append (Kind.count as.length) m
  w.writeEach as m

end Writer

namespace Read

/-- A value of an application type. -/
def record (α : Type) [Serializable α] : Read α := atomic Serializable.deserialize

/-- An array of `r`s: their number, then each. -/
def arrayOf {β : Type} (r : Read β) : Read (List β) := atomic do
  let n ← count fun _ => 0
  times n r

/-- An array of values of an application type. -/
def records (α : Type) [Serializable α] : Read (List α) := arrayOf Serializable.deserialize

/-- Reads into an existing value. -/
def recordInto (a : α) (c : Cursor) : (Except ReadError Unit × α) × Cursor :=
  match Serializable.deserializeInto a c with
  | ((.ok (), a), c') => ((.ok (), a), c')
  | ((.error e, a), c') => ((.error e, a), { c' with rest := c.rest })

end Read

/-- Reads into an existing value from the bytes of a reader's view. -/
def Reader.readInto (r : Reader) (a : α) (m : Memory) : (Except ReadError Unit × α) × Reader :=
  let (result, c) := Read.recordInto a (r.cursor m)
  (result, r.reach c)

end Tandem
