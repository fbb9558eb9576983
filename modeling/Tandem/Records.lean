import Tandem.Serializable

/-!
# Some application types

Three types that show the ways of taking part in messages: fields one after the other (`Point`), a
type that holds arrays of itself (`Tree`), and a type that keeps what it already holds when it is
read into (`Bag`).
-/

namespace Tandem

/-- A labelled number. -/
structure Point where
  x : Scalar .i32
  label : String
  deriving DecidableEq, Repr, Inhabited

instance : Serializable Point where
  serialize p w m :=
    let (w, m) := w.write (.scalar .i32) p.x m
    w.write .str p.label m
  deserialize := do
    let x ← Read.scalar .i32
    let label ← Read.str
    pure ⟨x, label⟩

/-- A number with trees below it. -/
inductive Tree where
  | node (value : Scalar .u8) (children : List Tree)
  deriving Repr, Inhabited

namespace Tree

mutual

/-- Writes the number, then the trees below it as an array. -/
def write : Tree → Writer → Memory → Writer × Memory
  | node v ts, w, m =>
    let (w, m) := w.write (.scalar .u8) v m
    let (w, m) := w.append (Kind.count ts.length) m
    writeAll ts w m

/-- Writes trees one after the other. -/
def writeAll : List Tree → Writer → Memory → Writer × Memory
  | [], w, m => (w, m)
  | t :: ts, w, m =>
    let (w, m) := t.write w m
    writeAll ts w m

end

/-- Reads a tree of at most the given depth. -/
def readUpTo : Nat → Read Tree
  | 0 => .fail (.endOfData 1 0)
  | depth + 1 => do
    let v ← Read.scalar .u8
    let ts ← Read.arrayOf (readUpTo depth)
    pure (node v ts)

/-- Reads a tree.  Every level takes a byte of the data, so there is no need to go deeper than
there are bytes. -/
def read : Read Tree := ⟨fun c => (readUpTo (c.rest.length + 1)).run c⟩

end Tree

instance : Serializable Tree where
  serialize := Tree.write
  deserialize := Tree.read

/-- Numbers with a name. -/
structure Bag where
  numbers : List (Scalar .u32)
  name : String
  deriving DecidableEq, Repr, Inhabited

namespace Bag

/-- Reading into a bag adds to its numbers before it replaces the name. -/
def readInto (b : Bag) (c : Cursor) : (Except ReadError Unit × Bag) × Cursor :=
  match (Read.scalars .u32).run c with
  | (.error e, c) => ((.error e, b), c)
  | (.ok xs, c) =>
    let b := { b with numbers := b.numbers ++ xs }
    match Read.str.run c with
    | (.error e, c) => ((.error e, b), c)
    | (.ok name, c) => ((.ok (), { b with name }), c)

end Bag

instance : Serializable Bag where
  serialize b w m :=
    let (w, m) := w.write (.scalars .u32) b.numbers m
    w.write .str b.name m
  deserialize := ⟨fun c =>
    match Bag.readInto ⟨[], ""⟩ c with
    | ((.ok (), b), c) => (.ok b, c)
    | ((.error e, _), c) => (.error e, c)⟩
  deserializeInto := Bag.readInto

end Tandem
