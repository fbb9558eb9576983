import Tandem.Kind
import Tandem.View

/-!
# Writing

A writer fills a view from a cursor on.  The cursor can be moved back to overwrite what was written
before; the length is the highest position ever written to, so moving the cursor back truncates
nothing.  The room grows on demand, at least twofold.  `Writer.share` hands out a view of what was
written, which later writing leaves alone.
-/

namespace Tandem

/-- A view being filled. -/
structure Writer where
  view : View
  /-- where the next byte goes -/
  position : Nat
  /-- how strings are written -/
  encoding : Encoding
  deriving Repr, Inhabited

namespace Writer

/-- The room a writer starts with where nothing else was asked for, and the least room it makes
when bytes arrive one by one. -/
def standardRoom : Nat := 16

/-- A writer with room for `room` bytes. -/
def create (room : Nat) (e : Encoding) (m : Memory) : Writer × Memory :=
  let (v, m) := View.create room m
  (⟨v, 0, e⟩, m)

def length (w : Writer) : Nat := w.view.length

def capacity (w : Writer) (m : Memory) : Nat := w.view.capacity m

/-- What was written so far. -/
def bytes (w : Writer) (m : Memory) : Bytes := w.view.bytes m

/-- How many bytes could be put at the cursor before positions run out. -/
def remaining (w : Writer) : Nat := Memory.maxLength - w.position

/-- Moves the cursor to a position not behind the end. -/
def setPosition (w : Writer) (p : Nat) : Except Misuse Writer :=
  if p ≤ w.length then .ok { w with position := p } else .error (.writerPosition p w.length)

def setEncoding (w : Writer) (e : Encoding) : Writer := { w with encoding := e }

/-- Makes room for `n` bytes at the cursor. -/
def makeRoom (w : Writer) (n : Nat) (m : Memory) : Writer × Memory :=
  let required := w.position + n
  let room := w.capacity m
  if room < required then
    let (v, m) := w.view.ensure (max required (2 * room)) m
    ({ w with view := v }, m)
  else (w, m)

/-- Moves the cursor over `n` bytes just filled. -/
def moveOver (w : Writer) (n : Nat) (m : Memory) : Writer × Memory :=
  let p := w.position + n
  if w.length < p then
    let (v, m) := w.view.setLength p m
    ({ w with view := v, position := p }, m)
  else ({ w with position := p }, m)

/-- Overwrites what is at the cursor, within the room there is, and moves behind it. -/
def fill (w : Writer) (bs : Bytes) (m : Memory) : Writer × Memory :=
  let (v, m) := w.view.write w.position bs m
  { w with view := v }.moveOver bs.length m

/-- One round of `put`: makes room if the cursor is at the end of it, and fills as much of the room
as there are bytes; also gives the bytes that are left. -/
def putRound (w : Writer) (bs : Bytes) (m : Memory) : Bytes × Writer × Memory :=
  -- room is made only at the very end of what there is
  let (w, m) := if w.position = w.capacity m then w.makeRoom standardRoom m else (w, m)
  -- moving to an array of its own may change the room that a shared view has
  let (v, m) := w.view.own m
  let n := v.capacity m - w.position
  (bs.drop n, { w with view := v }.fill (bs.take n) m)

/-- At most `rounds` rounds. -/
def putRounds : Nat → Writer → Bytes → Memory → Writer × Memory
  | 0, w, _, m => (w, m)
  | _ + 1, w, [], m => (w, m)
  | n + 1, w, b :: bs, m =>
    let (rest, w, m) := w.putRound (b :: bs) m
    putRounds n w rest m

/-- Puts bytes at the cursor, filling the room there is before making more.  Each round puts at
least one byte. -/
def put (w : Writer) (bs : Bytes) (m : Memory) : Writer × Memory := putRounds bs.length w bs m

/-- Writes a stretch of bytes, for all of which room is made first. -/
def append (w : Writer) (bs : Bytes) (m : Memory) : Writer × Memory :=
  let (w, m) := w.makeRoom bs.length m
  w.put bs m

/-- Writes stretches of bytes one after the other. -/
def appendAll (w : Writer) : List Bytes → Memory → Writer × Memory
  | [], m => (w, m)
  | bs :: rest, m =>
    let (w, m) := w.append bs m
    w.appendAll rest m

/-- Writes a value. -/
def write (w : Writer) (k : Kind) (v : k.Value) (m : Memory) : Writer × Memory :=
  w.appendAll (k.layout w.encoding v) m

/-- Writes `n` zero bytes, to be overwritten later, and gives their position. -/
def reserve (w : Writer) (n : Nat) (m : Memory) : Nat × Writer × Memory :=
  let p := w.position
  let (w, m) := w.makeRoom n m
  (p, w.fill (.zeros n) m)

/-- A view of what was written, sharing the writer's array. -/
def share (w : Writer) (m : Memory) : View × Memory := (w.view, w.view.clone m)

/-- Lets go of the writer's view. -/
def drop (w : Writer) (m : Memory) : Memory := w.view.drop m

end Writer

end Tandem
