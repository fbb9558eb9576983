import Tandem.Kind
import Tandem.View

/-!
# Reading

Reading takes values off the front of a byte string.  Every read looks first whether the bytes it
needs are there, so that a read that fails takes nothing; a read made of several reads is `atomic`
to the same end.  `Read` is the type of such reads: they end in a value or an error and say what is
left.
-/

namespace Tandem

/-- Why a read fails. -/
inductive ReadError where
  /-- fewer bytes are left than are needed -/
  | endOfData (expected remaining : Nat)
  /-- a count below zero -/
  | negativeLength (n : Int)
  /-- bytes that are not text, or not one character where one is due -/
  | invalidText (e : Encoding)
  deriving DecidableEq, Repr

def ReadError.message : ReadError → String
  | endOfData expected remaining =>
    s!"expected {expected} bytes but reader only has {remaining} bytes remaining"
  | negativeLength n => s!"length prefix is negative: {n}"
  | invalidText e =>
    let label := e.label
    s!"data is not valid {label} text"

/-- What is left to be read, and how strings are read. -/
structure Cursor where
  rest : Bytes
  encoding : Encoding
  deriving DecidableEq, Repr, Inhabited

/-- A read of an `α`. -/
structure Read (α : Type) where
  run : Cursor → Except ReadError α × Cursor

namespace Read

variable {α β : Type}

/-- Reads nothing. -/
def value (a : α) : Read α := ⟨fun c => (.ok a, c)⟩

/-- Fails. -/
def fail (e : ReadError) : Read α := ⟨fun c => (.error e, c)⟩

/-- One read after another; the second one depends on what the first one gave. -/
def andThen (r : Read α) (f : α → Read β) : Read β :=
  ⟨fun c =>
    match r.run c with
    | (.ok a, c) => (f a).run c
    | (.error e, c) => (.error e, c)⟩

instance : Monad Read where
  pure := value
  bind := andThen

/-- Takes nothing if `r` fails. -/
def atomic (r : Read α) : Read α :=
  ⟨fun c =>
    match r.run c with
    | (.ok a, c') => (.ok a, c')
    | (.error e, c') => (.error e, { c' with rest := c.rest })⟩

/-- The rounds of `times`, onto what was read before. -/
def timesOnto (r : Read α) : Nat → List α → Cursor → Except ReadError (List α) × Cursor
  | 0, as, c => (.ok as.reverse, c)
  | n + 1, as, c =>
    match r.run c with
    | (.ok a, c) => timesOnto r n (a :: as) c
    | (.error e, c) => (.error e, c)

/-- Reads `n` values, one after the other. -/
def times (n : Nat) (r : Read α) : Read (List α) := ⟨timesOnto r n []⟩

/-! ### Bytes and counts -/

/-- How strings are read. -/
def encoding : Read Encoding := ⟨fun c => (.ok c.encoding, c)⟩

/-- Reads strings in another way from now on. -/
def setEncoding (e : Encoding) : Read Unit := ⟨fun c => (.ok (), { c with encoding := e })⟩

/-- The next `n` bytes. -/
def take (n : Nat) : Read Bytes :=
  ⟨fun c =>
    if c.rest.lacks n then (.error (.endOfData n c.rest.length), c)
    else (.ok (c.rest.take n), { c with rest := c.rest.drop n })⟩

/-- A count, which must not be negative and must leave the `size count` bytes that it announces. -/
def count (size : Nat → Nat) : Read Nat :=
  ⟨fun c =>
    if c.rest.lacks 4 then (.error (.endOfData 4 c.rest.length), c)
    else
      let n := (Scalar.decode .i32 (c.rest.take 4)).toInt
      let rest : Bytes := c.rest.drop 4
      if n < 0 then (.error (.negativeLength n), c)
      else
        let n := n.toNat
        -- what is announced lies behind the count
        if rest.lacks (size n) then (.error (.endOfData (size n) rest.length), c)
        else (.ok n, { c with rest })⟩

/-! ### Values -/

/-- A scalar. -/
def scalar (k : ScalarKind) : Read (Scalar k) := do
  let bs ← take k.size
  pure (Scalar.decode k bs)

/-- A truth value; only the byte 1 is true. -/
def bool : Read Bool := do
  let b ← scalar .u8
  pure (b = 1)

/-- A string in a given encoding. -/
def strIn (e : Encoding) : Read String := atomic do
  let n ← count id
  let bs ← take n
  match e.decode? bs with
  | some s => pure s
  | none => fail (.invalidText e)

/-- A string. -/
def str : Read String := do strIn (← encoding)

/-- A string of exactly one character. -/
def char : Read Char := atomic do
  match (← str).toList with
  | [c] => pure c
  | _ => fail (.invalidText (← encoding))

/-- The characters of a string. -/
def chars : Read (List Char) := do pure (← str).toList

/-- Bytes with a count. -/
def bytes : Read Bytes := do take (← count id)

/-- A given number of bytes. -/
def raw (n : Nat) : Read Bytes := take n

/-- Packed truth values. -/
def bools : Read (List Bool) := do
  let n ← count Bytes.octetCount
  let bs ← take (Bytes.octetCount n)
  pure (bs.unpackBits n)

/-- An array of scalars. -/
def scalars (k : ScalarKind) : Read (List (Scalar k)) := do
  let n ← count (· * k.size)
  let bs ← take (n * k.size)
  pure (Scalar.decodeMany k n bs)

/-- An array of strings; each has at least its count. -/
def strs : Read (List String) := atomic do
  let n ← count (· * 4)
  times n str

/-- Exactly `n` bytes. -/
def rawOf (n : Nat) : Read { bs : Bytes // bs.length = n } := do
  let bs ← raw n
  if h : bs.length = n then pure ⟨bs, h⟩ else fail (.endOfData n bs.length)

end Read

/-- A value of a kind. -/
def Kind.read : (k : Kind) → Read k.Value
  | bool => Read.bool
  | scalar k => Read.scalar k
  | char => Read.char
  | str => Read.str
  | strIn e => Read.strIn e
  | chars => Read.chars
  | bytes => Read.bytes
  | raw n => Read.rawOf n
  | bools => Read.bools
  | scalars k => Read.scalars k
  | strs => Read.strs

/-- A reader over a view, at a position in it. -/
structure Reader where
  view : View
  position : Nat
  encoding : Encoding
  deriving Repr, Inhabited

namespace Reader

/-- A reader at the start of a view. -/
def ofView (v : View) : Reader := ⟨v, 0, .standard⟩

def length (r : Reader) : Nat := r.view.length

/-- The number of bytes behind the position. -/
def remaining (r : Reader) : Nat := r.length - r.position

/-- The bytes behind the position. -/
def rest (r : Reader) (m : Memory) : Bytes := (r.view.bytes m).drop r.position

/-- Goes to a position not behind the end. -/
def setPosition (r : Reader) (p : Nat) : Except Misuse Reader :=
  if p ≤ r.length then .ok { r with position := p }
  else .error (.readerPosition p r.length)

/-- Skips `n` bytes, which must be there. -/
def skip (r : Reader) (n : Nat) : Except Misuse Reader :=
  if n ≤ r.remaining then .ok { r with position := r.position + n }
  else .error .outOfRange

def setEncoding (r : Reader) (e : Encoding) : Reader := { r with encoding := e }

/-- What a reader has before it. -/
def cursor (r : Reader) (m : Memory) : Cursor := ⟨r.rest m, r.encoding⟩

/-- A reader that has got as far as a cursor. -/
def reach (r : Reader) (c : Cursor) : Reader :=
  { r with position := r.length - c.rest.length, encoding := c.encoding }

/-- Carries out a read on the bytes of the view. -/
def read {α : Type} (r : Reader) (p : Read α) (m : Memory) : Except ReadError α × Reader :=
  let (result, c) := p.run (r.cursor m)
  (result, r.reach c)

/-- Carries out a read of a list and adds what it gives to an existing one. -/
def readOnto {α : Type} (r : Reader) (p : Read (List α)) (as : List α) (m : Memory) :
    (Except ReadError Unit × List α) × Reader :=
  match r.read p m with
  | (.ok bs, r) => ((.ok (), as ++ bs), r)
  | (.error e, r) => ((.error e, as), r)

/-- Lets go of the reader's view. -/
def drop (r : Reader) (m : Memory) : Memory := r.view.drop m

end Reader

end Tandem
