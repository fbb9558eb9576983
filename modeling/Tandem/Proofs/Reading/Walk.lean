import Tandem.Reader
import Tandem.Serializable
import Tandem.Proofs.Sharing.Cursors

/-!
# Reading step by step

`Read` takes values off a byte string, which has no outside.  `Walk` goes through the byte string as
a reader does: by position, a byte or a stretch at a time, without another look at whether they are
there.  An access outside of the byte string has no outcome at all (`none`).  Every read of a reader
is written down here once more in this form; `Walk.Follows` is what relates the two.
-/

namespace Tandem

/-- A read that goes by positions; `none` if it leaves the byte string. -/
structure Walk (α : Type) where
  run : Page → Option (Except ReadError α × Page)

namespace Walk

variable {α β : Type}

/-- Reads nothing. -/
def value (a : α) : Walk α := ⟨fun p => some (.ok a, p)⟩

/-- Fails where it is. -/
def fail (e : ReadError) : Walk α := ⟨fun p => some (.error e, p)⟩

/-- Leaves the byte string. -/
def astray : Walk α := ⟨fun _ => none⟩

/-- One walk after another. -/
def andThen (w : Walk α) (f : α → Walk β) : Walk β :=
  ⟨fun p =>
    match w.run p with
    | none => none
    | some (.ok a, p) => (f a).run p
    | some (.error e, p) => some (.error e, p)⟩

instance : Monad Walk where
  pure := value
  bind := andThen

/-- Goes back to where it started if `w` fails. -/
def rewind (w : Walk α) : Walk α :=
  ⟨fun p =>
    match w.run p with
    | none => none
    | some (.ok a, p') => some (.ok a, p')
    | some (.error e, p') => some (.error e, { p' with position := p.position })⟩

/-- The rounds of `times`, onto what was read before. -/
def timesOnto (w : Walk α) : Nat → List α → Walk (List α)
  | 0, as => value as.reverse
  | n + 1, as => w.andThen fun a => timesOnto w n (a :: as)

/-- Reads `n` values, one after the other. -/
def times (n : Nat) (w : Walk α) : Walk (List α) := timesOnto w n []

/-! ### Accesses -/

def position : Walk Nat := ⟨fun p => some (.ok p.position, p)⟩

def encoding : Walk Encoding := ⟨fun p => some (.ok p.encoding, p)⟩

def setEncoding (e : Encoding) : Walk Unit := ⟨fun p => some (.ok (), { p with encoding := e })⟩

/-- Goes to a position without looking whether it is within the byte string. -/
def goTo (n : Nat) : Walk Unit := ⟨fun p => some (.ok (), { p with position := n })⟩

/-- The number of bytes behind the position, which must not be behind the end. -/
def remaining : Walk Nat :=
  ⟨fun p =>
    if p.position ≤ p.content.length then some (.ok (p.content.length - p.position), p) else none⟩

/-- The stretch of `n` bytes from position `start` on, which must all be there. -/
def stretch (start n : Nat) : Walk Bytes :=
  ⟨fun p =>
    if start + n ≤ p.content.length then some (.ok (p.content.slice start n), p) else none⟩

/-- The next `n` bytes, which must be there. -/
def get (n : Nat) : Walk Bytes := do
  let start ← position
  let bs ← stretch start n
  goTo (start + n)
  pure bs

/-- Looks whether `n` bytes are left. -/
def check (n : Nat) : Walk Unit := do
  let left ← remaining
  if left < n then fail (.endOfData n left)

/-- The difference of two numbers, of which the second one must not be larger. -/
def less (a b : Nat) : Walk Nat := if b ≤ a then value (a - b) else astray

/-- The largest number of 64 bits. -/
def maxWord : Nat := 0xffffffffffffffff

/-- A product that stops at the largest number of 64 bits. -/
def saturatingMul (a b : Nat) : Nat := min (a * b) maxWord

/-- A count; `size` says how many bytes it announces.  These must be there, but are not taken. -/
def count (size : Nat → Nat) : Walk Nat := do
  check 4
  let start ← position
  let digits ← stretch start 4
  let n := (Scalar.decode .i32 digits).toInt
  if n < 0 then fail (.negativeLength n)
  else
    let left ← remaining
    let available ← less left 4
    let required := size n.toNat
    if available < required then fail (.endOfData required available)
    else
      goTo (start + 4)
      pure n.toNat

/-! ### Values one at a time -/

/-- A scalar whose bytes are known to be there. -/
def getScalar (k : ScalarKind) : Walk (Scalar k) := do
  let bs ← get k.size
  pure (Scalar.decode k bs)

def scalar (k : ScalarKind) : Walk (Scalar k) := do
  check k.size
  getScalar k

def bool : Walk Bool := do
  let b ← scalar .u8
  pure (b = 1)

def strIn (e : Encoding) : Walk String := do
  let start ← position
  let n ← count id
  let textStart ← position
  let bs ← stretch textStart n
  match e.decode? bs with
  | some s =>
    goTo (textStart + n)
    pure s
  | none =>
    goTo start
    fail (.invalidText e)

def str : Walk String := do strIn (← encoding)

def char : Walk Char := do
  let start ← position
  let s ← str
  match s.toList with
  | [c] => pure c
  | _ =>
    goTo start
    fail (.invalidText (← encoding))

def chars : Walk (List Char) := do pure (← str).toList

def raw (n : Nat) : Walk Bytes := do
  check n
  let start ← position
  goTo (start + n)
  stretch start n

/-- Exactly `n` bytes. -/
def rawOf (n : Nat) : Walk { bs : Bytes // bs.length = n } := do
  let bs ← raw n
  if h : bs.length = n then pure ⟨bs, h⟩ else astray

/-- Each string has at least its count. -/
def strs : Walk (List String) := rewind do
  let n ← count (saturatingMul · 4)
  times n str

/-- An array of `w`s: their number, then each. -/
def arrayOf (w : Walk β) : Walk (List β) := rewind do
  let n ← count fun _ => 0
  times n w

/-! ### Values onto existing ones -/

/-- Adds values to existing ones.  These are changed while it goes on. -/
abbrev Fill (β : Type) : Type := List β → Page → Option ((Except ReadError Unit × List β) × Page)

/-- Adds what a count announces; `push` adds that many values, whose bytes are known to be there. -/
def fill (size : Nat → Nat) (push : Nat → List β → Walk (List β)) : Fill β := fun dest p =>
  match (count size).run p with
  | none => none
  | some (.error e, p) => some ((.error e, dest), p)
  | some (.ok n, p) =>
    match (push n dest).run p with
    | some (.ok dest, p) => some ((.ok (), dest), p)
    -- what is pushed cannot be refused any more
    | _ => none

/-- Adds to nothing. -/
def ofFill (f : Fill β) : Walk (List β) :=
  ⟨fun p =>
    match f [] p with
    | none => none
    | some ((.error e, _), p) => some (.error e, p)
    | some ((.ok (), bs), p) => some (.ok bs, p)⟩

def pushBytes (n : Nat) (dest : Bytes) : Walk Bytes := do
  let bs ← get n
  pure (dest ++ bs)

def pushScalars (k : ScalarKind) : Nat → List (Scalar k) → Walk (List (Scalar k))
  | 0, dest => pure dest
  | n + 1, dest => do
    let x ← getScalar k
    pushScalars k n (dest ++ [x])

/-- The bits of the next bytes; the last one may have more bits than are left. -/
def pushBits : Nat → List Bool → Walk (List Bool)
  | 0, dest => pure dest
  | n + 1, dest => do
    let bs ← get 1
    pushBits (n + 1 - 8) (dest ++ (bs.flatMap Bytes.octetBits).take (min (n + 1) 8))

def bytesOnto : Fill UInt8 := fill id pushBytes

def scalarsOnto (k : ScalarKind) : Fill (Scalar k) := fill (saturatingMul · k.size) (pushScalars k)

def boolsOnto : Fill Bool := fill Bytes.octetCount pushBits

end Walk

/-- A value of a kind. -/
def Kind.walk : (k : Kind) → Walk k.Value
  | bool => Walk.bool
  | scalar k => Walk.scalar k
  | char => Walk.char
  | str => Walk.str
  | strIn e => Walk.strIn e
  | chars => Walk.chars
  | bytes => Walk.ofFill Walk.bytesOnto
  | raw n => Walk.rawOf n
  | bools => Walk.ofFill Walk.boolsOnto
  | scalars k => Walk.ofFill (Walk.scalarsOnto k)
  | strs => Walk.strs

end Tandem
