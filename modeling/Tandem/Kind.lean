import Tandem.Misuse
import Tandem.Scalar
import Tandem.Text.Encoding

/-!
# Value kinds

The kinds of values that can be written and read, and the bytes of each.  Strings carry the length
of their encoding in bytes, arrays the number of their elements and packed truth values the number
of bits; all three are signed 32-bit numbers, so what is counted must number less than 2^31
(`Kind.Fits`).  A value is laid out in one or more stretches; a writer makes room for a stretch at a
time.
-/

namespace Tandem

/-- The kinds of values on the wire. -/
inductive Kind where
  | bool
  | scalar (k : ScalarKind)
  | char
  | str
  /-- a string in an encoding of its own -/
  | strIn (e : Encoding)
  /-- characters, written as one string -/
  | chars
  | bytes
  /-- a given number of bytes, without a length -/
  | raw (n : Nat)
  | bools
  | scalars (k : ScalarKind)
  | strs
  deriving DecidableEq, Repr

namespace Kind

/-- The values of a kind. -/
abbrev Value : Kind → Type
  | bool => Bool
  | scalar k => Scalar k
  | char => Char
  | str => String
  | strIn _ => String
  | chars => List Char
  | bytes => Bytes
  | raw n => { bs : Bytes // bs.length = n }
  | bools => List Bool
  | scalars k => List (Scalar k)
  | strs => List String

/-- A count in front of what it counts. -/
def count (n : Nat) : Bytes := Bytes.bigEndian 4 n

/-- A string with the length of its encoding. -/
def text (e : Encoding) (s : String) : Bytes :=
  let bs := e.encode s
  count bs.length ++ bs

/-- The stretches that a value is laid out in, where strings are written as `e` says. -/
def layout (e : Encoding) : (k : Kind) → k.Value → List Bytes
  | bool, b => [[if b then 1 else 0]]
  | scalar _, x => [Scalar.encode x]
  | char, c => [text e (String.singleton c)]
  | str, s => [text e s]
  | strIn e', s => [text e' s]
  | chars, cs => [text e (String.ofList cs)]
  | bytes, bs => [count bs.length ++ bs]
  | raw _, bs => [bs.1]
  | bools, bs => [count bs.length ++ Bytes.packBits bs]
  | scalars _, xs => [count xs.length ++ xs.flatMap Scalar.encode]
  | strs, ss => count ss.length :: ss.map (text e)

/-- The bytes of a value. -/
def encode (e : Encoding) (k : Kind) (v : k.Value) : Bytes := (k.layout e v).flatten

/-- The largest count. -/
def maxCount : Nat := 0x7fffffff

/-- A number as a count, unless it is too large for one. -/
def checkedCount (n : Nat) : Except Misuse Nat := if n ≤ maxCount then .ok n else .error .outOfRange

/-- Everything that is counted in a value numbers at most `maxCount`. -/
def Fits (e : Encoding) : (k : Kind) → k.Value → Prop
  | bool, _ => True
  | scalar _, _ => True
  | char, _ => True
  | str, s => e.byteCount s ≤ maxCount
  | strIn e', s => e'.byteCount s ≤ maxCount
  | chars, cs => e.byteCount (String.ofList cs) ≤ maxCount
  | bytes, bs => bs.length ≤ maxCount
  | raw _, _ => True
  | bools, bs => bs.length ≤ maxCount
  | scalars _, xs => xs.length ≤ maxCount
  | strs, ss => ss.length ≤ maxCount ∧ ∀ s ∈ ss, e.byteCount s ≤ maxCount

end Kind

end Tandem
