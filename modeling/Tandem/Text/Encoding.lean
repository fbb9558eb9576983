import Tandem.Bytes
import Tandem.Misuse
import Tandem.Text.Utf16

/-!
# Text encodings

Text travels as UTF-16 in either byte order or as UTF-8.  `encode` gives the bytes of a text, `fill`
puts them in the place of others and `decode?` gives the text of bytes; bytes that are not the
encoding of any text are refused.
-/

namespace Tandem

/-- How text is laid out in bytes. -/
inductive Encoding where
  | utf16le
  | utf16be
  | utf8
  deriving DecidableEq, Repr, Inhabited

namespace Encoding

/-- Little-endian UTF-16 is used where nothing else was asked for. -/
def standard : Encoding := .utf16le

/-- The name under which error texts mention an encoding. -/
def label : Encoding → String
  | .utf16le => "Utf16Le"
  | .utf16be => "Utf16Be"
  | .utf8 => "Utf8"

/-- The bytes of one code unit, low byte first. -/
def unitBytesLE (u : UInt16) : Bytes := [UInt8.ofNat u.toNat, UInt8.ofNat (u.toNat / 256)]

/-- The bytes of one code unit, high byte first. -/
def unitBytesBE (u : UInt16) : Bytes := [UInt8.ofNat (u.toNat / 256), UInt8.ofNat u.toNat]

/-- The code units in a byte string, low byte first; `none` if a byte is left over. -/
def unitsLE? : Bytes → Option (List UInt16)
  | [] => some []
  | [_] => none
  | lo :: hi :: bs => (unitsLE? bs).map (UInt16.ofNat (hi.toNat * 256 + lo.toNat) :: ·)

/-- The code units in a byte string, high byte first; `none` if a byte is left over. -/
def unitsBE? : Bytes → Option (List UInt16)
  | [] => some []
  | [_] => none
  | hi :: lo :: bs => (unitsBE? bs).map (UInt16.ofNat (hi.toNat * 256 + lo.toNat) :: ·)

/-- The number of bytes that a text takes. -/
def byteCount (e : Encoding) (s : String) : Nat :=
  match e with
  | .utf16le | .utf16be => 2 * (Utf16.encode s.toList).length
  | .utf8 => s.utf8ByteSize

/-- The bytes of a text. -/
def encode (e : Encoding) (s : String) : Bytes :=
  match e with
  | .utf16le => (Utf16.encode s.toList).flatMap unitBytesLE
  | .utf16be => (Utf16.encode s.toList).flatMap unitBytesBE
  | .utf8 => s.toByteArray.data.toList

/-- Puts code units in the place of pairs of bytes, until one or the other runs out. -/
def fillUnits (unitBytes : UInt16 → Bytes) : List UInt16 → Bytes → Bytes
  | u :: us, _ :: _ :: room => unitBytes u ++ fillUnits unitBytes us room
  | _, room => room

/-- Puts the bytes of a text in the place of `room`, of which there are to be `byteCount` bytes. -/
def fill (e : Encoding) (s : String) (room : Bytes) : Except Misuse Bytes :=
  match e with
  | .utf16le => .ok (fillUnits unitBytesLE (Utf16.encode s.toList) room)
  | .utf16be => .ok (fillUnits unitBytesBE (Utf16.encode s.toList) room)
  | .utf8 =>
    if room.length = s.utf8ByteSize then .ok s.toByteArray.data.toList else .error .outOfRange

/-- The text whose encoding the given bytes are, if there is one. -/
def decode? (e : Encoding) (bs : Bytes) : Option String :=
  match e with
  | .utf16le => ((unitsLE? bs).bind Utf16.decode?).map String.ofList
  | .utf16be => ((unitsBE? bs).bind Utf16.decode?).map String.ofList
  | .utf8 => String.fromUTF8? ⟨bs.toArray⟩

end Encoding

end Tandem
