import Tandem.Bytes

/-!
# Message headers

On the wire a message is a header followed by its payload.  The header is a byte of flags, a
two-byte tag and, if the flags mark a ping or the acknowledgement of one, a two-byte code that
relates the two.
-/

namespace Tandem

namespace Flags

/-- Marks commands. -/
def command : UInt8 := 0x80

/-- Marks pings and their acknowledgements. -/
def ping : UInt8 := 0x40

/-- Tells an acknowledgement from a ping. -/
def acknowledgement : UInt8 := 0x20

/-- Whether any of the bits in `mask` is set. -/
def has (flags mask : UInt8) : Bool := flags &&& mask != 0

end Flags

/-- What precedes a payload. -/
structure Header where
  flags : UInt8
  tag : UInt16
  /-- means something only in pings and acknowledgements -/
  code : UInt16
  deriving DecidableEq, Repr, Inhabited

/-- A byte string that ends within its header. -/
structure Truncated where
  length : Nat
  headerLength : Nat
  deriving DecidableEq, Repr

namespace Header

/-- The length of a header without a code. -/
def baseLength : Nat := 3

/-- The length of a header with a code. -/
def codedLength : Nat := 5

def hasCode (h : Header) : Bool := Flags.has h.flags Flags.ping

/-- Whether a header asks for an acknowledgement. -/
def isPing (h : Header) : Bool :=
  Flags.has h.flags Flags.ping && !Flags.has h.flags Flags.acknowledgement

/-- Whether a header acknowledges a ping. -/
def isAcknowledgement (h : Header) : Bool :=
  Flags.has h.flags Flags.ping && Flags.has h.flags Flags.acknowledgement

/-- The number of bytes that a header takes. -/
def length (h : Header) : Nat := if h.hasCode then codedLength else baseLength

/-- The bytes of a header. -/
def encode (h : Header) : Bytes :=
  h.flags :: Bytes.bigEndian 2 h.tag.toNat ++
    if h.hasCode then Bytes.bigEndian 2 h.code.toNat else []

/-- A two-byte number. -/
def word (high low : UInt8) : UInt16 := UInt16.ofNat (Bytes.ofBigEndian [high, low])

/-- The header that a byte string starts with. -/
def decode (bs : Bytes) : Except Truncated Header :=
  match bs with
  | flags :: t₁ :: t₀ :: rest =>
    let h : Header := ⟨flags, word t₁ t₀, 0⟩
    if h.hasCode then
      match rest with
      | c₁ :: c₀ :: _ => .ok { h with code := word c₁ c₀ }
      | _ => .error ⟨bs.length, codedLength⟩
    else .ok h
  | _ => .error ⟨bs.length, baseLength⟩

@[simp] theorem length_encode (h : Header) : h.encode.length = h.length := by
  unfold encode length
  split <;> simp [baseLength, codedLength]

end Header

end Tandem
