import Tandem.Scalar

/-!
# Handshake messages

A server sends a new client a token over the stream, behind the version of the protocol; the client
sends the same nine bytes back in a datagram, and the server greets it with a datagram that starts
with the token.  The greeting is padded because datagrams shorter than twelve bytes do not get
everywhere.  A message is taken off a byte string piece by piece, which also says how many bytes
were used up, whether it succeeds or not.
-/

namespace Tandem

/-- What proves that a stream and a datagram endpoint belong to the same client. -/
abbrev Token := Scalar .i64

namespace Handshake

/-- The version of the protocol. -/
def version : UInt8 := 0

/-- The length of a token message. -/
def tokenLength : Nat := 9

/-- The length of a greeting. -/
def helloLength : Nat := 12

/-- Why bytes are not a handshake message. -/
inductive Malformed where
  | tooShort (requested available : Nat)
  | unsupportedVersion (v : UInt8)
  | shortHello (length : Nat)
  deriving DecidableEq, Repr

def Malformed.message : Malformed → String
  | tooShort requested available =>
    "Not enough bytes remaining in buffer to read value (requested " ++ toString requested ++
      " but only " ++ toString available ++ " available)"
  | unsupportedVersion v =>
    let n := v.toNat
    s!"unsupported protocol version {n}"
  | shortHello n => s!"hello message has {n} bytes, expected at least {helloLength}"

/-! ### Taking things off a byte string -/

/-- Takes something off the front of a byte string.  What was used up stays so when the rest is not
what it should be. -/
abbrev Take (α : Type) := ExceptT Malformed (StateM Bytes) α

/-- What is taken off a byte string, and the number of bytes used up. -/
def Take.off {α : Type} (take : Take α) (bs : Bytes) : Except Malformed α × Nat :=
  let (result, rest) := take bs
  (result, bs.length - rest.length)

/-- A byte; nothing is used up if there is none. -/
def byte : Take UInt8
  | [] => (.error (.tooShort 1 0), [])
  | b :: rest => (.ok b, rest)

/-- A number of eight bytes; nothing is used up if there are not so many. -/
def number : Take Token := fun bs =>
  if bs.length < 8 then (.error (.tooShort 8 bs.length), bs)
  else (.ok (Scalar.decode .i64 (bs.take 8)), bs.drop 8)

/-! ### Messages -/

/-- The token message. -/
def encodeToken (t : Token) : Bytes := version :: t.encode

/-- A token behind the version. -/
def token : Take Token := do
  let v ← byte
  if v = version then number else throw (.unsupportedVersion v)

/-- Takes a token off a byte string; also gives the number of bytes used up. -/
def takeToken : Bytes → Except Malformed Token × Nat := token.off

/-- The token that a datagram echoes; it must have exactly the length of a token message. -/
def tokenOfDatagram? (bs : Bytes) : Option Token :=
  if bs.length = tokenLength then (takeToken bs).1.toOption else none

/-- The greeting. -/
def encodeHello (t : Token) : Bytes := t.encode ++ Bytes.zeros (helloLength - 8)

/-- The token of a greeting, of which all bytes must be there. -/
def hello : Take Token := do
  let bs ← get
  if helloLength ≤ bs.length then number else throw (.shortHello bs.length)

/-- Takes a greeting off a byte string; also gives the number of bytes used up. -/
def takeHello : Bytes → Except Malformed Token × Nat := hello.off

end Handshake

end Tandem
