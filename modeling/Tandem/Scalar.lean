import Tandem.Bytes

/-!
# Scalars

The fixed-width values of the wire format: integers of one to eight bytes and floating-point
numbers of four and eight.  A scalar is carried as its bit pattern, most significant byte first;
whether the pattern stands for a signed number or a float matters only to who looks at it.
-/

namespace Tandem

/-- The fixed-width value kinds. -/
inductive ScalarKind where
  | u8 | i8 | u16 | i16 | u32 | i32 | u64 | i64 | f32 | f64
  deriving DecidableEq, Repr, Inhabited

namespace ScalarKind

/-- The number of bytes that a value takes. -/
def size : ScalarKind → Nat
  | u8 | i8 => 1
  | u16 | i16 => 2
  | u32 | i32 | f32 => 4
  | u64 | i64 | f64 => 8

/-- Whether the patterns of this kind stand for numbers in two's complement. -/
def isSigned : ScalarKind → Bool
  | i8 | i16 | i32 | i64 => true
  | _ => false

end ScalarKind

/-- A value of a scalar kind: its bit pattern. -/
abbrev Scalar (k : ScalarKind) := BitVec (8 * k.size)

namespace Scalar

variable {k : ScalarKind}

/-- The bytes of a scalar. -/
def encode (x : Scalar k) : Bytes := Bytes.bigEndian k.size x.toNat

/-- The scalar whose bytes are given. -/
def decode (k : ScalarKind) (bs : Bytes) : Scalar k := BitVec.ofNat _ (Bytes.ofBigEndian bs)

/-- The number that a pattern stands for. -/
def toInt (x : Scalar k) : Int := if k.isSigned then BitVec.toInt x else x.toNat

/-- The pattern of a number. -/
def ofInt (k : ScalarKind) (n : Int) : Scalar k := BitVec.ofInt _ n

@[simp] theorem length_encode (x : Scalar k) : (encode x).length = k.size :=
  Bytes.length_bigEndian _ _

/-- Cuts a byte string into `n` scalars. -/
def decodeMany (k : ScalarKind) : Nat → Bytes → List (Scalar k)
  | 0, _ => []
  | n + 1, bs => decode k (bs.take k.size) :: decodeMany k n (bs.drop k.size)

@[simp] theorem length_decodeMany (n : Nat) (bs : Bytes) : (decodeMany k n bs).length = n := by
  induction n generalizing bs with
  | zero => rfl
  | succ n ih => simp [decodeMany, ih]

end Scalar

end Tandem
