/-!
# Byte strings

The bytes that travel and the three ways they are put together here: overwriting a stretch of a
byte string (`splice`), numbers in big-endian order (`bigEndian`, `ofBigEndian`) and truth values
packed eight to a byte (`packBits`, `unpackBits`).  The laws say that each reading undoes its
writing.
-/

namespace Tandem

/-- A byte string. -/
abbrev Bytes := List UInt8

namespace Bytes

/-- Overwrites `bs` from position `p` on with `new`; what lies before and behind is kept. -/
def splice (bs : Bytes) (p : Nat) (new : Bytes) : Bytes :=
  bs.take p ++ new ++ bs.drop (p + new.length)

/-- The stretch of `n` bytes that starts at position `p`. -/
def slice (bs : Bytes) (p n : Nat) : Bytes := (bs.drop p).take n

/-- Whether there are fewer than `n` bytes.  No more than `n` of them are looked at. -/
def lacks (bs : Bytes) (n : Nat) : Bool := (bs.take n).length < n

theorem lacks_iff {bs : Bytes} {n : Nat} : bs.lacks n = true ↔ bs.length < n := by
  simp only [lacks, List.length_take, decide_eq_true_eq]
  omega

/-- `n` zero bytes. -/
def zeros (n : Nat) : Bytes := List.replicate n 0

@[simp] theorem length_zeros (n : Nat) : (zeros n).length = n := List.length_replicate

/-! ### Big-endian numbers -/

/-- The last `n` bytes of `v`, most significant first. -/
def bigEndian : Nat → Nat → Bytes
  | 0, _ => []
  | n + 1, v => bigEndian n (v / 256) ++ [UInt8.ofNat v]

/-- The number whose digits to base 256 are the given bytes, most significant first. -/
def ofBigEndian (bs : Bytes) : Nat := bs.foldl (fun v b => v * 256 + b.toNat) 0

@[simp] theorem length_bigEndian (n v : Nat) : (bigEndian n v).length = n := by
  induction n generalizing v with
  | zero => rfl
  | succ n ih => simp [bigEndian, ih]

/-! ### Packed truth values -/

/-- The number of bytes that hold `n` bits. -/
def octetCount (n : Nat) : Nat := (n + 7) / 8

/-- The byte whose bits, most significant first, are the first eight of `bits`; missing ones are
clear. -/
def octet (bits : List Bool) : UInt8 :=
  UInt8.ofNat (((bits ++ List.replicate 8 false).take 8).foldl (fun v b => 2 * v + b.toNat) 0)

/-- The bits of a byte, most significant first. -/
def octetBits (b : UInt8) : List Bool := (List.range 8).map fun i => b.toNat.testBit (7 - i)

/-- The first `n` bytes of the packed form of `bits`. -/
def packOctets : Nat → List Bool → Bytes
  | 0, _ => []
  | n + 1, bits => octet bits :: packOctets n (bits.drop 8)

/-- Packs truth values eight to a byte, the first in the most significant bit. -/
def packBits (bits : List Bool) : Bytes := packOctets (octetCount bits.length) bits

/-- The first `n` bits of the given bytes. -/
def unpackBits (n : Nat) (bs : Bytes) : List Bool := (bs.flatMap octetBits).take n

@[simp] theorem length_octetBits (b : UInt8) : (octetBits b).length = 8 := by simp [octetBits]

theorem length_packOctets (n : Nat) (bits : List Bool) : (packOctets n bits).length = n := by
  induction n generalizing bits with
  | zero => rfl
  | succ n ih => simp [packOctets, ih]

@[simp] theorem length_packBits (bits : List Bool) :
    (packBits bits).length = octetCount bits.length := length_packOctets _ _

theorem octetBits_octet (a b c d e f g h : Bool) (rest : List Bool) :
    octetBits (octet (a :: b :: c :: d :: e :: f :: g :: h :: rest)) =
      [a, b, c, d, e, f, g, h] := by
  simp only [octet, List.cons_append, List.take_succ_cons, List.take_zero]
  revert a b c d e f g h
  decide

theorem octet_octetBits (b : UInt8) : octet (octetBits b) = b := by
  have h : ∀ n : Fin 256, octet (octetBits (UInt8.ofNat n)) = UInt8.ofNat n := by decide +kernel
  have := h ⟨b.toNat, b.toNat_lt⟩
  simpa using this

end Bytes

end Tandem
