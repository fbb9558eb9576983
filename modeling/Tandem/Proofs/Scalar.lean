import Tandem.Scalar
import Tandem.Proofs.Bytes

/-!
# The coding of scalars

`decode_encode` and `encode_decode` make the coding a bijection between the values of a kind and
the byte strings of its size; `decodeMany_flatMap` and `flatMap_decodeMany` are the same for many
values in a row.
-/

namespace Tandem

namespace Scalar

variable {k : ScalarKind}

theorem pow_size (k : ScalarKind) : 256 ^ k.size = 2 ^ (8 * k.size) := by
  rw [Nat.pow_mul]

theorem decode_encode (x : Scalar k) : decode k (encode x) = x := by
  apply BitVec.eq_of_toNat_eq
  rw [decode, encode, Bytes.ofBigEndian_bigEndian, BitVec.toNat_ofNat, pow_size,
    Nat.mod_mod, Nat.mod_eq_of_lt x.isLt]

theorem encode_decode {bs : Bytes} (h : bs.length = k.size) : encode (decode k bs) = bs := by
  have hlt := Bytes.ofBigEndian_lt bs
  rw [h, pow_size] at hlt
  rw [encode, decode, BitVec.toNat_ofNat, Nat.mod_eq_of_lt hlt, ← h]
  exact Bytes.bigEndian_ofBigEndian bs

theorem length_flatMap_encode (xs : List (Scalar k)) :
    (xs.flatMap encode).length = xs.length * k.size := by
  induction xs with
  | nil => rw [List.flatMap_nil, List.length_nil, List.length_nil, Nat.zero_mul]
  | cons x xs ih =>
    rw [List.flatMap_cons, List.length_append, length_encode, ih, List.length_cons, Nat.succ_mul]
    omega

theorem decodeMany_flatMap (xs : List (Scalar k)) :
    decodeMany k xs.length (xs.flatMap encode) = xs := by
  induction xs with
  | nil => rfl
  | cons x xs ih =>
    have hlen : (encode x).length = k.size := length_encode x
    rw [List.flatMap_cons, List.length_cons, decodeMany, List.take_left' hlen,
      List.drop_left' hlen, decode_encode, ih]

theorem flatMap_decodeMany {n : Nat} {bs : Bytes} (h : bs.length = n * k.size) :
    (decodeMany k n bs).flatMap encode = bs := by
  induction n generalizing bs with
  | zero =>
    rw [Nat.zero_mul] at h
    rw [List.length_eq_zero_iff.1 h]
    rfl
  | succ n ih =>
    rw [Nat.succ_mul] at h
    have hfirst : (bs.take k.size).length = k.size := List.length_take_of_le (by omega)
    have hrest : (bs.drop k.size).length = n * k.size := by
      rw [List.length_drop]
      omega
    rw [decodeMany, List.flatMap_cons, encode_decode hfirst, ih hrest, List.take_append_drop]

end Scalar

end Tandem
