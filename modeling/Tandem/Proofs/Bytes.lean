import Tandem.Bytes
import Mathlib.Algebra.Ring.Int.Defs
import Mathlib.Algebra.Ring.Nat
import Mathlib.Data.List.Induction

/-!
# Laws of byte strings

`Bytes.bigEndian` and `Bytes.ofBigEndian` undo each other, and so do `Bytes.packBits` and
`Bytes.unpackBits`, except that packing clears the spare bits of the last byte.  `Bytes.splice` at a
position within a byte string replaces what is there and goes on behind the end if it has to; its
laws say what it means byte by byte, what a further cut sees of it and how splices at adjoining
positions join.
-/

namespace Tandem

namespace Bytes

/-! ### Big-endian numbers -/

theorem ofBigEndian_append_singleton (bs : Bytes) (b : UInt8) :
    ofBigEndian (bs ++ [b]) = ofBigEndian bs * 256 + b.toNat := by
  simp [ofBigEndian]

theorem ofBigEndian_bigEndian (n v : Nat) : ofBigEndian (bigEndian n v) = v % 256 ^ n := by
  induction n generalizing v with
  | zero => simp [bigEndian, ofBigEndian, Nat.mod_one]
  | succ n ih =>
    rw [bigEndian, ofBigEndian_append_singleton, ih, Nat.pow_succ, Nat.mul_comm (256 ^ n) 256,
      Nat.mod_mul]
    simp only [UInt8.toNat_ofNat']
    omega

theorem eq_dropLast_append_getLast {bs : Bytes} (h : bs ≠ []) :
    ∃ init last, bs = init ++ [last] :=
  ⟨bs.dropLast, bs.getLast h, (List.dropLast_concat_getLast h).symm⟩

theorem bigEndian_ofBigEndian (bs : Bytes) : bigEndian bs.length (ofBigEndian bs) = bs := by
  generalize hn : bs.length = n
  induction n generalizing bs with
  | zero => rw [List.length_eq_zero_iff.1 hn]; rfl
  | succ n ih =>
    have hne : bs ≠ [] := by intro h; simp [h] at hn
    obtain ⟨init, last, rfl⟩ := eq_dropLast_append_getLast hne
    have hl : init.length = n := by simpa using hn
    have hdiv : (ofBigEndian init * 256 + last.toNat) / 256 = ofBigEndian init := by
      have := last.toNat_lt
      omega
    have hlast : UInt8.ofNat (ofBigEndian init * 256 + last.toNat) = last := by
      apply UInt8.toNat_inj.1
      have := last.toNat_lt
      simp only [UInt8.toNat_ofNat']
      omega
    rw [ofBigEndian_append_singleton, bigEndian, hdiv, hlast, ih init hl]

theorem ofBigEndian_lt (bs : Bytes) : ofBigEndian bs < 256 ^ bs.length := by
  have h := ofBigEndian_bigEndian bs.length (ofBigEndian bs)
  rw [bigEndian_ofBigEndian] at h
  rw [h]
  exact Nat.mod_lt _ (Nat.pow_pos (by decide))

/-! ### Packed truth values -/

/-- The bits of a byte are the first eight of those packed into it, with clear ones for those that
are missing. -/
theorem octetBits_octet_eq_take (bits : List Bool) :
    octetBits (octet bits) = (bits ++ List.replicate 8 false).take 8 := by
  generalize ht : (bits ++ List.replicate 8 false).take 8 = eight
  have hlen : eight.length = 8 := by
    rw [← ht, List.length_take, List.length_append, List.length_replicate]
    omega
  have hoctet : octet bits = octet eight := by
    have hself : (eight ++ List.replicate 8 false).take 8 = eight := List.take_left' hlen
    rw [octet, octet, ht, hself]
  rw [hoctet]
  rcases eight with _ | ⟨a, _ | ⟨b, _ | ⟨c, _ | ⟨d, _ | ⟨e, _ | ⟨f, _ | ⟨g, _ | ⟨h, _ |
    ⟨i, more⟩⟩⟩⟩⟩⟩⟩⟩⟩
  case cons.cons.cons.cons.cons.cons.cons.cons.nil => exact octetBits_octet a b c d e f g h []
  all_goals simp at hlen

theorem take_flatMap_packOctets (bits : List Bool) {n : Nat} (hn : bits.length ≤ 8 * n) :
    ((packOctets n bits).flatMap octetBits).take bits.length = bits := by
  induction n generalizing bits with
  | zero =>
    obtain rfl := List.length_eq_zero_iff.1 (Nat.le_zero.1 hn)
    rfl
  | succ n ih =>
    rw [packOctets, List.flatMap_cons, octetBits_octet_eq_take]
    by_cases h8 : bits.length ≤ 8
    · rw [List.take_append_of_le_length (by simpa using h8), List.take_take, Nat.min_eq_left h8,
        List.take_left]
    · have hrest := ih (bits.drop 8) (by rw [List.length_drop]; omega)
      rw [List.length_drop] at hrest
      have htake : (bits ++ List.replicate 8 false).take 8 = bits.take 8 :=
        List.take_append_of_le_length (by omega)
      have hlen : (bits.take 8).length = 8 := List.length_take_of_le (by omega)
      rw [htake, List.take_append, List.take_of_length_le (by omega), hlen, hrest,
        List.take_append_drop]

/-- **Unpacking undoes packing.** -/
theorem unpackBits_packBits (bits : List Bool) : (packBits bits).unpackBits bits.length = bits := by
  refine take_flatMap_packOctets bits ?_
  unfold octetCount
  omega

theorem length_flatMap_octetBits (bs : Bytes) : (bs.flatMap octetBits).length = 8 * bs.length := by
  induction bs with
  | nil => rfl
  | cons b bs ih =>
    rw [List.flatMap_cons, List.length_append, length_octetBits, ih, List.length_cons]
    omega

theorem length_unpackBits {n : Nat} {bs : Bytes} (h : bs.length = octetCount n) :
    (unpackBits n bs).length = n := by
  unfold octetCount at h
  rw [unpackBits, List.length_take, length_flatMap_octetBits]
  omega

/-- Clears the last `k` bits of a byte. -/
def clearLow (k : Nat) (b : UInt8) : UInt8 := UInt8.ofNat (b.toNat / 2 ^ k * 2 ^ k)

/-- Clears the bits of the last byte that are behind the first `n` bits of all. -/
def clearSpare (n : Nat) (bs : Bytes) : Bytes :=
  match bs.getLast? with
  | none => []
  | some b => bs.dropLast ++ [clearLow (8 * bs.length - n) b]

/-- The number that bits make, the first one on top. -/
def ofBits (bits : List Bool) : Nat := bits.foldl (fun v b => 2 * v + b.toNat) 0

theorem ofBits_append_singleton (bits : List Bool) (b : Bool) :
    ofBits (bits ++ [b]) = 2 * ofBits bits + b.toNat := by
  simp only [ofBits, List.foldl_append, List.foldl_cons, List.foldl_nil]

theorem ofBits_lt (bits : List Bool) : ofBits bits < 2 ^ bits.length := by
  induction bits using List.reverseRecOn with
  | nil => exact Nat.one_pos
  | append_singleton bits b ih =>
    have hb := Bool.toNat_le b
    rw [ofBits_append_singleton, List.length_append, List.length_singleton, Nat.pow_succ]
    omega

theorem ofBits_append (bits more : List Bool) :
    ofBits (bits ++ more) = ofBits bits * 2 ^ more.length + ofBits more := by
  induction more using List.reverseRecOn with
  | nil => rw [List.append_nil, List.length_nil, Nat.pow_zero, Nat.mul_one]; rfl
  | append_singleton more b ih =>
    have hpow : ofBits bits * 2 ^ (more.length + 1) = 2 * (ofBits bits * 2 ^ more.length) := by
      rw [Nat.pow_succ, ← Nat.mul_assoc, Nat.mul_comm]
    rw [← List.append_assoc, ofBits_append_singleton, ofBits_append_singleton, ih,
      List.length_append, List.length_singleton, hpow]
    omega

theorem ofBits_clear (k : Nat) : ofBits (List.replicate k false) = 0 := by
  induction k with
  | zero => rfl
  | succ k ih => rw [List.replicate_succ', ofBits_append_singleton, ih, Bool.toNat_false]

theorem octet_take (b : UInt8) {n : Nat} (h : n ≤ 8) :
    octet ((octetBits b).take n) = clearLow (8 - n) b := by
  have hb := octet_octetBits b
  have hlen := length_octetBits b
  generalize octetBits b = bits at hb hlen
  have hfirst : (bits.take n).length = n := List.length_take_of_le (hlen.symm ▸ h)
  have hlast : (bits.drop n).length = 8 - n := by rw [List.length_drop, hlen]
  have hlow := ofBits_lt (bits.drop n)
  have hlt := ofBits_lt bits
  have hall := ofBits_append (bits.take n) (bits.drop n)
  rw [List.take_append_drop, hlast] at hall
  rw [hlast] at hlow
  rw [hlen] at hlt
  have hbits : b.toNat = ofBits bits := by
    rw [← hb, octet, List.take_left' hlen]
    exact UInt8.toNat_ofNat_of_lt' hlt
  have hclear : (bits.take n ++ List.replicate 8 false).take 8 =
      bits.take n ++ List.replicate (8 - n) false := by
    rw [List.take_append, hfirst, List.take_replicate, List.take_of_length_le (by omega),
      Nat.min_eq_left (Nat.sub_le 8 n)]
  rw [octet, hclear, ← ofBits, ofBits_append, ofBits_clear, List.length_replicate, clearLow, hbits,
    hall, Nat.add_comm _ (ofBits (bits.drop n)),
    Nat.add_mul_div_right _ _ (Nat.pow_pos Nat.two_pos), Nat.div_eq_of_lt hlow, Nat.zero_add,
    Nat.add_zero]

theorem octet_octetBits_append (b : UInt8) (bits : List Bool) :
    octet (octetBits b ++ bits) = b := by
  have hlen : (octetBits b).length = 8 := length_octetBits b
  have htake : ((octetBits b ++ bits) ++ List.replicate 8 false).take 8 =
      (octetBits b ++ List.replicate 8 false).take 8 := by
    rw [List.append_assoc, List.take_left' hlen, List.take_left' hlen]
  rw [octet, htake, ← octet, octet_octetBits]

theorem packOctets_flatMap (bs : Bytes) (bits : List Bool) :
    packOctets (bs.length + 1) (bs.flatMap octetBits ++ bits) = bs ++ [octet bits] := by
  induction bs with
  | nil => rfl
  | cons b bs ih =>
    rw [List.length_cons, packOctets, List.flatMap_cons, List.append_assoc, octet_octetBits_append,
      List.drop_left' (length_octetBits b), ih, List.cons_append]

/-- **Packing undoes unpacking**, except for the spare bits of the last byte. -/
theorem packBits_unpackBits {n : Nat} {bs : Bytes} (h : bs.length = octetCount n) :
    packBits (unpackBits n bs) = clearSpare n bs := by
  rw [packBits, length_unpackBits h, ← h]
  by_cases hnil : bs = []
  · rw [hnil]
    rfl
  obtain ⟨init, last, rfl⟩ := eq_dropLast_append_getLast hnil
  rw [List.length_append, List.length_singleton] at h
  unfold octetCount at h
  have hlen := length_flatMap_octetBits init
  have hbits : unpackBits n (init ++ [last]) =
      init.flatMap octetBits ++ (octetBits last).take (n - 8 * init.length) := by
    rw [unpackBits, List.flatMap_append, List.flatMap_singleton, List.take_append, hlen,
      List.take_of_length_le (by omega)]
  have hspare : 8 - (n - 8 * init.length) = 8 * (init.length + 1) - n := by omega
  rw [hbits, List.length_append, List.length_singleton, packOctets_flatMap, octet_take _ (by omega),
    clearSpare, List.getLast?_concat, List.dropLast_concat, List.length_append,
    List.length_singleton, hspare]

/-! ### Overwriting -/

variable {bs new : Bytes} {p n : Nat}

theorem length_splice_eq_max (h : p ≤ bs.length) :
    (splice bs p new).length = max bs.length (p + new.length) := by
  simp only [splice, List.length_append, List.length_take, List.length_drop]
  omega

theorem getElem?_splice (h : p ≤ bs.length) (i : Nat) :
    (splice bs p new)[i]? =
      if i < p then bs[i]? else if i < p + new.length then new[i - p]? else bs[i]? := by
  have hl : (bs.take p).length = p := List.length_take_of_le h
  rw [splice, List.append_assoc, List.getElem?_append, hl]
  split
  · next hi => rw [List.getElem?_take_of_lt hi]
  · next hi =>
    rw [List.getElem?_append]
    by_cases hj : i < p + new.length
    · rw [if_pos (by omega), if_pos hj]
    · rw [if_neg (by omega), if_neg hj, List.getElem?_drop]
      congr 1
      omega

@[simp] theorem splice_nil (bs : Bytes) (p : Nat) : splice bs p [] = bs := by
  simp [splice]

theorem splice_length (bs new : Bytes) : splice bs bs.length new = bs ++ new := by
  simp [splice]

theorem splice_splice {more : Bytes} (h : p ≤ bs.length) :
    splice (splice bs p new) (p + new.length) more = splice bs p (new ++ more) := by
  have hl : p + new.length ≤ (splice bs p new).length := by
    rw [length_splice_eq_max h]; omega
  apply List.ext_getElem?
  intro i
  rw [getElem?_splice hl, getElem?_splice h, getElem?_splice h, List.length_append,
    List.getElem?_append]
  by_cases h1 : i < p
  · simp only [h1, ↓reduceIte, show i < p + new.length by omega]
  · by_cases h2 : i < p + new.length
    · simp only [h1, h2, ↓reduceIte, show i - p < new.length by omega,
        show i < p + (new.length + more.length) by omega]
    · have h3 : i - p - new.length = i - (p + new.length) := by omega
      simp only [h1, h2, ↓reduceIte, show ¬ i - p < new.length by omega, h3, Nat.add_assoc]

theorem take_splice_add (h : p ≤ bs.length) :
    (splice bs p new).take (p + new.length) = bs.take p ++ new :=
  List.take_left' (by simp [List.length_take_of_le h])

/-- What a cut behind everything that was overwritten sees. -/
theorem take_splice_max (hp : p ≤ n) (hn : n ≤ bs.length) :
    (splice bs p new).take (max n (p + new.length)) = splice (bs.take n) p new := by
  have hl : (bs.take n).length = n := List.length_take_of_le hn
  apply List.ext_getElem?
  intro i
  rw [getElem?_splice (by omega), List.getElem?_take, getElem?_splice (by omega),
    List.getElem?_take]
  by_cases h1 : i < p
  · simp only [h1, ↓reduceIte, show i < max n (p + new.length) by omega, show i < n by omega]
  · by_cases h2 : i < p + new.length
    · simp only [h1, h2, ↓reduceIte, show i < max n (p + new.length) by omega]
    · have h3 : i < max n (p + new.length) ↔ i < n := by omega
      simp only [h1, h2, ↓reduceIte, h3]

theorem take_splice (hn : n ≤ bs.length) :
    (splice bs p new).take n = (splice (bs.take n) p new).take n := by
  by_cases hp : p ≤ n
  · rw [← take_splice_max hp hn, List.take_take, Nat.min_eq_left (Nat.le_max_left _ _)]
  · have h1 : (bs.take n).length ≤ p := by simp only [List.length_take]; omega
    simp only [splice, List.take_of_length_le h1, List.append_assoc]
    rw [List.take_append_of_le_length (by simp only [List.length_take]; omega),
      List.take_append_of_le_length (by simp only [List.length_take]; omega), List.take_take,
      List.take_take, Nat.min_self, Nat.min_eq_left (by omega)]

/-- What lies behind a cut in front of everything that was overwritten. -/
theorem drop_splice (h : n + p ≤ bs.length) :
    (splice bs (n + p) new).drop n = splice (bs.drop n) p new := by
  have hl : (bs.take (n + p)).length = n + p := List.length_take_of_le h
  rw [splice, splice, List.append_assoc, List.drop_append_of_le_length (by omega), List.drop_take,
    List.drop_drop, Nat.add_sub_cancel_left, List.append_assoc, Nat.add_assoc]

end Bytes

end Tandem
