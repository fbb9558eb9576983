import Tandem.Text.Encoding
import Tandem.Proofs.Text.Utf16

/-!
# Decoding text

In each encoding the bytes that decoding accepts are the encodings of texts (`decode?_eq_some_iff`),
and `byteCount` is the number of bytes that encoding takes (`length_encode`).  The two forms of
UTF-16 differ in the order of two bytes; what is shared is said of any `ByteOrder`.
-/

namespace Tandem

namespace Encoding

/-! ### Code units as bytes -/

theorem unit_of_bytes (u : UInt16) :
    UInt16.ofNat ((UInt8.ofNat (u.toNat / 256)).toNat * 256 + (UInt8.ofNat u.toNat).toNat) = u := by
  have hu := u.toNat_lt
  have hhigh : u.toNat / 256 % 2 ^ 8 = u.toNat / 256 := Nat.mod_eq_of_lt (by omega)
  have hall : u.toNat / 256 * 256 + u.toNat % 2 ^ 8 = u.toNat := by omega
  rw [UInt8.toNat_ofNat', UInt8.toNat_ofNat', hhigh, hall]
  exact UInt16.ofNat_toNat

theorem bytes_of_unit (high low : UInt8) :
    UInt8.ofNat ((UInt16.ofNat (high.toNat * 256 + low.toNat)).toNat / 256) = high ∧
      UInt8.ofNat (UInt16.ofNat (high.toNat * 256 + low.toNat)).toNat = low := by
  have hh := high.toNat_lt
  have hl := low.toNat_lt
  have hn : (UInt16.ofNat (high.toNat * 256 + low.toNat)).toNat = high.toNat * 256 + low.toNat :=
    UInt16.toNat_ofNat_of_lt' (by
      simp only [UInt16.size]
      omega)
  have hdiv : (high.toNat * 256 + low.toNat) / 256 = high.toNat := by omega
  have hmod : (high.toNat * 256 + low.toNat) % 2 ^ 8 = low.toNat := by omega
  rw [hn, hdiv, UInt8.ofNat_toNat]
  refine ⟨rfl, UInt8.toNat_inj.1 ?_⟩
  rw [UInt8.toNat_ofNat', hmod]

/-- A byte order: `f` lays out a code unit in two bytes and `g` takes code units off bytes. -/
structure ByteOrder (f : UInt16 → Bytes) (g : Bytes → Option (List UInt16)) : Prop where
  length (u : UInt16) : (f u).length = 2
  /-- any two bytes are a code unit -/
  pair (a b : UInt8) : ∃ u, f u = [a, b]
  nil : g [] = some []
  single (b : UInt8) : g [b] = none
  append (u : UInt16) (bs : Bytes) : g (f u ++ bs) = (g bs).map (u :: ·)

theorem byteOrder_le : ByteOrder unitBytesLE unitsLE? where
  length _ := rfl
  pair a b := ⟨UInt16.ofNat (b.toNat * 256 + a.toNat), by
    obtain ⟨hhigh, hlow⟩ := bytes_of_unit b a
    rw [unitBytesLE, hlow, hhigh]⟩
  nil := rfl
  single _ := rfl
  append u bs := by
    simp only [unitBytesLE, List.cons_append, List.nil_append, unitsLE?, unit_of_bytes]

theorem byteOrder_be : ByteOrder unitBytesBE unitsBE? where
  length _ := rfl
  pair a b := ⟨UInt16.ofNat (a.toNat * 256 + b.toNat), by
    obtain ⟨hhigh, hlow⟩ := bytes_of_unit a b
    rw [unitBytesBE, hlow, hhigh]⟩
  nil := rfl
  single _ := rfl
  append u bs := by
    simp only [unitBytesBE, List.cons_append, List.nil_append, unitsBE?, unit_of_bytes]

namespace ByteOrder

variable {f : UInt16 → Bytes} {g : Bytes → Option (List UInt16)} {bs : Bytes}

theorem length_flatMap (h : ByteOrder f g) (us : List UInt16) :
    (us.flatMap f).length = 2 * us.length := by
  induction us with
  | nil => rfl
  | cons u us ih =>
    rw [List.flatMap_cons, List.length_append, h.length, ih, List.length_cons]
    omega

theorem units_flatMap (h : ByteOrder f g) (us : List UInt16) : g (us.flatMap f) = some us := by
  induction us with
  | nil => exact h.nil
  | cons u us ih =>
    rw [List.flatMap_cons, h.append, ih]
    rfl

theorem cases (h : ByteOrder f g) (bs : Bytes) :
    bs = [] ∨ (∃ b, bs = [b]) ∨ ∃ u rest, bs = f u ++ rest := by
  match bs with
  | [] => exact .inl rfl
  | [b] => exact .inr (.inl ⟨b, rfl⟩)
  | a :: b :: rest =>
    obtain ⟨u, hu⟩ := h.pair a b
    exact .inr (.inr ⟨u, rest, by rw [hu]; rfl⟩)

theorem flatMap_of_units (h : ByteOrder f g) {us : List UInt16} (hus : g bs = some us) :
    us.flatMap f = bs := by
  generalize hn : bs.length = n
  induction n using Nat.strongRecOn generalizing bs us with
  | ind n ih =>
    rcases h.cases bs with rfl | ⟨b, rfl⟩ | ⟨u, rest, rfl⟩
    · rw [h.nil] at hus
      cases hus
      rfl
    · rw [h.single] at hus
      cases hus
    · rw [h.append] at hus
      obtain ⟨vs, hvs, rfl⟩ := Option.map_eq_some_iff.1 hus
      rw [List.length_append, h.length] at hn
      rw [List.flatMap_cons, ih rest.length (by omega) hvs rfl]

/-- Nothing starts with two code units. -/
theorem append_inj (h : ByteOrder f g) {u v : UInt16} {r r' : Bytes}
    (heq : f u ++ r = f v ++ r') : u = v ∧ r = r' := by
  obtain ⟨hf, hr⟩ := List.append_inj heq (by rw [h.length, h.length])
  have hg : g (f u ++ []) = g (f v ++ []) := by rw [hf]
  rw [h.append, h.append, h.nil] at hg
  exact ⟨(List.cons.inj (Option.some.inj hg)).1, hr⟩

end ByteOrder

theorem fillUnits_eq (f : UInt16 → Bytes) {us : List UInt16} {room : Bytes}
    (hr : room.length = 2 * us.length) : fillUnits f us room = us.flatMap f := by
  induction us generalizing room with
  | nil =>
    obtain rfl := List.length_eq_zero_iff.1 hr
    rfl
  | cons u us ih =>
    match room with
    | [] | [_] => simp only [List.length_cons, List.length_nil] at hr; omega
    | a :: b :: room =>
      rw [fillUnits, List.flatMap_cons, ih]
      simp only [List.length_cons] at hr
      omega

/-! ### Text -/

theorem fromUTF8?_toByteArray (s : String) :
    String.fromUTF8? ⟨s.toByteArray.data.toList.toArray⟩ = some s := by
  rw [Array.toArray_toList, String.fromUTF8?]
  exact dif_pos s.isValidUTF8

theorem toByteArray_of_fromUTF8? {bs : Bytes} {s : String}
    (h : String.fromUTF8? ⟨bs.toArray⟩ = some s) : s.toByteArray.data.toList = bs := by
  rw [String.fromUTF8?] at h
  split at h
  · cases h
    rfl
  · cases h

/-- **Decoding undoes encoding.** -/
theorem decode?_encode (e : Encoding) (s : String) : e.decode? (e.encode s) = some s := by
  cases e with
  | utf16le =>
    simp only [decode?, encode, byteOrder_le.units_flatMap, Option.bind_some, Utf16.decode?_encode,
      Option.map_some, String.ofList_toList]
  | utf16be =>
    simp only [decode?, encode, byteOrder_be.units_flatMap, Option.bind_some, Utf16.decode?_encode,
      Option.map_some, String.ofList_toList]
  | utf8 => exact fromUTF8?_toByteArray s

theorem ByteOrder.encode_of_decode? {f : UInt16 → Bytes} {g : Bytes → Option (List UInt16)}
    (h : ByteOrder f g) {bs : Bytes} {s : String}
    (hs : ((g bs).bind Utf16.decode?).map String.ofList = some s) :
    (Utf16.encode s.toList).flatMap f = bs := by
  obtain ⟨cs, hcs, rfl⟩ := Option.map_eq_some_iff.1 hs
  obtain ⟨us, hus, hdecode⟩ := Option.bind_eq_some_iff.1 hcs
  rw [String.toList_ofList, Utf16.encode_of_decode? hdecode, h.flatMap_of_units hus]

/-- **Decoding accepts** the encodings of texts and nothing else. -/
theorem decode?_eq_some_iff {e : Encoding} {bs : Bytes} {s : String} :
    e.decode? bs = some s ↔ e.encode s = bs := by
  refine ⟨fun h => ?_, fun h => h ▸ decode?_encode e s⟩
  cases e with
  | utf16le => exact byteOrder_le.encode_of_decode? h
  | utf16be => exact byteOrder_be.encode_of_decode? h
  | utf8 => exact toByteArray_of_fromUTF8? h

theorem length_encode (e : Encoding) (s : String) : (e.encode s).length = e.byteCount s := by
  cases e with
  | utf16le => exact byteOrder_le.length_flatMap _
  | utf16be => exact byteOrder_be.length_flatMap _
  | utf8 => rfl

/-- **Filling** as much room as a text takes. -/
theorem fill_eq_encode {e : Encoding} {s : String} {room : Bytes}
    (h : room.length = e.byteCount s) : e.fill s room = .ok (e.encode s) := by
  cases e with
  | utf16le => exact congrArg Except.ok (fillUnits_eq unitBytesLE h)
  | utf16be => exact congrArg Except.ok (fillUnits_eq unitBytesBE h)
  | utf8 => exact if_pos h

theorem byteCount_singleton_le (e : Encoding) (c : Char) :
    e.byteCount (String.singleton c) ≤ 4 := by
  have hunits : (Utf16.encode (String.singleton c).toList).length ≤ 2 := by
    rw [String.toList_singleton, Utf16.encode, List.flatMap_singleton, Utf16.ofChar]
    split
    · exact Nat.le_succ 1
    · exact Nat.le_refl 2
  cases e with
  | utf16le => exact Nat.mul_le_mul_left 2 hunits
  | utf16be => exact Nat.mul_le_mul_left 2 hunits
  | utf8 =>
    show (String.singleton c).utf8ByteSize ≤ 4
    rw [String.utf8ByteSize_singleton]
    exact Char.utf8Size_le_four c

end Encoding

end Tandem
