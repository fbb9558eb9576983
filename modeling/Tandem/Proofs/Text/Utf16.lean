import Tandem.Text.Utf16

/-!
# Decoding UTF-16

Decoding undoes encoding, and encoding undoes decoding.  A character is never a surrogate, so that
one up to U+FFFF cannot be taken for half of a pair (`decode?_cons`), and the surrogates of a later
one lie in their two ranges (`ofChar_cases`).
-/

namespace Tandem

namespace Utf16

variable {u v : UInt16} {us : List UInt16}

theorem decode?_cons (hh : isHigh u = false) (hl : isLow u = false) (us : List UInt16) :
    decode? (u :: us) = (decode? us).map (Char.ofNat u.toNat :: ·) := by
  cases us with
  | nil => simp [decode?, hh, hl]
  | cons v us => simp [decode?, hh, hl]

theorem decode?_pair (hh : isHigh u = true) (hl : isLow v = true) (us : List UInt16) :
    decode? (u :: v :: us) = (decode? us).map (charOfPair u v :: ·) := by
  simp [decode?, hh, hl]

/-! ### Surrogates -/

theorem isHigh_iff : isHigh u = true ↔ 0xD800 ≤ u.toNat ∧ u.toNat < 0xDC00 := by
  simp only [isHigh, Bool.and_eq_true, decide_eq_true_iff, UInt16.le_iff_toNat_le,
    UInt16.lt_iff_toNat_lt]
  exact Iff.rfl

theorem isLow_iff : isLow u = true ↔ 0xDC00 ≤ u.toNat ∧ u.toNat < 0xE000 := by
  simp only [isLow, Bool.and_eq_true, decide_eq_true_iff, UInt16.le_iff_toNat_le,
    UInt16.lt_iff_toNat_lt]
  exact Iff.rfl

/-! ### Characters -/

theorem toNat_bounds (c : Char) :
    c.toNat < 0xD800 ∨ 0xDFFF < c.toNat ∧ c.toNat < 0x110000 := c.valid

theorem toNat_ofNat {n : Nat} (h : n < 0xD800 ∨ 0xDFFF < n ∧ n < 0x110000) :
    (Char.ofNat n).toNat = n := by
  rw [Char.ofNat, dif_pos h]
  rfl

/-- **The code units of a character** are one that is no surrogate, or a pair of surrogates. -/
theorem ofChar_cases (c : Char) :
    (∃ u, ofChar c = [u] ∧ isHigh u = false ∧ isLow u = false ∧ Char.ofNat u.toNat = c) ∨
      ∃ u v, ofChar c = [u, v] ∧ isHigh u = true ∧ isLow v = true ∧ charOfPair u v = c := by
  have hc := toNat_bounds c
  unfold ofChar
  split
  · next h =>
    have hn : (UInt16.ofNat c.toNat).toNat = c.toNat := UInt16.toNat_ofNat_of_lt' h
    refine .inl ⟨_, rfl, ?_, ?_, ?_⟩
    · rw [Bool.eq_false_iff, Ne, isHigh_iff, hn]
      omega
    · rw [Bool.eq_false_iff, Ne, isLow_iff, hn]
      omega
    · rw [hn, Char.ofNat_toNat]
  · next h =>
    have hhigh : (UInt16.ofNat (0xD800 + (c.toNat - 0x10000) / 0x400)).toNat =
        0xD800 + (c.toNat - 0x10000) / 0x400 := UInt16.toNat_ofNat_of_lt' (by
      simp only [UInt16.size]
      omega)
    have hlow : (UInt16.ofNat (0xDC00 + (c.toNat - 0x10000) % 0x400)).toNat =
        0xDC00 + (c.toNat - 0x10000) % 0x400 := UInt16.toNat_ofNat_of_lt' (by
      simp only [UInt16.size]
      omega)
    refine .inr ⟨_, _, rfl, ?_, ?_, ?_⟩
    · rw [isHigh_iff, hhigh]
      omega
    · rw [isLow_iff, hlow]
      omega
    · have hn : 0x10000 + (0xD800 + (c.toNat - 0x10000) / 0x400 - 0xD800) * 0x400 +
          (0xDC00 + (c.toNat - 0x10000) % 0x400 - 0xDC00) = c.toNat := by
        omega
      rw [charOfPair, hhigh, hlow, hn, Char.ofNat_toNat]

theorem ofChar_ofNat (hh : isHigh u = false) (hl : isLow u = false) :
    ofChar (Char.ofNat u.toNat) = [u] := by
  rw [Bool.eq_false_iff, Ne, isHigh_iff] at hh
  rw [Bool.eq_false_iff, Ne, isLow_iff] at hl
  have hu := u.toNat_lt
  have hn : (Char.ofNat u.toNat).toNat = u.toNat := toNat_ofNat (by omega)
  rw [ofChar, hn, if_pos (by omega), UInt16.ofNat_toNat]

theorem ofChar_charOfPair (hh : isHigh u = true) (hl : isLow v = true) :
    ofChar (charOfPair u v) = [u, v] := by
  rw [isHigh_iff] at hh
  rw [isLow_iff] at hl
  generalize hn : 0x10000 + (u.toNat - 0xD800) * 0x400 + (v.toNat - 0xDC00) = n
  have hc : (charOfPair u v).toNat = n := by
    rw [charOfPair, hn]
    exact toNat_ofNat (by omega)
  have hhigh : 0xD800 + (n - 0x10000) / 0x400 = u.toNat := by omega
  have hlow : 0xDC00 + (n - 0x10000) % 0x400 = v.toNat := by omega
  rw [ofChar, hc, if_neg (by omega), hhigh, hlow, UInt16.ofNat_toNat, UInt16.ofNat_toNat]

/-! ### Texts -/

/-- **One character** in front of others. -/
theorem decode?_ofChar_append (c : Char) (us : List UInt16) :
    decode? (ofChar c ++ us) = (decode? us).map (c :: ·) := by
  rcases ofChar_cases c with ⟨u, hc, hh, hl, rfl⟩ | ⟨u, v, hc, hh, hl, rfl⟩
  · rw [hc, List.singleton_append, decode?_cons hh hl]
  · rw [hc, List.cons_append, List.singleton_append, decode?_pair hh hl]

/-- **Decoding undoes encoding.** -/
theorem decode?_encode (cs : List Char) : decode? (encode cs) = some cs := by
  induction cs with
  | nil => rfl
  | cons c cs ih =>
    have hcons : encode (c :: cs) = ofChar c ++ encode cs := rfl
    rw [hcons, decode?_ofChar_append, ih]
    rfl

/-- **Encoding undoes decoding.** -/
theorem encode_of_decode? {cs : List Char} (h : decode? us = some cs) : encode cs = us := by
  induction us using decode?.induct generalizing cs with
  | case1 =>
    cases h
    rfl
  | case2 u hs =>
    rw [decode?, if_pos hs] at h
    cases h
  | case3 u hs =>
    rw [decode?, if_neg hs] at h
    cases h
    rw [Bool.or_eq_true, not_or, Bool.not_eq_true, Bool.not_eq_true] at hs
    rw [encode, List.flatMap_singleton, ofChar_ofNat hs.1 hs.2]
  | case4 u v us hh hl ih =>
    rw [decode?_pair hh hl] at h
    obtain ⟨ds, hd, rfl⟩ := Option.map_eq_some_iff.1 h
    rw [encode, List.flatMap_cons, ofChar_charOfPair hh hl, ← encode, ih hd]
    rfl
  | case5 u v us hh hl =>
    rw [decode?, if_pos hh, if_neg hl] at h
    cases h
  | case6 u v us hh hl =>
    rw [decode?, if_neg hh, if_pos hl] at h
    cases h
  | case7 u v us hh hl ih =>
    rw [Bool.not_eq_true] at hh hl
    rw [decode?_cons hh hl] at h
    obtain ⟨ds, hd, rfl⟩ := Option.map_eq_some_iff.1 h
    rw [encode, List.flatMap_cons, ofChar_ofNat hh hl, ← encode, ih hd]
    rfl

end Utf16

end Tandem
