import Tandem.Message.Header
import Tandem.Proofs.Bytes

/-!
# Decoding and encoding headers undo each other

How long a header is depends on a bit within it.  A byte string starts with a header exactly if it
has the bytes that its first byte asks for (`decode_cases`).  What a header says is found again
behind its encoding, whatever follows (`decode_encode_append`); a code that the flags do not
announce is not written and reads as zero.  Conversely no byte of a decoded header is lost
(`encode_append_of_decode`), the bits of the flags that mean nothing included.

A code is announced by pings and by acknowledgements (`hasCode_iff`).  Whatever the flags are,
marking an acknowledgement makes it one (`marked_acknowledgement`).
-/

namespace Tandem

/-- The mark of pings and their acknowledgements is bit 6 of the flags. -/
theorem Flags.has_ping (flags : UInt8) : has flags ping = flags.toNat.testBit 6 := by
  have h : ∀ n : Fin 256, has (UInt8.ofNat n) ping = (UInt8.ofNat n).toNat.testBit 6 := by
    decide +kernel
  simpa using h ⟨flags.toNat, flags.toNat_lt⟩

theorem Flags.has_or (a b mask : UInt8) : has (a ||| b) mask = (has a mask || has b mask) := by
  have hand : (a ||| b) &&& mask = a &&& mask ||| b &&& mask :=
    UInt8.toBitVec_inj.1 BitVec.and_or_distrib_right
  rw [Bool.eq_iff_iff]
  simp only [has, hand, Bool.or_eq_true, bne_iff_ne, ne_eq, UInt8.or_eq_zero_iff]
  exact not_and_or

namespace Header

variable {bs : Bytes} {h : Header}

/-- Whether the first byte announces a code. -/
def announcesCode (bs : Bytes) : Bool := (bs.headD 0).toNat.testBit 6

/-- The length of the header that the first byte announces. -/
def announcedLength (bs : Bytes) : Nat := if announcesCode bs then codedLength else baseLength

/-! ### Two-byte numbers -/

theorem word_bigEndian (x : UInt16) : ∃ high low,
    Bytes.bigEndian 2 x.toNat = [high, low] ∧ word high low = x := by
  have heq : Bytes.bigEndian 2 x.toNat = [UInt8.ofNat (x.toNat / 256), UInt8.ofNat x.toNat] := rfl
  have hlt : x.toNat < 256 ^ 2 := x.toNat_lt
  refine ⟨_, _, heq, ?_⟩
  rw [word, ← heq, Bytes.ofBigEndian_bigEndian, Nat.mod_eq_of_lt hlt]
  exact UInt16.ofNat_toNat

theorem bigEndian_word (high low : UInt8) :
    Bytes.bigEndian 2 (word high low).toNat = [high, low] := by
  have hlt : Bytes.ofBigEndian [high, low] < 2 ^ 16 := by
    simpa using Bytes.ofBigEndian_lt [high, low]
  rw [word, UInt16.toNat_ofNat', Nat.mod_eq_of_lt hlt]
  exact Bytes.bigEndian_ofBigEndian [high, low]

/-! ### Pings and acknowledgements -/

theorem not_isPing_and_isAcknowledgement (h : Header) :
    ¬ (h.isPing = true ∧ h.isAcknowledgement = true) := by
  unfold isPing isAcknowledgement
  cases Flags.has h.flags Flags.acknowledgement <;> simp

theorem hasCode_iff (h : Header) :
    h.hasCode = true ↔ h.isPing = true ∨ h.isAcknowledgement = true := by
  unfold hasCode isPing isAcknowledgement
  cases Flags.has h.flags Flags.acknowledgement <;> simp

/-- **Marking an acknowledgement** makes it one, whatever the flags were, and leaves the mark of
commands. -/
theorem marked_acknowledgement (flags : UInt8) (tag code : UInt16) :
    let marked := flags ||| (Flags.ping ||| Flags.acknowledgement)
    isAcknowledgement ⟨marked, tag, code⟩ = true ∧
      Flags.has marked Flags.command = Flags.has flags Flags.command := by
  have hping : Flags.has (Flags.ping ||| Flags.acknowledgement) Flags.ping = true := by decide
  have hack : Flags.has (Flags.ping ||| Flags.acknowledgement) Flags.acknowledgement = true := by
    decide
  have hcommand : Flags.has (Flags.ping ||| Flags.acknowledgement) Flags.command = false := by
    decide
  simp only [isAcknowledgement, Flags.has_or _ (Flags.ping ||| Flags.acknowledgement), hping, hack,
    hcommand, Bool.or_true, Bool.or_false, Bool.and_true, and_self]

/-! ### Decoding -/

/-- **Behind the encoding of a header** that header is found.  A code counts if it is announced. -/
theorem decode_encode_append (h : Header) (rest : Bytes) :
    decode (h.encode ++ rest) = .ok { h with code := if h.hasCode then h.code else 0 } := by
  obtain ⟨flags, tag, code⟩ := h
  obtain ⟨t₁, t₀, htag, rfl⟩ := word_bigEndian tag
  obtain ⟨c₁, c₀, hcode, rfl⟩ := word_bigEndian code
  cases hf : Flags.has flags Flags.ping with
  | true => simp [encode, decode, hasCode, htag, hcode, hf]
  | false => simp [encode, decode, hasCode, htag, hf]

/-- **No byte of a header is lost** when it is decoded. -/
theorem encode_append_of_decode (hd : decode bs = .ok h) : h.encode ++ bs.drop h.length = bs := by
  unfold decode at hd
  split at hd
  · next flags t₁ t₀ rest =>
    dsimp only at hd
    split_ifs at hd with hf
    · split at hd
      · next c₁ c₀ rest' =>
        obtain rfl := Except.ok.inj hd
        have hc : Flags.has flags Flags.ping = true := hf
        simp [encode, length, hasCode, hc, bigEndian_word, codedLength]
      · cases hd
    · obtain rfl := Except.ok.inj hd
      have hc : ¬ Flags.has flags Flags.ping = true := hf
      simp [encode, length, hasCode, hc, bigEndian_word, baseLength]
  · cases hd

/-- **What a byte string decodes to**: a header of the announced length, if it has that many
bytes, and otherwise the length that is missed, the shorter one first. -/
theorem decode_cases (bs : Bytes) :
    bs.length < baseLength ∧ decode bs = .error ⟨bs.length, baseLength⟩ ∨
      baseLength ≤ bs.length ∧ announcesCode bs = true ∧ bs.length < codedLength ∧
        decode bs = .error ⟨bs.length, codedLength⟩ ∨
      baseLength ≤ bs.length ∧ announcedLength bs ≤ bs.length ∧
        ∃ h, decode bs = .ok h ∧ h.length = announcedLength bs := by
  rcases bs with _ | ⟨flags, _ | ⟨t₁, _ | ⟨t₀, rest⟩⟩⟩
  · exact .inl ⟨Nat.lt_of_sub_eq_succ rfl, rfl⟩
  · exact .inl ⟨Nat.lt_of_sub_eq_succ rfl, rfl⟩
  · exact .inl ⟨Nat.lt_of_sub_eq_succ rfl, rfl⟩
  · have hbase : baseLength ≤ (flags :: t₁ :: t₀ :: rest).length := by
      simp only [baseLength, List.length_cons]
      omega
    have hf : ∀ c, hasCode ⟨flags, word t₁ t₀, c⟩ = announcesCode (flags :: t₁ :: t₀ :: rest) :=
      fun c => Flags.has_ping flags
    refine .inr ?_
    cases ha : announcesCode (flags :: t₁ :: t₀ :: rest) with
    | false =>
      rw [ha] at hf
      refine .inr ⟨hbase, ?_, ⟨flags, word t₁ t₀, 0⟩, ?_, ?_⟩
      · simpa [announcedLength, ha] using hbase
      · simp [decode, hf]
      · simp [announcedLength, ha, length, hf]
    | true =>
      rw [ha] at hf
      rcases rest with _ | ⟨c₁, _ | ⟨c₀, rest'⟩⟩
      · exact .inl ⟨hbase, rfl, Nat.lt_of_sub_eq_succ rfl, by simp [decode, hf]⟩
      · exact .inl ⟨hbase, rfl, Nat.lt_of_sub_eq_succ rfl, by simp [decode, hf]⟩
      · refine .inr ⟨hbase, ?_, ⟨flags, word t₁ t₀, word c₁ c₀⟩, ?_, ?_⟩
        · simp only [announcedLength, ha, if_true, codedLength, List.length_cons]
          omega
        · simp [decode, hf]
        · simp [announcedLength, ha, length, hf]

end Header

end Tandem
