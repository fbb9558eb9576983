import Tandem.Proofs.Handshake

/-!
# Which bytes are a handshake message

A token is taken off a byte string exactly if it begins with the token message (`takeToken_ok_iff`),
and a greeting exactly if there are twelve bytes (`takeHello_ok_iff`).  Whatever else the bytes are,
there is one reason for which they are refused, and it says how many of them are used up all the
same (`NoToken`, `takeHello_error_iff`).  A datagram is an echo only if it is a token message as a
whole (`recognises_exactly`).
-/

namespace Tandem

namespace Handshake

/-- Why no token can be taken off a byte string, and how many bytes are used up all the same. -/
inductive NoToken : Bytes → Malformed → Nat → Prop
  | empty : NoToken [] (.tooShort 1 0) 0
  | otherVersion {v : UInt8} (rest : Bytes) (hv : v ≠ version) :
      NoToken (v :: rest) (.unsupportedVersion v) 1
  /-- the version is there, and not all of the token -/
  | short {rest : Bytes} (h : rest.length < 8) :
      NoToken (version :: rest) (.tooShort 8 rest.length) 1

variable {t : Token} {bs : Bytes} {used : Nat} {e : Malformed}

/-! ### Bytes of a token -/

theorem encodeHello_eq (t : Token) :
    encodeHello t = Bytes.bigEndian 8 t.toNat ++ Bytes.zeros 4 := rfl

theorem toNat_eq_toInt_emod (t : Token) : (t.toNat : Int) = Scalar.toInt t % 2 ^ 64 := by
  have hword : ∀ x : BitVec 64, (x.toNat : Int) = x.toInt % 2 ^ 64 := fun x => by
    have hlt : (x.toNat : Int) < 2 ^ 64 := Int.ofNat_lt.2 x.isLt
    rw [BitVec.toInt_eq_toNat_bmod, Int.bmod_def]
    split <;> omega
  exact hword t

theorem length_encode_token (t : Token) : (Scalar.encode t).length = 8 := Scalar.length_encode t

theorem encodeHello_injective : Function.Injective encodeHello := by
  intro t t' h
  have hbytes := (List.append_inj h ((length_encode_token t).trans (length_encode_token t').symm)).1
  rw [← Scalar.decode_encode t, hbytes, Scalar.decode_encode]

/-! ### Taking a token -/

theorem NoToken.takeToken_eq (h : NoToken bs e used) : takeToken bs = (.error e, used) := by
  cases h with
  | empty => rfl
  | otherVersion rest hv => rw [takeToken_cons, if_neg hv]
  | short h => rw [takeToken_cons, if_pos rfl, if_pos h]

/-- A byte string begins with a token message, or there is a reason why it does not. -/
theorem encodeToken_or_noToken (bs : Bytes) :
    (∃ t, encodeToken t <+: bs) ∨ ∃ e used, NoToken bs e used := by
  cases bs with
  | nil => exact .inr ⟨_, _, .empty⟩
  | cons v rest =>
    by_cases hv : v = version
    · subst hv
      by_cases hshort : rest.length < 8
      · exact .inr ⟨_, _, .short hshort⟩
      · have hbytes : (rest.take 8).length = ScalarKind.i64.size :=
          List.length_take_of_le (Nat.not_lt.1 hshort)
        refine .inl ⟨Scalar.decode .i64 (rest.take 8), rest.drop 8, ?_⟩
        rw [encodeToken, Scalar.encode_decode hbytes, List.cons_append, List.take_append_drop]
    · exact .inr ⟨_, _, .otherVersion rest hv⟩

/-- **A token is taken** off a byte string exactly if it begins with the token message, of which all
bytes are used up and none behind it. -/
theorem takeToken_ok_iff :
    takeToken bs = (.ok t, used) ↔ encodeToken t <+: bs ∧ used = tokenLength := by
  constructor
  · intro h
    rcases encodeToken_or_noToken bs with ⟨t', rest, rfl⟩ | ⟨e, used', hno⟩
    · rw [takeToken_append] at h
      cases h
      exact ⟨List.prefix_append _ _, rfl⟩
    · rw [hno.takeToken_eq] at h
      cases h
  · rintro ⟨⟨rest, rfl⟩, rfl⟩
    exact takeToken_append t rest

theorem takeToken_error_iff : takeToken bs = (.error e, used) ↔ NoToken bs e used := by
  refine ⟨fun h => ?_, NoToken.takeToken_eq⟩
  rcases encodeToken_or_noToken bs with ⟨t', rest, rfl⟩ | ⟨e', used', hno⟩
  · rw [takeToken_append] at h
    cases h
  · rw [hno.takeToken_eq] at h
    cases h
    exact hno

/-! ### Taking a greeting -/

/-- **A greeting is taken** off any twelve bytes; the token is the one with the first eight of them,
and no more are used up. -/
theorem takeHello_ok_iff :
    takeHello bs = (.ok t, used) ↔ helloLength ≤ bs.length ∧ t.encode = bs.take 8 ∧ used = 8 := by
  rw [takeHello_eq]
  split_ifs with hlong
  · have hbytes : (bs.take 8).length = ScalarKind.i64.size :=
      List.length_take_of_le (Nat.le_trans (by decide) hlong)
    constructor
    · intro h
      cases h
      exact ⟨hlong, Scalar.encode_decode hbytes, rfl⟩
    · rintro ⟨-, hencode, rfl⟩
      rw [← hencode, Scalar.decode_encode]
  · exact ⟨nofun, fun h => absurd h.1 hlong⟩

theorem takeHello_error_iff :
    takeHello bs = (.error e, used) ↔
      bs.length < helloLength ∧ e = .shortHello bs.length ∧ used = 0 := by
  rw [takeHello_eq]
  split_ifs with hlong
  · exact ⟨nofun, fun h => absurd hlong (Nat.not_le.2 h.1)⟩
  · refine ⟨fun h => ?_, ?_⟩
    · cases h
      exact ⟨Nat.not_le.1 hlong, rfl, rfl⟩
    · rintro ⟨-, rfl, rfl⟩
      rfl

/-! ### Echoes -/

theorem isSome_tokenOfDatagram?_iff :
    (tokenOfDatagram? bs).isSome = true ↔ bs.length = tokenLength ∧ bs.head? = some version := by
  rw [Option.isSome_iff_exists]
  constructor
  · rintro ⟨t, ht⟩
    obtain rfl := tokenOfDatagram?_eq_some_iff.1 ht
    exact ⟨length_encodeToken t, rfl⟩
  · rintro ⟨hlen, hversion⟩
    rcases encodeToken_or_noToken bs with ⟨t, hfront⟩ | ⟨e, used, hno⟩
    · exact ⟨t, tokenOfDatagram?_eq_some_iff.2
        (hfront.eq_of_length ((length_encodeToken t).trans hlen.symm)).symm⟩
    · cases hno with
      | empty => cases hlen
      | otherVersion rest hv => exact absurd (Option.some.inj hversion) hv
      | short h => exact absurd (Nat.succ.inj hlen) (Nat.ne_of_lt h)

/-- What makes a byte string a handshake message, for a token and for all byte strings. -/
structure Recognises (t : Token) : Prop where
  /-- the messages: the version and the eight bytes of the token, or these and four zeros -/
  token_eq : encodeToken t = 0 :: Bytes.bigEndian 8 t.toNat
  hello_eq : encodeHello t = Bytes.bigEndian 8 t.toNat ++ [0, 0, 0, 0]
  number : (t.toNat : Int) = Scalar.toInt t % 2 ^ 64
  /-- a datagram is an echo of the token only if it is the token message, byte for byte -/
  echo : ∀ bs, tokenOfDatagram? bs = some t ↔ bs = encodeToken t
  /-- the token is taken off what begins with its message, and that is used up -/
  token : ∀ bs used, takeToken bs = (.ok t, used) ↔ encodeToken t <+: bs ∧ used = 9
  /-- it is taken off what has twelve bytes and begins with those of the token, which are used up -/
  hello : ∀ bs used,
    takeHello bs = (.ok t, used) ↔ 12 ≤ bs.length ∧ t.encode = bs.take 8 ∧ used = 8
  /-- each message gives back the token and no other, whatever stands behind it -/
  token_back : ∀ rest t' used,
    takeToken (encodeToken t ++ rest) = (.ok t', used) ↔ t' = t ∧ used = 9
  hello_back : ∀ rest t' used,
    takeHello (encodeHello t ++ rest) = (.ok t', used) ↔ t' = t ∧ used = 8
  /-- so that another token has other messages -/
  token_ne : ∀ t', t' ≠ t → encodeToken t' ≠ encodeToken t
  hello_ne : ∀ t', t' ≠ t → encodeHello t' ≠ encodeHello t

theorem recognises (t : Token) : Recognises t where
  token_eq := rfl
  hello_eq := rfl
  number := toNat_eq_toInt_emod t
  echo _ := tokenOfDatagram?_eq_some_iff
  token _ _ := takeToken_ok_iff
  hello _ _ := takeHello_ok_iff
  token_back rest t' used := by
    rw [takeToken_append]
    constructor
    · intro h
      cases h
      exact ⟨rfl, rfl⟩
    · rintro ⟨rfl, rfl⟩
      rfl
  hello_back rest t' used := by
    have htake : (encodeHello t ++ rest).take 8 = Scalar.encode t := by
      rw [encodeHello, List.append_assoc, List.take_left' (length_encode_token t)]
    have hlong : helloLength ≤ (encodeHello t ++ rest).length := by
      rw [List.length_append, encodeHello_eq, List.length_append, Bytes.length_bigEndian,
        Bytes.length_zeros]
      exact Nat.le_add_right _ _
    rw [takeHello_ok_iff, htake]
    constructor
    · rintro ⟨-, hencode, rfl⟩
      rw [← Scalar.decode_encode t', hencode, Scalar.decode_encode]
      exact ⟨rfl, rfl⟩
    · rintro ⟨rfl, rfl⟩
      exact ⟨hlong, rfl, rfl⟩
  token_ne _ hne h := hne (encodeToken_injective h)
  hello_ne _ hne h := hne (encodeHello_injective h)

/-- **Handshake messages are recognised exactly.**  Every byte string that a token or a greeting is
not taken off has one of the known faults, and this alone decides what is used up of it; and no
datagram of another length or version is an echo. -/
theorem recognises_exactly :
    (∀ t, Recognises t) ∧
      ∀ bs : Bytes,
        (∀ e used, takeToken bs = (.error e, used) ↔ NoToken bs e used) ∧
        (∀ e used, takeHello bs = (.error e, used) ↔
          bs.length < 12 ∧ e = .shortHello bs.length ∧ used = 0) ∧
        ((tokenOfDatagram? bs).isSome = true ↔ bs.length = 9 ∧ bs.head? = some 0) :=
  ⟨recognises, fun _ => ⟨fun _ _ => takeToken_error_iff, fun _ _ => takeHello_error_iff,
    isSome_tokenOfDatagram?_iff⟩⟩

end Handshake

end Tandem
