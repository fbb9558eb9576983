import Tandem.Proofs.Reading.Failure
import Tandem.Proofs.Reading.Read
import Tandem.Proofs.Text.Encoding
import Tandem.Proofs.Text.Utf8

/-!
# Bytes that are no text

Each encoding writes a text character by character, and no bytes start with two characters.  Bytes
that are not the encoding of a text therefore are that of a text, followed by bytes that start with
no character (`Words.refused_iff`); what such bytes look like is said by `Utf16.IllFormed` and
`Utf8.IllFormed`.  Encoding and decoding are inverse to each other between the texts and the bytes
that are accepted (`Encoding.codec`).
-/

namespace Tandem

/-! ### Character by character -/

/-- Characters are written as words, and bytes that do not start with a word are ill-formed. -/
structure Words (word : Char → Bytes) (IllFormed : Bytes → Prop) : Prop where
  length_pos (c : Char) : 0 < (word c).length
  append_inj {c c' : Char} {r r' : Bytes} (h : word c ++ r = word c' ++ r') : c = c' ∧ r = r'
  illFormed_or {bs : Bytes} (h : bs ≠ []) : IllFormed bs ∨ ∃ c rest, bs = word c ++ rest
  not_illFormed (c : Char) (rest : Bytes) : ¬ IllFormed (word c ++ rest)
  not_illFormed_nil : ¬ IllFormed []

namespace Words

variable {word : Char → Bytes} {IllFormed : Bytes → Prop} {bs rest : Bytes}

theorem cases (h : Words word IllFormed) (bs : Bytes) :
    (∃ cs : List Char, bs = cs.flatMap word) ∨
      ∃ (cs : List Char) (rest : Bytes), bs = cs.flatMap word ++ rest ∧ IllFormed rest := by
  generalize hn : bs.length = n
  induction n using Nat.strongRecOn generalizing bs with
  | ind n ih =>
    by_cases hnil : bs = []
    · exact .inl ⟨[], hnil⟩
    rcases h.illFormed_or hnil with hbad | ⟨c, rest, rfl⟩
    · exact .inr ⟨[], bs, rfl, hbad⟩
    have hlt : rest.length < n := by
      have := h.length_pos c
      rw [List.length_append] at hn
      omega
    rcases ih rest.length hlt rest rfl with ⟨cs, rfl⟩ | ⟨cs, more, rfl, hbad⟩
    · exact .inl ⟨c :: cs, List.flatMap_cons.symm⟩
    · exact .inr ⟨c :: cs, more, by rw [List.flatMap_cons, List.append_assoc], hbad⟩

theorem not_words (h : Words word IllFormed) (hbad : IllFormed rest) (cs ds : List Char) :
    cs.flatMap word ++ rest ≠ ds.flatMap word := by
  induction cs generalizing ds with
  | nil =>
    rintro rfl
    cases ds with
    | nil => exact h.not_illFormed_nil hbad
    | cons d ds =>
      rw [List.flatMap_cons] at hbad
      exact h.not_illFormed d _ hbad
  | cons c cs ih =>
    intro heq
    rw [List.flatMap_cons, List.append_assoc] at heq
    cases ds with
    | nil =>
      have hpos := h.length_pos c
      have hlen := congrArg List.length heq
      rw [List.length_append, List.flatMap_nil, List.length_nil] at hlen
      omega
    | cons d ds =>
      rw [List.flatMap_cons] at heq
      exact ih ds (h.append_inj heq).2

/-- **What is refused**: words in front of ill-formed bytes. -/
theorem refused_iff (h : Words word IllFormed) :
    (∀ cs : List Char, cs.flatMap word ≠ bs) ↔
      ∃ (cs : List Char) (rest : Bytes), bs = cs.flatMap word ++ rest ∧ IllFormed rest := by
  constructor
  · intro hne
    rcases h.cases bs with ⟨cs, rfl⟩ | hbad
    · exact absurd rfl (hne cs)
    · exact hbad
  · rintro ⟨cs, rest, rfl, hbad⟩ ds heq
    exact h.not_words hbad cs ds heq.symm

end Words

/-! ### UTF-16 -/

namespace Utf16

variable {u v : UInt16} {f : UInt16 → Bytes} {g : Bytes → Option (List UInt16)}

/-- What is wrong with bytes that do not start with a character; `f` lays out code units. -/
inductive IllFormed (f : UInt16 → Bytes) : Bytes → Prop
  /-- half a code unit -/
  | leftOver (b : UInt8) : IllFormed f [b]
  /-- a high surrogate that no low one follows -/
  | high {u : UInt16} {rest : Bytes} (hu : isHigh u = true)
      (hrest : ¬ ∃ v more, rest = f v ++ more ∧ isLow v = true) : IllFormed f (f u ++ rest)
  /-- a low surrogate that no high one precedes -/
  | low {u : UInt16} {rest : Bytes} (hu : isLow u = true) : IllFormed f (f u ++ rest)

theorem isLow_of_isHigh (h : isHigh u = true) : isLow u = false := by
  rw [isHigh_iff] at h
  rw [Bool.eq_false_iff, Ne, isLow_iff]
  omega

theorem illFormed_or_char (h : Encoding.ByteOrder f g) {bs : Bytes} (hbs : bs ≠ []) :
    IllFormed f bs ∨ ∃ c rest, bs = (ofChar c).flatMap f ++ rest := by
  rcases h.cases bs with rfl | ⟨b, rfl⟩ | ⟨u, rest, rfl⟩
  · exact absurd rfl hbs
  · exact .inl (.leftOver b)
  cases hl : isLow u with
  | true => exact .inl (.low hl)
  | false =>
    cases hh : isHigh u with
    | false =>
      refine .inr ⟨Char.ofNat u.toNat, rest, ?_⟩
      rw [ofChar_ofNat hh hl, List.flatMap_singleton]
    | true =>
      by_cases hrest : ∃ v more, rest = f v ++ more ∧ isLow v = true
      · obtain ⟨v, more, rfl, hv⟩ := hrest
        refine .inr ⟨charOfPair u v, more, ?_⟩
        rw [ofChar_charOfPair hh hv, List.flatMap_cons, List.flatMap_singleton, List.append_assoc]
      · exact .inl (.high hh hrest)

theorem flatMap_ofChar_cases (f : UInt16 → Bytes) (c : Char) :
    (∃ u, (∀ rest, (ofChar c).flatMap f ++ rest = f u ++ rest) ∧ isHigh u = false ∧
        isLow u = false ∧ Char.ofNat u.toNat = c) ∨
      ∃ u v, (∀ rest, (ofChar c).flatMap f ++ rest = f u ++ (f v ++ rest)) ∧ isHigh u = true ∧
        isLow v = true ∧ charOfPair u v = c := by
  rcases ofChar_cases c with ⟨u, hc, hh, hl, h⟩ | ⟨u, v, hc, hh, hl, h⟩
  · refine .inl ⟨u, fun rest => ?_, hh, hl, h⟩
    rw [hc, List.flatMap_singleton]
  · refine .inr ⟨u, v, fun rest => ?_, hh, hl, h⟩
    rw [hc, List.flatMap_cons, List.flatMap_singleton, List.append_assoc]

theorem not_illFormed_char (h : Encoding.ByteOrder f g) (c : Char) (rest : Bytes) :
    ¬ IllFormed f ((ofChar c).flatMap f ++ rest) := by
  intro hbad
  rcases flatMap_ofChar_cases f c with ⟨u, hc, hh, hl, -⟩ | ⟨u, v, hc, hh, hl, -⟩
  · rw [hc rest] at hbad
    generalize hbs : f u ++ rest = bs at hbad
    cases hbad with
    | leftOver b =>
      have := congrArg List.length hbs
      rw [List.length_append, h.length, List.length_singleton] at this
      omega
    | high hu _ =>
      rw [← (h.append_inj hbs).1, hh] at hu
      cases hu
    | low hu =>
      rw [← (h.append_inj hbs).1, hl] at hu
      cases hu
  · rw [hc rest] at hbad
    generalize hbs : f u ++ (f v ++ rest) = bs at hbad
    cases hbad with
    | leftOver b =>
      have := congrArg List.length hbs
      rw [List.length_append, h.length, List.length_singleton] at this
      omega
    | high _ hrest => exact hrest ⟨v, rest, (h.append_inj hbs).2.symm, hl⟩
    | low hu =>
      rw [← (h.append_inj hbs).1, isLow_of_isHigh hh] at hu
      cases hu

theorem ofChar_append_inj (h : Encoding.ByteOrder f g) {c c' : Char} {r r' : Bytes}
    (heq : (ofChar c).flatMap f ++ r = (ofChar c').flatMap f ++ r') : c = c' ∧ r = r' := by
  rcases flatMap_ofChar_cases f c with ⟨u, hc, hh, -, rfl⟩ | ⟨u, v, hc, hh, -, rfl⟩ <;>
    rcases flatMap_ofChar_cases f c' with ⟨u', hc', hh', -, rfl⟩ | ⟨u', v', hc', hh', -, rfl⟩ <;>
    rw [hc, hc'] at heq <;> obtain ⟨rfl, hr⟩ := h.append_inj heq
  · exact ⟨rfl, hr⟩
  · exact absurd (hh.symm.trans hh') Bool.false_ne_true
  · exact absurd (hh'.symm.trans hh) Bool.false_ne_true
  · obtain ⟨rfl, hrest⟩ := h.append_inj hr
    exact ⟨rfl, hrest⟩

theorem words (h : Encoding.ByteOrder f g) :
    Words (fun c => (ofChar c).flatMap f) (IllFormed f) where
  length_pos c := by
    rcases ofChar_cases c with ⟨u, hc, -⟩ | ⟨u, v, hc, -⟩ <;> rw [hc, h.length_flatMap] <;>
      exact Nat.succ_pos _
  append_inj := ofChar_append_inj h
  illFormed_or := illFormed_or_char h
  not_illFormed := not_illFormed_char h
  not_illFormed_nil hbad := by
    generalize hbs : ([] : Bytes) = bs at hbad
    cases hbad with
    | leftOver b => cases hbs
    | @high u _ _ _ | @low u _ _ =>
      have := congrArg List.length hbs
      rw [List.length_append, h.length, List.length_nil] at this
      omega

end Utf16

namespace Utf8

theorem words : Words String.utf8EncodeChar IllFormed where
  length_pos c := by
    rw [String.length_utf8EncodeChar]
    exact Char.utf8Size_pos c
  append_inj := encodeChar_append_inj
  illFormed_or := illFormed_or_char
  not_illFormed := not_illFormed_char
  not_illFormed_nil hbad := by
    generalize hbs : ([] : Bytes) = bs at hbad
    cases hbad with
    | lead h | truncated h _ => cases hbs
    | overlong h _ | surrogate h _ _ | tooLarge h _ =>
      cases h
      cases hbs

end Utf8

/-! ### Any encoding -/

namespace Encoding

variable {e : Encoding} {bs : Bytes}

/-- What is wrong with bytes that do not start with a character. -/
def IllFormed : Encoding → Bytes → Prop
  | utf16le => Utf16.IllFormed unitBytesLE
  | utf16be => Utf16.IllFormed unitBytesBE
  | utf8 => Utf8.IllFormed

/-- The bytes of one character. -/
def word : Encoding → Char → Bytes
  | utf16le, c => (Utf16.ofChar c).flatMap unitBytesLE
  | utf16be, c => (Utf16.ofChar c).flatMap unitBytesBE
  | utf8, c => String.utf8EncodeChar c

theorem words (e : Encoding) : Words e.word e.IllFormed := by
  cases e with
  | utf16le => exact Utf16.words byteOrder_le
  | utf16be => exact Utf16.words byteOrder_be
  | utf8 => exact Utf8.words

theorem encode_ofList (e : Encoding) (cs : List Char) :
    e.encode (String.ofList cs) = cs.flatMap e.word := by
  cases e with
  | utf16le | utf16be =>
    rw [encode, String.toList_ofList, Utf16.encode, List.flatMap_assoc]
    rfl
  | utf8 =>
    rw [encode, String.toByteArray_ofList, List.utf8Encode, List.data_toByteArray]
    rfl

/-- **What is refused**: the bytes of a text in front of ill-formed bytes. -/
theorem decode?_eq_none_iff :
    e.decode? bs = none ↔ ∃ s rest, bs = e.encode s ++ rest ∧ e.IllFormed rest := by
  have hnone : e.decode? bs = none ↔ ∀ cs : List Char, cs.flatMap e.word ≠ bs := by
    rw [Option.eq_none_iff_forall_ne_some]
    constructor
    · intro h cs heq
      exact h (String.ofList cs) (decode?_eq_some_iff.2 ((encode_ofList e cs).trans heq))
    · intro h s hs
      refine h s.toList ?_
      rw [← encode_ofList, String.ofList_toList]
      exact decode?_eq_some_iff.1 hs
  rw [hnone, e.words.refused_iff]
  constructor
  · rintro ⟨cs, rest, hbs, hbad⟩
    exact ⟨String.ofList cs, rest, (encode_ofList e cs).symm ▸ hbs, hbad⟩
  · rintro ⟨s, rest, hbs, hbad⟩
    refine ⟨s.toList, rest, ?_, hbad⟩
    rwa [← encode_ofList, String.ofList_toList]

theorem decode?_of_odd (he : e ≠ .utf8) (h : bs.length % 2 = 1) : e.decode? bs = none := by
  rw [Option.eq_none_iff_forall_ne_some]
  intro s hs
  have hlen := length_encode e s
  rw [decode?_eq_some_iff.1 hs] at hlen
  cases e with
  | utf16le | utf16be =>
    rw [byteCount] at hlen
    omega
  | utf8 => exact he rfl

/-- A string is read off its length and its bytes, which are all there; if they are no text, nothing
is taken. -/
theorem run_strIn (e e' : Encoding) {rest : Bytes} (h : bs.length ≤ Kind.maxCount) :
    (Read.strIn e).run ⟨Kind.count bs.length ++ (bs ++ rest), e'⟩ =
      match e.decode? bs with
      | some s => (.ok s, ⟨rest, e'⟩)
      | none => (.error (.invalidText e), ⟨Kind.count bs.length ++ (bs ++ rest), e'⟩) := by
  have hsize : id bs.length ≤ (bs ++ rest).length := by
    rw [List.length_append]
    exact Nat.le_add_right _ _
  have hcount := Read.run_count (s := id) h hsize e'
  have htake := Read.yields_take (n := bs.length) rfl e' rest
  split
  · next s hs =>
    refine Read.run_atomic_of_ok ?_
    rw [Read.run_bind_of_ok hcount, Read.run_bind_of_ok htake, hs]
    rfl
  · next hs =>
    refine @Read.run_atomic_of_error _ _ _ ⟨rest, e'⟩ _ ?_
    rw [Read.run_bind_of_ok hcount, Read.run_bind_of_ok htake, hs]
    rfl

/-- **The text codec** is a bijection between the texts and the bytes that it accepts.  A text fills
exactly `byteCount` bytes, and decoding gives it back.  Bytes decode to a text just if they are its
encoding.  All others are the bytes of a text in front of ill-formed ones; when they are read, they
are refused as invalid text and nothing is taken. -/
theorem codec (e : Encoding) :
    (∀ s room, room.length = e.byteCount s →
      e.fill s room = .ok (e.encode s) ∧ (e.encode s).length = e.byteCount s ∧
        e.decode? (e.encode s) = some s) ∧
    (∀ bs s, e.decode? bs = some s ↔ e.encode s = bs) ∧
    (∀ bs, e.decode? bs = none ↔ ∃ s rest, bs = e.encode s ++ rest ∧ e.IllFormed rest) ∧
    (∀ bs, e ≠ .utf8 → bs.length % 2 = 1 → e.decode? bs = none) ∧
    ∀ bs rest e', bs.length ≤ Kind.maxCount →
      (Read.strIn e).run ⟨Kind.count bs.length ++ (bs ++ rest), e'⟩ =
        match e.decode? bs with
        | some s => (.ok s, ⟨rest, e'⟩)
        | none => (.error (.invalidText e), ⟨Kind.count bs.length ++ (bs ++ rest), e'⟩) := by
  refine ⟨?_, fun _ _ => decode?_eq_some_iff, fun _ => decode?_eq_none_iff, ?_, ?_⟩
  · intro s room h
    exact ⟨fill_eq_encode h, length_encode e s, decode?_encode e s⟩
  · intro bs he h
    exact decode?_of_odd he h
  · intro bs rest e' h
    exact run_strIn e e' h

/-- A pair of surrogates is written and read back; a surrogate in UTF-8 is refused. -/
theorem codec_surrogates :
    utf16le.fill (String.ofList [Char.ofNat 0x1F600]) [1, 1, 1, 1] = .ok [0x3D, 0xD8, 0x00, 0xDE] ∧
      utf16le.decode? [0x3D, 0xD8, 0x00, 0xDE] = some (String.ofList [Char.ofNat 0x1F600]) ∧
        (Read.strIn utf16be).run ⟨[0, 0, 0, 2, 0xD8, 0x3D, 7], .utf8⟩ =
          (.error (.invalidText utf16be), ⟨[0, 0, 0, 2, 0xD8, 0x3D, 7], .utf8⟩) ∧
            utf8.decode? [0x41, 0xED, 0xA0, 0x80] = none := by
  have hencode : utf16le.encode (String.ofList [Char.ofNat 0x1F600]) =
      [0x3D, 0xD8, 0x00, 0xDE] := by
    rw [encode_ofList]
    rfl
  obtain ⟨hfill, -, hdecode⟩ := (codec utf16le).1 (String.ofList [Char.ofNat 0x1F600]) [1, 1, 1, 1]
    (by rw [← length_encode, hencode]; rfl)
  rw [hencode] at hfill hdecode
  refine ⟨hfill, hdecode, ?_, ?_⟩
  · have hrun := (codec utf16be).2.2.2.2 [0xD8, 0x3D] [7] .utf8 (by decide)
    rw [((codec utf16be).2.2.1 [0xD8, 0x3D]).2 ⟨"", [0xD8, 0x3D], rfl, ?_⟩] at hrun
    · exact hrun
    · exact .high (u := 0xD83D) rfl fun ⟨v, more, h, _⟩ => by cases h
  · refine ((codec utf8).2.2.1 [0x41, 0xED, 0xA0, 0x80]).2
      ⟨String.ofList ['A'], [0xED, 0xA0, 0x80], ?_, ?_⟩
    · rw [encode_ofList]
      rfl
    · have htails : ∀ t ∈ ([0xA0, 0x80] : Bytes), Utf8.isTail t = true :=
        List.forall_mem_cons.2 ⟨rfl, List.forall_mem_singleton.2 rfl⟩
      have hspells : Utf8.Spells [0xED, 0xA0, 0x80] 0xD800 :=
        @Utf8.Spells.intro 0xED [0xA0, 0x80] 0xD rfl htails
      exact @Utf8.IllFormed.surrogate _ [] _ hspells (by decide) (by decide)

end Encoding

end Tandem
