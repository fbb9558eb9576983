import Tandem.Proofs.Reading.Failure
import Tandem.Proofs.Reading.Sequence

/-!
# Reading accepts what is written

`Read.Takes` says what is known of the bytes that a read took and of the value that it made of them.
It is closed under doing one read after the other, so that it can be read off how the reads of
values are put together.  Each of them takes the encoding of the value that it gives
(`Kind.takes_read`), up to what a packed truth value leaves open (`Kind.canonical`).  A reader
therefore accepts only what a writer writes (`Reader.read_canonical`).
-/

namespace Tandem

namespace Read

variable {α β : Type} {r : Read α} {f : α → Read β} {W W' : Encoding → Bytes → α → Prop}
  {V : α → Encoding → Bytes → β → Prop}

/-- The bytes that `r` takes and the value that it gives satisfy `W`, where strings are read in the
given way before and after. -/
def Takes (r : Read α) (W : Encoding → Bytes → α → Prop) : Prop :=
  ∀ c a c', r.run c = (.ok a, c') → ∃ bs, c = ⟨bs ++ c'.rest, c'.encoding⟩ ∧ W c'.encoding bs a

theorem Takes.mono (hr : r.Takes W) (h : ∀ e bs a, W e bs a → W' e bs a) : r.Takes W' := by
  intro c a c' hrun
  obtain ⟨bs, hc, hw⟩ := hr c a c' hrun
  exact ⟨bs, hc, h _ bs a hw⟩

/-! ### One read after the other -/

theorem takes_pure (a : α) : (pure a : Read α).Takes fun _ bs b => bs = [] ∧ b = a := by
  intro c b c' h
  cases h
  exact ⟨[], rfl, rfl, rfl⟩

theorem takes_fail (e : ReadError) (W : Encoding → Bytes → α → Prop) : (fail e).Takes W := by
  intro c a c' h
  cases h

theorem Takes.bind (hr : r.Takes W) (hf : ∀ a, (f a).Takes (V a)) :
    (r >>= f).Takes fun e bs b =>
      ∃ a first more, bs = first ++ more ∧ W e first a ∧ V a e more b := by
  intro c b c'' h
  cases hrun : r.run c with
  | mk x c' =>
    cases x with
    | error e =>
      rw [run_bind_of_error hrun] at h
      cases h
    | ok a =>
      rw [run_bind_of_ok hrun] at h
      obtain ⟨first, hc, hw⟩ := hr c a c' hrun
      obtain ⟨more, hc', hv⟩ := hf a c' b c'' h
      rw [hc'] at hc hw
      exact ⟨first ++ more, by rw [hc, List.append_assoc], a, first, more, rfl, hw, hv⟩

theorem Takes.map (hr : r.Takes W) (g : α → β) :
    (r >>= fun a => pure (g a)).Takes fun e bs b => ∃ a, W e bs a ∧ b = g a := by
  refine (hr.bind fun a => takes_pure (g a)).mono ?_
  rintro e bs b ⟨a, first, more, rfl, hw, rfl, rfl⟩
  exact ⟨a, (List.append_nil first).symm ▸ hw, rfl⟩

theorem Takes.atomic (hr : r.Takes W) : (Read.atomic r).Takes W := by
  intro c a c' h
  cases hrun : r.run c with
  | mk x d =>
    cases x with
    | ok b =>
      rw [run_atomic_of_ok hrun] at h
      cases h
      exact hr c a c' hrun
    | error e =>
      rw [run_atomic_of_error hrun] at h
      cases h

/-- **Many values in a row**, by induction on their number. -/
theorem Takes.times {P : Encoding → α → Prop} {enc : Encoding → α → Bytes}
    (hr : r.Takes fun e bs a => bs = enc e a ∧ P e a) (n : Nat) :
    (Read.times n r).Takes fun e bs as =>
      bs = (as.map (enc e)).flatten ∧ as.length = n ∧ ∀ a ∈ as, P e a := by
  have honto : ∀ (n : Nat) (acc : List α) (c : Cursor) (as : List α) (c' : Cursor),
      timesOnto r n acc c = (.ok as, c') → ∃ new, as = acc.reverse ++ new ∧ new.length = n ∧
        c = ⟨(new.map (enc c'.encoding)).flatten ++ c'.rest, c'.encoding⟩ ∧
          ∀ a ∈ new, P c'.encoding a := by
    intro n
    induction n with
    | zero =>
      intro acc c as c' h
      cases h
      exact ⟨[], (List.append_nil _).symm, rfl, rfl, fun a ha => by cases ha⟩
    | succ n ih =>
      intro acc c as c' h
      rw [timesOnto] at h
      cases hrun : r.run c with
      | mk x d =>
        rw [hrun] at h
        cases x with
        | error e => cases h
        | ok a =>
          obtain ⟨bs, hc, rfl, ha⟩ := hr c a d hrun
          obtain ⟨new, rfl, hlen, hd, hnew⟩ := ih (a :: acc) d as c' h
          rw [hd] at hc ha
          refine ⟨a :: new, by rw [List.reverse_cons, List.append_assoc, List.singleton_append],
            by rw [List.length_cons, hlen], ?_, List.forall_mem_cons.2 ⟨ha, hnew⟩⟩
          rw [hc, List.map_cons, List.flatten_cons, List.append_assoc]
  intro c as c' h
  obtain ⟨new, rfl, hlen, hc, hnew⟩ := honto n [] c as c' h
  exact ⟨_, hc, rfl, hlen, hnew⟩

/-! ### Bytes and counts -/

theorem takes_encoding : encoding.Takes fun e bs e' => bs = [] ∧ e' = e := by
  intro c e c' h
  cases h
  exact ⟨[], rfl, rfl, rfl⟩

theorem takes_take (n : Nat) : (take n).Takes fun _ bs a => bs = a ∧ a.length = n := by
  intro c a c' h
  rcases Nat.lt_or_ge c.rest.length n with hlt | hle
  · rw [run_take_of_lt hlt] at h
    cases h
  · rw [run_take_of_le hle] at h
    cases h
    exact ⟨c.rest.take n, by rw [List.take_append_drop], rfl, List.length_take_of_le hle⟩

/-- **A count** is taken as it is written. -/
theorem takes_count (size : Nat → Nat) :
    (count size).Takes fun _ bs n => bs = Kind.count n ∧ n ≤ Kind.maxCount := by
  intro c n c' h
  rcases count_cases size c with ⟨e, -, hc⟩ | ⟨n', ⟨hn, htake⟩, -, hc⟩
  · rw [hc] at h
    cases h
  · rw [hc] at h
    cases h
    exact ⟨c.rest.take 4, by rw [List.take_append_drop], htake, hn⟩

theorem takes_counted (size : Nat → Nat) (g : Nat → Bytes → α) :
    (count size >>= fun n => take (size n) >>= fun bs => pure (g n bs)).Takes fun _ bs a =>
      ∃ n payload, bs = Kind.count n ++ payload ∧ n ≤ Kind.maxCount ∧ payload.length = size n ∧
        a = g n payload := by
  refine ((takes_count size).bind fun n => (takes_take (size n)).map (g n)).mono ?_
  rintro e bs a ⟨n, first, more, rfl, ⟨rfl, hn⟩, payload, ⟨rfl, hlen⟩, rfl⟩
  exact ⟨n, more, rfl, hn, hlen, rfl⟩

/-! ### Values -/

theorem takes_scalar (k : ScalarKind) : (scalar k).Takes fun _ bs x => bs = Scalar.encode x := by
  refine ((takes_take k.size).map (Scalar.decode k)).mono ?_
  rintro e bs x ⟨bs, ⟨rfl, hlen⟩, rfl⟩
  exact (Scalar.encode_decode hlen).symm

theorem takes_decoded (e' : Encoding) (bs : Bytes) :
    Takes (match e'.decode? bs with
      | some s => pure s
      | none => fail (.invalidText e')) fun _ more s => more = [] ∧ e'.decode? bs = some s := by
  split
  · next s hs =>
    refine (takes_pure s).mono ?_
    rintro e more t ⟨rfl, rfl⟩
    exact ⟨rfl, hs⟩
  · exact takes_fail _ _

theorem takes_strIn (e' : Encoding) :
    (strIn e').Takes fun _ bs s => bs = Kind.text e' s ∧ e'.byteCount s ≤ Kind.maxCount := by
  refine Takes.atomic
    (((takes_count id).bind fun n => (takes_take n).bind (takes_decoded e')).mono ?_)
  rintro e bs s ⟨n, first, more, rfl, ⟨rfl, hn⟩, payload, _, _, rfl, ⟨rfl, rfl⟩, rfl, hs⟩
  obtain rfl := Encoding.decode?_eq_some_iff.1 hs
  rw [List.append_nil, Kind.text]
  exact ⟨rfl, by rwa [Encoding.length_encode] at hn⟩

theorem takes_str :
    str.Takes fun e bs s => bs = Kind.text e s ∧ e.byteCount s ≤ Kind.maxCount := by
  refine (takes_encoding.bind takes_strIn).mono ?_
  rintro e bs s ⟨_, -, more, rfl, ⟨rfl, rfl⟩, hs⟩
  exact hs

theorem takes_single (s : String) :
    Takes (match s.toList with
      | [c] => pure c
      | _ => encoding >>= fun e => fail (.invalidText e))
      fun _ more c => more = [] ∧ s = String.singleton c := by
  split
  · next c hc =>
    refine (takes_pure c).mono ?_
    rintro e more d ⟨rfl, rfl⟩
    exact ⟨rfl, String.toList_inj.1 (by rw [hc, String.toList_singleton])⟩
  · refine (takes_encoding.bind fun e => takes_fail _ fun _ _ _ => False).mono ?_
    rintro e more d ⟨_, -, -, -, -, h⟩
    exact h.elim

theorem takes_char : char.Takes fun e bs c => bs = Kind.text e (String.singleton c) := by
  refine Takes.atomic ((takes_str.bind takes_single).mono ?_)
  rintro e bs c ⟨s, first, more, rfl, ⟨rfl, -⟩, rfl, rfl⟩
  exact List.append_nil _

theorem takes_rawOf (n : Nat) : (rawOf n).Takes fun _ bs v => bs = v.1 := by
  intro c v c' h
  rcases rawOf_cases n c with ⟨-, hc⟩ | ⟨w, -, hw, hc⟩
  · rw [hc] at h
    cases h
  · rw [hc] at h
    cases h
    exact ⟨c.rest.take n, by rw [List.take_append_drop], hw.symm⟩

theorem takes_strs : strs.Takes fun e bs ss =>
    bs = Kind.count ss.length ++ (ss.map (Kind.text e)).flatten ∧ ss.length ≤ Kind.maxCount ∧
      ∀ s ∈ ss, e.byteCount s ≤ Kind.maxCount := by
  refine Takes.atomic (((takes_count _).bind fun n => takes_str.times n).mono ?_)
  rintro e bs ss ⟨n, first, more, rfl, ⟨rfl, hn⟩, rfl, rfl, hss⟩
  exact ⟨rfl, hn, hss⟩

end Read

/-! ### Values of all kinds -/

namespace Kind

/-- The bytes that are written for the value that is read off the given ones: a byte other than 1 is
no truth value but false, and the bits behind the packed ones are clear.  All other bytes are as
they are. -/
def canonical : Kind → Bytes → Bytes
  | bool, bs => bs.map fun b => if b = 1 then 1 else 0
  | bools, bs => bs.take 4 ++ Bytes.clearSpare (Bytes.ofBigEndian (bs.take 4)) (bs.drop 4)
  | _, bs => bs

/-- What is known of the bytes that a value was read off. -/
structure Shows (k : Kind) (e : Encoding) (bs : Bytes) (v : k.Value) : Prop where
  fits : k.Fits e v
  encode_eq : k.encode e v = k.canonical bs
  /-- what lies behind them does not matter -/
  yields : k.read.Yields e bs v e

theorem shows_of_eq {k : Kind} {e : Encoding} {bs : Bytes} {v : k.Value} (hbs : bs = k.encode e v)
    (h : k.Fits e v) (hc : k.canonical bs = bs) : k.Shows e bs v := by
  subst hbs
  exact ⟨h, hc.symm, yields_encode h⟩

theorem takes_bool : Read.bool.Takes bool.Shows := by
  refine ((Read.takes_scalar .u8).map fun x => decide (x = 1)).mono ?_
  rintro e bs v ⟨x, rfl, rfl⟩
  have hone : UInt8.ofNat x.toNat = 1 ↔ x = 1 := by
    have hlt : x.toNat < 256 := x.isLt
    rw [← UInt8.toNat_inj, UInt8.toNat_ofNat_of_lt' hlt]
    exact BitVec.toNat_inj (y := (1 : BitVec 8))
  refine ⟨trivial, ?_, (Read.yields_scalar x e).bind_pure rfl⟩
  show [if decide (x = 1) = true then 1 else 0] = [if UInt8.ofNat x.toNat = 1 then 1 else 0]
  simp only [hone, decide_eq_true_iff]

theorem takes_bools : Read.bools.Takes bools.Shows := by
  refine (Read.takes_counted Bytes.octetCount fun n bs => bs.unpackBits n).mono ?_
  rintro e bs v ⟨n, payload, rfl, hn, hlen, rfl⟩
  have hbits : (Bytes.unpackBits n payload).length = n := Bytes.length_unpackBits hlen
  have h4 : (count n).length = 4 := Bytes.length_bigEndian 4 n
  have hcount : Bytes.ofBigEndian (count n) = n := by
    unfold maxCount at hn
    rw [count, Bytes.ofBigEndian_bigEndian]
    exact Nat.mod_eq_of_lt (by omega)
  have hfits : (Bytes.unpackBits n payload).length ≤ maxCount := by
    rw [hbits]
    exact hn
  refine ⟨hfits, ?_, ?_⟩
  · rw [encode, layout, List.flatten_singleton, canonical, List.take_left' h4, List.drop_left' h4,
      hcount, hbits, Bytes.packBits_unpackBits hlen]
  · exact Read.yields_count hn (Nat.le_of_eq hlen.symm) ((Read.yields_take hlen e).bind_pure rfl)

/-- **The read of a value** takes what is written for the value that it gives. -/
theorem takes_read (k : Kind) : k.read.Takes k.Shows := by
  cases k with
  | bool => exact takes_bool
  | bools => exact takes_bools
  | scalar k =>
    exact (Read.takes_scalar k).mono fun e bs x h =>
      shows_of_eq (h.trans (List.flatten_singleton).symm) trivial rfl
  | char =>
    exact Read.takes_char.mono fun e bs c h =>
      shows_of_eq (h.trans (List.flatten_singleton).symm) trivial rfl
  | str =>
    exact Read.takes_str.mono fun e bs s h =>
      shows_of_eq (h.1.trans (List.flatten_singleton).symm) h.2 rfl
  | strIn e' =>
    exact (Read.takes_strIn e').mono fun e bs s h =>
      shows_of_eq (h.1.trans (List.flatten_singleton).symm) h.2 rfl
  | chars =>
    refine (Read.takes_str.map String.toList).mono ?_
    rintro e bs cs ⟨s, ⟨rfl, hs⟩, rfl⟩
    have hself : String.ofList s.toList = s := String.ofList_toList
    have hfits : e.byteCount (String.ofList s.toList) ≤ maxCount := by
      rw [hself]
      exact hs
    refine shows_of_eq ?_ hfits rfl
    rw [encode, layout, List.flatten_singleton, hself]
  | bytes =>
    refine ((Read.takes_count id).bind Read.takes_take).mono ?_
    rintro e bs v ⟨n, first, more, rfl, ⟨rfl, hn⟩, rfl, rfl⟩
    exact shows_of_eq (List.flatten_singleton).symm hn rfl
  | raw n =>
    exact (Read.takes_rawOf n).mono fun e bs v h =>
      shows_of_eq (h.trans (List.flatten_singleton).symm) trivial rfl
  | scalars k =>
    refine (Read.takes_counted (· * k.size) fun n bs => Scalar.decodeMany k n bs).mono ?_
    rintro e bs v ⟨n, payload, rfl, hn, hlen, rfl⟩
    have hmany := Scalar.length_decodeMany (k := k) n payload
    have hfits : (Scalar.decodeMany k n payload).length ≤ maxCount := by
      rw [hmany]
      exact hn
    refine shows_of_eq ?_ hfits rfl
    rw [encode, layout, List.flatten_singleton, hmany, Scalar.flatMap_decodeMany hlen]
  | strs => exact Read.takes_strs.mono fun e bs ss h => shows_of_eq h.1 h.2 rfl

end Kind

/-! ### Readers -/

/-- Writes a value to a new writer with room for `room` bytes. -/
def Writer.writeNew (k : Kind) (v : k.Value) (room : Nat) (e : Encoding) (m : Memory) :
    Writer × Memory :=
  (create room e m).1.write k v (create room e m).2

theorem Writer.bytes_writeNew {others : List View} {m : Memory} (h : m.HeldBy others) (k : Kind)
    (v : k.Value) (room : Nat) (e : Encoding) :
    (writeNew k v room e m).1.bytes (writeNew k v room e m).2 = k.encode e v := by
  obtain ⟨hsound, -⟩ := sound_create h room e
  rw [writeNew, (wrote_write hsound k v).bytes_eq, bytes_create, Bytes.splice, List.take_nil,
    List.drop_nil, List.nil_append, List.append_nil]
  rfl

namespace Reader

open Memory (HeldBy)

variable {r r' : Reader} {m : Memory} {vs : List View} {k : Kind} {v : k.Value}

/-- A read took `bs`, gave `v` and left `r'`. -/
structure Accepts (r : Reader) (m : Memory) (k : Kind) (bs : Bytes) (v : k.Value) (r' : Reader) :
    Prop where
  rest_eq : r.rest m = bs ++ r'.rest m
  reader_eq : r' = { r with position := r.position + bs.length }
  /-- everything in the value that is counted can be counted -/
  fits : k.Fits r.encoding v
  /-- what a new writer writes for the value, in whatever memory and with whatever room -/
  written_eq : ∀ (m₁ : Memory) (others : List View) (room : Nat), m₁.HeldBy others →
    (Writer.writeNew k v room r.encoding m₁).1.bytes (Writer.writeNew k v room r.encoding m₁).2 =
      k.canonical bs
  /-- whoever has these bytes before it reads the value off them, whatever lies behind -/
  again : ∀ (m₁ : Memory) (r₁ : Reader) (more : Bytes), r₁.encoding = r.encoding →
    r₁.Has m₁ (bs ++ more) → ∃ r₂, r₁.read k.read m₁ = (.ok v, r₂) ∧ r₂.Has m₁ more

theorem accepts_of_read (h : m.HeldBy vs) (hv : r.view ∈ vs) (hp : r.position ≤ r.length)
    (hread : r.read k.read m = (.ok v, r')) :
    ∃ bs, r.Accepts m k bs v r' ∧ k.Shows r.encoding bs v := by
  obtain ⟨x, c, hrun⟩ : ∃ x c, k.read.run (r.cursor m) = (x, c) := ⟨_, _, rfl⟩
  obtain ⟨rfl, rfl⟩ : x = .ok v ∧ r.reach c = r' := by
    rw [Reader.read, hrun] at hread
    exact Prod.mk.inj hread
  obtain ⟨bs, hc, hs⟩ := k.takes_read _ v c hrun
  have hrest : r.rest m = bs ++ c.rest := congrArg Cursor.rest hc
  have hencoding : r.encoding = c.encoding := congrArg Cursor.encoding hc
  rw [← hencoding] at hs
  have hlen : r.length - r.position = bs.length + c.rest.length := by
    rw [← List.length_append, ← hrest, rest, List.length_drop, h.length_bytes hv]
    rfl
  have hposition : r.length - c.rest.length = r.position + bs.length := by omega
  refine ⟨bs, ⟨?_, ?_, hs.fits, ?_, ?_⟩, hs⟩
  · show r.rest m = bs ++ (r.view.bytes m).drop (r.length - c.rest.length)
    rw [hposition, ← List.drop_drop, ← rest, hrest, List.drop_left]
  · rw [reach, hposition, ← hencoding]
  · intro m₁ others room hm₁
    rw [Writer.bytes_writeNew hm₁, hs.encode_eq]
  · intro m₁ r₁ more hr₁ hhas
    rw [← hr₁] at hs
    obtain ⟨r₂, hr₂, hhas₂, -⟩ := hhas.read hs.yields
    exact ⟨r₂, hr₂, hhas₂⟩

/-- **A reader accepts only what a writer writes.**  Whatever the bytes are, a value that is read is
written as the bytes that it was read off, except for what is open in truth values; and it is read
off these bytes whatever lies behind them. -/
theorem read_canonical (h : m.HeldBy vs) (hv : r.view ∈ vs) (hp : r.position ≤ r.length) :
    (∀ (k : Kind) (v : k.Value) (r' : Reader), r.read k.read m = (.ok v, r') →
      ∃ bs, r.Accepts m k bs v r') ∧
    (∀ (k : Kind) (bs : Bytes), k ≠ .bool → k ≠ .bools → k.canonical bs = bs) ∧
    ∀ (b : Bool) (r' : Reader), r.read Kind.bool.read m = (.ok b, r') →
      ∃ byte, r.rest m = byte :: r'.rest m ∧ b = decide (byte = 1) := by
  refine ⟨?_, ?_, ?_⟩
  · intro k v r' hread
    obtain ⟨bs, ha, -⟩ := accepts_of_read h hv hp hread
    exact ⟨bs, ha⟩
  · intro k bs hbool hbools
    cases k with
    | bool => exact absurd rfl hbool
    | bools => exact absurd rfl hbools
    | _ => rfl
  · intro b r' hread
    obtain ⟨bs, ha, hs⟩ := accepts_of_read h hv hp hread
    have hencode : [if b then 1 else 0] = bs.map fun byte => if byte = 1 then (1 : UInt8) else 0 :=
      hs.encode_eq
    obtain ⟨byte, rfl⟩ : ∃ byte, bs = [byte] := by
      refine List.length_eq_one_iff.1 ?_
      have hlen := congrArg List.length hencode
      rw [List.length_map] at hlen
      exact hlen.symm
    refine ⟨byte, ha.rest_eq, ?_⟩
    have hbyte : (if b then (1 : UInt8) else 0) = if byte = 1 then 1 else 0 :=
      (List.cons.inj hencode).1
    by_cases h1 : byte = 1
    · rw [if_pos h1] at hbyte
      cases b with
      | true => exact (decide_eq_true h1).symm
      | false => exact absurd hbyte (by decide)
    · rw [if_neg h1] at hbyte
      cases b with
      | true => exact absurd hbyte (by decide)
      | false => exact (decide_eq_false h1).symm

/-- Three truth values with a spare bit set are read and written again without it. -/
theorem read_canonical_spare :
    let m := (View.ofBytes [0, 0, 0, 3, 0xBF, 7] .initial).2
    let r : Reader := ⟨⟨0, 0, 6⟩, 0, .standard⟩
    m.HeldBy [r.view] ∧ r.position ≤ r.length ∧
      r.read Kind.bools.read m = (.ok [true, false, true], { r with position := 5 }) ∧
        r.Accepts m .bools [0, 0, 0, 3, 0xBF] [true, false, true] { r with position := 5 } ∧
          Kind.bools.canonical [0, 0, 0, 3, 0xBF] = [0, 0, 0, 3, 0xA0] := by
  intro m r
  have hheld : m.HeldBy [r.view] :=
    (View.held_ofBytes Memory.wellFormed_initial.heldBy_nil [0, 0, 0, 3, 0xBF, 7]).1
  have hcursor : r.cursor m = ⟨[0, 0, 0, 3, 0xBF, 7], .standard⟩ := rfl
  have hread : r.read Kind.bools.read m = (.ok [true, false, true], { r with position := 5 }) := by
    rw [Reader.read, hcursor]
    rfl
  obtain ⟨bs, ha⟩ :=
    (read_canonical hheld List.mem_cons_self (Nat.zero_le 6)).1 .bools _ _ hread
  have hrest : [0, 0, 0, 3, 0xBF] ++ [7] = bs ++ [7] := ha.rest_eq
  obtain rfl := List.append_cancel_right hrest
  exact ⟨hheld, Nat.zero_le 6, hread, ha, by decide⟩

end Reader

end Tandem
