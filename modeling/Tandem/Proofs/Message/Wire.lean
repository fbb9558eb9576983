import Tandem.Proofs.Message.Header
import Tandem.Proofs.Sharing.Letters

/-!
# Messages and the bytes that stand for them

Writing a message to a view and making a message of a view undo each other (`Message.wire_inverse`).
Whatever the payload is a view of, the message that is made of its bytes has the same flags, tag,
code and payload.  A view can be made a message if it has the header that its first byte announces;
the payload is then the rest of the view, in the same array, and no byte of the view is lost.  A
view that cannot stays as it is.
-/

namespace Tandem

open Memory (HeldBy Keeps)

namespace Message

/-- The message `y` in `m'` is made of the view `v` in `m`, which starts with a header of `k`
bytes. -/
structure Unwraps (v : View) (m : Memory) (k : Nat) (y : Message) (m' : Memory) : Prop where
  le_length : k ≤ v.length
  /-- the payload is the rest of the view, in the same array -/
  payload_eq : y.payload = ⟨v.array, v.offset + k, v.length - k⟩
  /-- there is one more handle, on that array -/
  handles_eq : ∀ a, m'.handles a = m.handles a + if a = v.array then 1 else 0
  /-- nothing is written -/
  block_eq : ∀ a, m'.block a = m.block a
  /-- on the wire the message is the view again -/
  bytes_toView : (y.toView m').1.bytes (y.toView m').2 = v.bytes m

variable {m : Memory} {v : View} {vs : List View}

/-! ### From a message to its bytes and back -/

theorem pingCode?_congr {x y : Message} (hf : y.flags = x.flags)
    (hc : y.code = if x.header.hasCode then x.code else 0) : y.pingCode? = x.pingCode? := by
  have hcode : y.header.hasCode = x.header.hasCode := congrArg (Flags.has · Flags.ping) hf
  unfold pingCode?
  rw [hcode, hc]
  cases x.header.hasCode <;> rfl

theorem ofWire_toView (hh : m.HeldBy vs) (x : Message) (readOnly : Bool) :
    ∃ y m', ofWire (x.toView m).1 readOnly (x.toView m).2 = (.ok y, m') ∧
      y.flags = x.flags ∧ y.tag = x.tag ∧ y.pingCode? = x.pingCode? ∧ y.readOnly = readOnly ∧
      y.payload.bytes m' = x.payload.bytes m := by
  have hbytes : (x.toView m).1.bytes (x.toView m).2 = x.header.encode ++ x.payload.bytes m :=
    View.bytes_ofBytes hh (x.wire m)
  have hd := Header.decode_encode_append x.header (x.payload.bytes m)
  rw [← hbytes] at hd
  have hl := congrArg (Except.map fun h : Header =>
    Letter.mk h readOnly (((x.toView m).1.bytes (x.toView m).2).drop h.length)) hd
  obtain ⟨held, -⟩ := View.held_ofBytes hh (x.wire m)
  obtain ⟨y, hy, -, -, hvalue⟩ := held_ofWire held List.mem_cons_self hl
  obtain ⟨hheader, hreadOnly, hpayload⟩ := Letter.mk.inj hvalue
  refine ⟨y, _, hy, congrArg Header.flags hheader, congrArg Header.tag hheader, ?_, hreadOnly, ?_⟩
  · exact pingCode?_congr (congrArg Header.flags hheader) (congrArg Header.code hheader)
  · have hlen : x.header.encode.length = x.header.length := x.header.length_encode
    rw [hpayload, hbytes]
    exact List.drop_left' hlen

/-! ### From a view to a message and back -/

/-- **A view whose bytes start with a header** is made a message. -/
theorem unwraps_of_decode (hh : m.HeldBy vs) (hv : v ∈ vs) {h : Header}
    (hd : Header.decode (v.bytes m) = .ok h) (readOnly : Bool) :
    ∃ y, ofWire v readOnly m = (.ok y, v.clone m) ∧ y.readOnly = readOnly ∧
      Unwraps v m h.length y (v.clone m) := by
  have hle := Header.length_le_of_decode hd
  rw [hh.length_bytes hv] at hle
  let payload : View := ⟨v.array, v.offset + h.length, v.length - h.length⟩
  have hend : payload.offset + payload.length ≤ v.offset + v.length := by
    simp only [payload]
    omega
  obtain ⟨hheld, keep⟩ := View.held_clone_of_mem hh hv (u := payload) rfl hend
  refine ⟨⟨h.flags, h.tag, h.code, payload, readOnly⟩, by simp only [ofWire, hd, payload], rfl, hle,
    rfl, fun a => ?_, fun a => Memory.block_retain _ _ _, ?_⟩
  · rw [View.clone, Memory.handles_retain (hh.handles_pos hv)]
    split_ifs with ha
    · rw [ha]
    · rfl
  · have hrest : payload.bytes (v.clone m) = (v.bytes m).drop h.length :=
      (View.bytes_skip v h.length _).trans (congrArg (List.drop h.length) (keep.bytes_eq hv))
    refine (View.bytes_ofBytes hheld _).trans ?_
    exact (congrArg (h.encode ++ ·) hrest).trans (Header.encode_append_of_decode hd)

theorem ofWire_of_decode_error {t : Truncated} (hd : Header.decode (v.bytes m) = .error t)
    (readOnly : Bool) : ofWire v readOnly m = (.error (.truncated t), m) := by
  simp only [ofWire, hd]

/-- **Messages and their bytes on the wire.**  A message is made of its bytes again.  And a view is
made a message exactly if it has three bytes, and five if bit 6 of the first one is set. -/
theorem wire_inverse (hh : m.HeldBy vs) :
    (∀ (x : Message) (readOnly : Bool), ∃ y m',
      ofWire (x.toView m).1 readOnly (x.toView m).2 = (.ok y, m') ∧
        y.flags = x.flags ∧ y.tag = x.tag ∧ y.pingCode? = x.pingCode? ∧ y.readOnly = readOnly ∧
        y.payload.bytes m' = x.payload.bytes m) ∧
    ∀ v ∈ vs, ∀ readOnly,
      ((∃ y m', ofWire v readOnly m = (.ok y, m')) ↔
        3 ≤ (v.bytes m).length ∧
          (Header.announcesCode (v.bytes m) = true → 5 ≤ (v.bytes m).length)) ∧
      (∀ y m', ofWire v readOnly m = (.ok y, m') →
        y.readOnly = readOnly ∧
          Unwraps v m (if Header.announcesCode (v.bytes m) then 5 else 3) y m') ∧
      ∀ e m', ofWire v readOnly m = (.error e, m') →
        m' = m ∧
          e = .truncated ⟨(v.bytes m).length, if (v.bytes m).length < 3 then 3 else 5⟩ := by
  refine ⟨ofWire_toView hh, fun v hv readOnly => ?_⟩
  have hcases := Header.decode_cases (v.bytes m)
  simp only [Header.announcedLength, Header.baseLength, Header.codedLength] at hcases
  rcases hcases with ⟨hlt, hd⟩ | ⟨hle, hcode, hlt, hd⟩ | ⟨hle, hlong, h, hd, hlen⟩
  · rw [ofWire_of_decode_error hd]
    refine ⟨⟨?_, fun hlong => absurd hlong.1 (by omega)⟩, by simp, fun e m' heq => ?_⟩
    · rintro ⟨y, m', heq⟩
      cases heq
    · cases heq
      rw [if_pos hlt]
      exact ⟨rfl, rfl⟩
  · rw [ofWire_of_decode_error hd]
    refine ⟨⟨?_, fun hlong => absurd (hlong.2 hcode) (by omega)⟩, by simp, fun e m' heq => ?_⟩
    · rintro ⟨y, m', heq⟩
      cases heq
    · cases heq
      rw [if_neg (by omega)]
      exact ⟨rfl, rfl⟩
  · obtain ⟨y, heq, hr, hy⟩ := unwraps_of_decode hh hv hd readOnly
    rw [heq]
    refine ⟨⟨fun _ => ⟨hle, fun hcode => ?_⟩, fun _ => ⟨y, _, rfl⟩⟩, fun y' m' heq' => ?_, by simp⟩
    · rwa [if_pos hcode] at hlong
    · cases heq'
      rw [← hlen]
      exact ⟨hr, hy⟩

/-- A ping received within a longer array: its payload is the rest, and two handles are there. -/
theorem wire_inverse_ping :
    let v : View := ⟨0, 2, 7⟩
    let m := (View.ofBytes [1, 2, 0x41, 0, 7, 1, 2, 9, 9] .initial).2
    m.HeldBy [v] ∧ ∃ y m', ofWire v true m = (.ok y, m') ∧ y.payload = ⟨0, 7, 2⟩ ∧
      m'.handles 0 = 2 ∧ (y.toView m').1.bytes (y.toView m').2 = [0x41, 0, 7, 1, 2, 9, 9] := by
  intro v m
  obtain ⟨hwhole, -⟩ :=
    View.held_ofBytes Memory.wellFormed_initial.heldBy_nil [1, 2, 0x41, 0, 7, 1, 2, 9, 9]
  have hheld : m.HeldBy [v] := hwhole.restrict rfl (by decide +kernel)
  have hbytes : v.bytes m = [0x41, 0, 7, 1, 2, 9, 9] := by decide +kernel
  obtain ⟨hiff, hok, -⟩ := (wire_inverse hheld).2 v List.mem_cons_self true
  obtain ⟨y, m', heq⟩ := hiff.2 (by rw [hbytes]; decide)
  obtain ⟨-, hy⟩ := hok y m' heq
  rw [hbytes] at hy
  refine ⟨hheld, y, m', heq, hy.payload_eq, (hy.handles_eq 0).trans ?_, ?_⟩
  · decide +kernel
  · rw [hy.bytes_toView, hbytes]

end Message

end Tandem
