import Tandem.Proofs.Reading.Nest
import Tandem.Proofs.Reading.Records

/-!
# Reading undoes writing over the whole format

A sequence of shapes says what is written and read: values of any kind, values of application types,
arrays of these, nests of them, and changes of how strings are written.  `Shape.writeAll` writes the
values of a sequence, `Shape.readAll` reads them back; it knows the shapes only.  Reading a buffer
in which the values were written gives these values and leaves what lies behind them
(`Shape.readAll_writeNew`).
-/

namespace Tandem

open Memory (HeldBy Keeps)

/-- What is written and read. -/
inductive Shape : Type 1 where
  | value (k : Kind)
  | record (α : Type) [Serializable α]
  | records (α : Type) [Serializable α]
  /-- a value with arrays of such values below it -/
  | nest (α : Type) [Serializable α]
  /-- from here on strings are written in another way -/
  | setEncoding (e : Encoding)

namespace Shape

/-- The values of a shape. -/
abbrev Value : Shape → Type
  | value k => k.Value
  | record α => α
  | records α => List α
  | nest α => Nest α
  | setEncoding _ => Unit

/-- Writes a value. -/
def write : (s : Shape) → s.Value → Writer → Memory → Writer × Memory
  | value k, v, w, m => w.write k v m
  | record α, a, w, m => w.writeRecord (α := α) a m
  | records α, as, w, m => w.writeRecords (α := α) as m
  | nest α, t, w, m => w.writeRecord (α := Nest α) t m
  | setEncoding e, _, w, m => (w.setEncoding e, m)

/-- Reads a value. -/
def read : (s : Shape) → Reader → Memory → Except ReadError s.Value × Reader
  | value k, r, m => r.read k.read m
  | record α, r, m => r.read (Read.record α) m
  | records α, r, m => r.read (Read.records α) m
  | nest α, r, m => r.read (Read.record (Nest α)) m
  | setEncoding e, r, _ => (.ok (), r.setEncoding e)

/-- What is counted in a value is not too much for its count, and reading undoes writing for the
values of application types in it.  Strings are written as `e` says, and as `e'` says from then
on. -/
def Carries : (s : Shape) → Encoding → s.Value → Encoding → Prop
  | value k, e, v, e' => k.Fits e v ∧ e' = e
  | record α, e, a, e' => Serializable.RoundTrips (α := α) e a e'
  | records α, e, as, e' =>
    Serializable.RoundTripEach (α := α) e as e' ∧ List.length (α := α) as ≤ Kind.maxCount
  | nest α, e, t, e' => Nest.Carries (α := α) e t e'
  | setEncoding e₁, _, _, e' => e' = e₁

/-- Values of a sequence of shapes. -/
abbrev Values : List Shape → Type
  | [] => Unit
  | s :: ss => s.Value × Values ss

/-- Writes values one after the other. -/
def writeAll : (ss : List Shape) → Values ss → Writer → Memory → Writer × Memory
  | [], _, w, m => (w, m)
  | s :: ss, (v, vs), w, m => writeAll ss vs (s.write v w m).1 (s.write v w m).2

/-- Writes values to a new writer with room for `room` bytes. -/
def writeNew (ss : List Shape) (vs : Values ss) (room : Nat) (e : Encoding) (m : Memory) :
    Writer × Memory :=
  writeAll ss vs (Writer.create room e m).1 (Writer.create room e m).2

/-- Reads values one after the other, until a read fails. -/
def readAll : (ss : List Shape) → Reader → Memory → Except ReadError (Values ss) × Reader
  | [], r, _ => (.ok (), r)
  | s :: ss, r, m =>
    match s.read r m with
    | (.error e, r) => (.error e, r)
    | (.ok v, r) =>
      match readAll ss r m with
      | (.error e, r) => (.error e, r)
      | (.ok vs, r) => (.ok (v, vs), r)

def CarriesAll : (ss : List Shape) → Encoding → Values ss → Encoding → Prop
  | [], e, _, e' => e' = e
  | s :: ss, e, (v, vs), e' => ∃ e₁, s.Carries e v e₁ ∧ CarriesAll ss e₁ vs e'

end Shape

/-! ### Readers -/

namespace Reader

/-- A reader has `bs` before it, and nothing else. -/
structure Has (r : Reader) (m : Memory) (bs : Bytes) : Prop where
  position_le : r.position ≤ r.length
  length_bytes : (r.view.bytes m).length = r.length
  rest_eq : r.rest m = bs

variable {r : Reader} {m : Memory} {bs more : Bytes} {e : Encoding}

theorem Has.remaining_eq (h : r.Has m bs) : r.remaining = bs.length := by
  rw [← h.rest_eq, rest, List.length_drop, h.length_bytes, remaining]

/-- **A read** of what lies before a reader moves it behind that. -/
theorem Has.read {α : Type} {q : Read α} {a : α} (h : r.Has m (bs ++ more))
    (hq : q.Yields r.encoding bs a e) :
    ∃ r', r.read q m = (.ok a, r') ∧ r'.Has m more ∧ r'.encoding = e := by
  have hle := h.position_le
  have hrest : (r.view.bytes m).drop r.position = bs ++ more := h.rest_eq
  have hlen := h.remaining_eq
  rw [List.length_append, remaining] at hlen
  have hpos : r.length - more.length = r.position + bs.length := by omega
  refine ⟨r.reach ⟨more, e⟩, ?_, ⟨?_, h.length_bytes, ?_⟩, rfl⟩
  · rw [Reader.read, cursor, h.rest_eq, hq more]
  · exact Nat.sub_le r.length more.length
  · show (r.view.bytes m).drop (r.length - more.length) = more
    rw [hpos, ← List.drop_drop, hrest, List.drop_left]

end Reader

namespace Shape

open Writer (Appended)

variable {others : List View} {w : Writer} {m m' : Memory} {e e' : Encoding}

theorem read_of_undoes {α : Type} {q : Read α} {f : Writer → Memory → Writer × Memory} {n : Nat}
    {a : α} (h : q.Undoes f n e a e') (hw : w.AtEnd others m) (he : w.encoding = e) (m' : Memory) :
    (f w m).1.encoding = e' ∧
      ∃ bs, Appended others w m bs (f w m).1 (f w m).2 ∧
        ∀ (r : Reader) (more : Bytes), r.Has m' (bs ++ more) → r.encoding = e →
          ∃ r', r.read q m' = (.ok a, r') ∧ r'.Has m' more ∧ r'.encoding = e' := by
  obtain ⟨he', bs, -, ha, hy⟩ := h others w m hw he
  refine ⟨he', bs, ha, fun r more hr hre => ?_⟩
  rw [← hre] at hy
  exact hr.read hy

theorem read_write {s : Shape} {v : s.Value} (h : s.Carries e v e') (hw : w.AtEnd others m)
    (he : w.encoding = e) (m' : Memory) :
    (s.write v w m).1.encoding = e' ∧
      ∃ bs, Appended others w m bs (s.write v w m).1 (s.write v w m).2 ∧
        ∀ (r : Reader) (more : Bytes), r.Has m' (bs ++ more) → r.encoding = e →
          ∃ r', s.read r m' = (.ok v, r') ∧ r'.Has m' more ∧ r'.encoding = e' := by
  cases s with
  | value k =>
    obtain ⟨hk, rfl⟩ := h
    exact read_of_undoes (Read.undoes_write hk) hw he m'
  | record α => exact read_of_undoes (Serializable.undoes_writeRecord h) hw he m'
  | records α =>
    have hread := read_of_undoes (Serializable.undoes_writeRecords h.1 h.2) hw he m'
    simp only [write, read]
    exact hread
  | nest α =>
    exact read_of_undoes (Serializable.undoes_writeRecord (Nest.roundTrips h)) hw he m'
  | setEncoding e₁ =>
    obtain rfl : e' = e₁ := h
    refine ⟨rfl, [], ⟨⟨hw.held, hw.position_eq⟩, .refl others m, (List.append_nil _).symm⟩, ?_⟩
    intro r more hr _
    exact ⟨r.setEncoding e', rfl, ⟨hr.position_le, hr.length_bytes, hr.rest_eq⟩, rfl⟩

/-- **A sequence** is read back, by induction on it. -/
theorem readAll_append {ss : List Shape} {vs : Values ss} (h : CarriesAll ss e vs e')
    (hw : w.AtEnd others m) (he : w.encoding = e) (m' : Memory) :
    ∃ bs, Appended others w m bs (writeAll ss vs w m).1 (writeAll ss vs w m).2 ∧
      ∀ (r : Reader) (more : Bytes), r.Has m' (bs ++ more) → r.encoding = e →
        ∃ r', readAll ss r m' = (.ok vs, r') ∧ r'.Has m' more ∧ r'.encoding = e' := by
  induction ss generalizing w m e with
  | nil =>
    obtain rfl : e' = e := h
    exact ⟨[], .refl hw, fun r more hr hre => ⟨r, rfl, hr, hre⟩⟩
  | cons s ss ih =>
    obtain ⟨v, vs⟩ := vs
    obtain ⟨e₁, hv, hvs⟩ := h
    obtain ⟨he₁, bs, ha, hread⟩ := read_write hv hw he m'
    obtain ⟨bs', ha', hread'⟩ := ih hvs ha.atEnd he₁
    refine ⟨bs ++ bs', ha.trans ha', fun r more hr hre => ?_⟩
    rw [List.append_assoc] at hr
    obtain ⟨r₁, hr₁, hhas, hre₁⟩ := hread r _ hr hre
    obtain ⟨r₂, hr₂, hhas', hre₂⟩ := hread' r₁ more hhas hre₁
    refine ⟨r₂, ?_, hhas', hre₂⟩
    rw [readAll, hr₁]
    simp only [hr₂]

/-- **Reading undoes writing.**  The values of a sequence are written to a new writer, in whatever
memory and with whatever room.  Whoever has the bytes that were written before it, anywhere and with
anything behind them, reads exactly these values and then has what lies behind them.  In particular
a reader over the buffer itself reads them and has nothing left. -/
theorem readAll_writeNew {ss : List Shape} {vs : Values ss} (h : m.HeldBy others) (room : Nat)
    (hvs : CarriesAll ss e vs e') :
    (∀ (m' : Memory) (r : Reader) (rest : Bytes),
      r.Has m' ((writeNew ss vs room e m).1.bytes (writeNew ss vs room e m).2 ++ rest) →
        r.encoding = e →
          ∃ r', readAll ss r m' = (.ok vs, r') ∧ r'.rest m' = rest ∧ r'.remaining = rest.length) ∧
      ∃ r', readAll ss ⟨(writeNew ss vs room e m).1.view, 0, e⟩ (writeNew ss vs room e m).2 =
          (.ok vs, r') ∧ r'.remaining = 0 := by
  obtain ⟨hw, -⟩ := Writer.atEnd_create h room e
  have hread : ∀ (m' : Memory) (r : Reader) (rest : Bytes),
      r.Has m' ((writeNew ss vs room e m).1.bytes (writeNew ss vs room e m).2 ++ rest) →
        r.encoding = e → ∃ r', readAll ss r m' = (.ok vs, r') ∧ r'.Has m' rest := by
    intro m' r rest hr hre
    obtain ⟨bs, ha, hread⟩ := readAll_append hvs hw rfl m'
    have hbytes : (writeNew ss vs room e m).1.bytes (writeNew ss vs room e m).2 = bs := by
      rw [writeNew, ha.bytes_eq, Writer.bytes_create, List.nil_append]
    rw [hbytes] at hr
    obtain ⟨r', hr', hhas, -⟩ := hread r rest hr hre
    exact ⟨r', hr', hhas⟩
  refine ⟨fun m' r rest hr hre => ?_, ?_⟩
  · obtain ⟨r', hr', hhas⟩ := hread m' r rest hr hre
    exact ⟨r', hr', hhas.rest_eq, hhas.remaining_eq⟩
  · obtain ⟨bs, ha, -⟩ := readAll_append hvs hw rfl m
    have hlen := ha.atEnd.sound.length_bytes
    obtain ⟨r', hr', hhas⟩ := hread _ ⟨(writeNew ss vs room e m).1.view, 0, e⟩ []
      ⟨Nat.zero_le _, hlen, (List.append_nil _).symm⟩ rfl
    exact ⟨r', hr', hhas.remaining_eq⟩

/-- Truth values, then text in another encoding, an array of points and points below points. -/
theorem readAll_writeNew_points :
    let ss : List Shape :=
      [.value .bools, .setEncoding .utf8, .value .str, .records Point, .nest Point]
    let vs : Values ss :=
      ([true, false, true], (), "é", [⟨1, "a"⟩, ⟨-1, ""⟩], .node ⟨2, "b"⟩ [.node ⟨3, ""⟩ []], ())
    CarriesAll ss .utf16le vs .utf8 ∧
      ∃ r', readAll ss ⟨(writeNew ss vs 3 .utf16le .initial).1.view, 0, .utf16le⟩
          (writeNew ss vs 3 .utf16le .initial).2 = (.ok vs, r') ∧ r'.remaining = 0 := by
  intro ss vs
  have hpoint : ∀ p ∈ [Point.mk 1 "a", ⟨-1, ""⟩, ⟨2, "b"⟩, ⟨3, ""⟩],
      Serializable.RoundTrips .utf8 p .utf8 := by
    intro p hp
    refine Point.roundTrips ?_
    revert p
    decide
  have hcarries : CarriesAll ss .utf16le vs .utf8 := by
    refine ⟨.utf16le, ⟨?_, rfl⟩, .utf8, rfl, .utf8, ⟨?_, rfl⟩, .utf8, ⟨?_, ?_⟩, .utf8, ?_, rfl⟩
    · show 3 ≤ Kind.maxCount
      decide
    · show Encoding.utf8.byteCount "é" ≤ Kind.maxCount
      decide
    · exact .cons (hpoint _ (by simp)) (.cons (hpoint _ (by simp)) (.nil _))
    · show 2 ≤ Kind.maxCount
      decide
    · exact .node (hpoint _ (by simp)) (by decide)
        (.cons (.node (hpoint _ (by simp)) (by decide) (.nil _)) (.nil _))
  have hread := readAll_writeNew Memory.wellFormed_initial.heldBy_nil 3 hcarries
  exact ⟨hcarries, hread.2⟩

end Shape

end Tandem
