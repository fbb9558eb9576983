import Tandem.Records
import Tandem.Proofs.Reading.Read
import Tandem.Proofs.Writing.Writer

/-!
# Reading undoes writing

`Read.Undoes` relates a read to what a writer does: from the end of what was written so far, the
writer appends bytes that yield the value.  Writing may change how strings are written; reading them
has to change in the same way.  The relation is closed under doing one thing after the other, and
therefore under writing the values of an array one after the other (`Undoes.arrayOf`).

`Serializable.RoundTrips` is this relation between the two sides of an application type, for one
value.  It is all that has to be known of the type.
-/

namespace Tandem

open Memory (HeldBy Keeps)

namespace Writer

/-- A writer whose view is held beside the others and whose cursor is at the end. -/
structure AtEnd (others : List View) (w : Writer) (m : Memory) : Prop where
  held : m.HeldBy (w.view :: others)
  position_eq : w.position = w.length

/-- `w'` in `m'` is what became of `w` in `m` when `bs` was added to it. -/
structure Appended (others : List View) (w : Writer) (m : Memory) (bs : Bytes) (w' : Writer)
    (m' : Memory) : Prop where
  atEnd : w'.AtEnd others m'
  keeps : Keeps others m m'
  bytes_eq : w'.bytes m' = w.bytes m ++ bs

variable {others : List View} {w w' w'' : Writer} {m m' m'' : Memory} {bs more : Bytes}

theorem AtEnd.sound (h : w.AtEnd others m) : w.Sound others m :=
  ⟨h.held, Nat.le_of_eq h.position_eq⟩

theorem Appended.refl (h : w.AtEnd others m) : Appended others w m [] w m :=
  ⟨h, .refl others m, (List.append_nil _).symm⟩

theorem Appended.trans (h : Appended others w m bs w' m')
    (h' : Appended others w' m' more w'' m'') : Appended others w m (bs ++ more) w'' m'' where
  atEnd := h'.atEnd
  keeps := h.keeps.trans h'.keeps
  bytes_eq := by rw [h'.bytes_eq, h.bytes_eq, List.append_assoc]

theorem Wrote.appended (hw : Wrote others w m bs w' m') (h : w.AtEnd others m) :
    Appended others w m bs w' m' := by
  have hbytes : w'.bytes m' = w.bytes m ++ bs := by
    rw [hw.bytes_eq, h.position_eq, ← h.sound.length_bytes, Bytes.splice_length]
  refine ⟨⟨hw.held, ?_⟩, hw.keeps, hbytes⟩
  have hlen := (hw.sound h.sound).length_bytes
  rw [hbytes, List.length_append, h.sound.length_bytes] at hlen
  rw [hw.position_eq, h.position_eq, hlen]

theorem atEnd_create (h : m.HeldBy others) (room : Nat) (e : Encoding) :
    (create room e m).1.AtEnd others (create room e m).2 ∧ Keeps others m (create room e m).2 := by
  obtain ⟨hs, hk⟩ := sound_create h room e
  exact ⟨⟨hs.held, rfl⟩, hk⟩

/-- Writes one after the other. -/
def each {α : Type} (f : α → Writer → Memory → Writer × Memory) :
    List α → Writer → Memory → Writer × Memory
  | [], w, m => (w, m)
  | a :: as, w, m => each f as (f a w m).1 (f a w m).2

theorem each_eq_writeEach {α : Type} [Serializable α] (as : List α) (w : Writer) (m : Memory) :
    each Serializable.serialize as w m = w.writeEach as m := by
  induction as generalizing w m with
  | nil => rfl
  | cons a as ih =>
    rw [each, writeEach]
    exact ih _ _

end Writer

open Writer (Appended AtEnd)

namespace Read

/-- What `f` adds to a writer that writes strings as `e` says, at least `n` bytes, yields `a`; the
writer then writes strings as `e'` says. -/
def Undoes {α : Type} (r : Read α) (f : Writer → Memory → Writer × Memory) (n : Nat) (e : Encoding)
    (a : α) (e' : Encoding) : Prop :=
  ∀ others w m, w.AtEnd others m → w.encoding = e →
    (f w m).1.encoding = e' ∧
      ∃ bs : Bytes, n ≤ bs.length ∧ Appended others w m bs (f w m).1 (f w m).2 ∧ r.Yields e bs a e'

/-- The same of values one after the other, with at least `n` bytes for all of them. -/
inductive UndoesEach {α : Type} (r : Read α) (f : α → Writer → Memory → Writer × Memory) :
    Nat → Encoding → List α → Encoding → Prop
  | nil (e : Encoding) : UndoesEach r f 0 e [] e
  | cons {n k : Nat} {e e₁ e₂ : Encoding} {a : α} {as : List α} (h : r.Undoes (f a) n e a e₁)
      (hs : UndoesEach r f k e₁ as e₂) : UndoesEach r f (n + k) e (a :: as) e₂

variable {α β γ : Type} {r : Read α} {s : Read β} {q : α → Read β}
  {f g : Writer → Memory → Writer × Memory} {e e₁ e₂ : Encoding} {a : α} {b : β} {c : γ} {n k : Nat}

theorem Undoes.mono (h : r.Undoes f n e a e₁) (hk : k ≤ n) : r.Undoes f k e a e₁ := by
  intro others w m hw he
  obtain ⟨he', bs, hn, ha, hy⟩ := h others w m hw he
  exact ⟨he', bs, Nat.le_trans hk hn, ha, hy⟩

theorem Undoes.congr (h : r.Undoes f n e a e₁) (hfg : ∀ w m, g w m = f w m) :
    r.Undoes g n e a e₁ := by
  obtain rfl : g = f := funext fun w => funext (hfg w)
  exact h

/-- **One thing after the other** is undone by a read that takes the one and then the other. -/
theorem Undoes.both {t : Read γ} (h : r.Undoes f n e a e₁) (h' : s.Undoes g k e₁ b e₂)
    (ht : ∀ bs more, r.Yields e bs a e₁ → s.Yields e₁ more b e₂ → t.Yields e (bs ++ more) c e₂) :
    t.Undoes (fun w m => g (f w m).1 (f w m).2) (n + k) e c e₂ := by
  intro others w m hw he
  obtain ⟨he₁, bs, hn, ha, hy⟩ := h others w m hw he
  obtain ⟨he₂, more, hk, ha', hy'⟩ := h' others _ _ ha.atEnd he₁
  refine ⟨he₂, bs ++ more, ?_, ha.trans ha', ht bs more hy hy'⟩
  rw [List.length_append]
  omega

theorem Undoes.bind (h : r.Undoes f n e a e₁) (h' : (q a).Undoes g k e₁ b e₂) :
    (r >>= q).Undoes (fun w m => g (f w m).1 (f w m).2) (n + k) e b e₂ :=
  h.both h' fun _ _ hy hy' => hy.bind hy'

theorem Undoes.bind_pure (h : r.Undoes f n e a e₁) (hq : q a = pure b) :
    (r >>= q).Undoes f n e b e₁ := by
  intro others w m hw he
  obtain ⟨he₁, bs, hn, ha, hy⟩ := h others w m hw he
  exact ⟨he₁, bs, hn, ha, hy.bind_pure hq⟩

theorem Undoes.atomic (h : r.Undoes f n e a e₁) : r.atomic.Undoes f n e a e₁ := by
  intro others w m hw he
  obtain ⟨he₁, bs, hn, ha, hy⟩ := h others w m hw he
  exact ⟨he₁, bs, hn, ha, hy.atomic⟩

/-- **A value of any kind.** -/
theorem undoes_write {k : Kind} {v : k.Value} (h : k.Fits e v) :
    k.read.Undoes (fun w m => w.write k v m) 0 e v e := by
  intro others w m hw he
  have hwrote := Writer.wrote_write hw.sound k v
  have hadded := hwrote.appended hw
  rw [he] at hadded
  exact ⟨hwrote.encoding_eq.trans he, _, Nat.zero_le _, hadded, Kind.yields_encode h⟩

theorem undoes_scalar {k : ScalarKind} (x : Scalar k) (e : Encoding) :
    (scalar k).Undoes (fun w m => w.write (.scalar k) x m) 0 e x e :=
  undoes_write (k := .scalar k) trivial

/-- A read that goes as deep as there are bytes goes deep enough for what takes a byte a level. -/
theorem undoes_ofDepth {r : Nat → Read β} (h : ∀ depth, n ≤ depth → (r depth).Undoes f n e b e₁) :
    (⟨fun c => (r (c.rest.length + 1)).run c⟩ : Read β).Undoes f n e b e₁ := by
  intro others w m hw he
  obtain ⟨he₁, bs, hn, ha, -⟩ := h n (Nat.le_refl n) others w m hw he
  refine ⟨he₁, bs, hn, ha, fun rest => ?_⟩
  obtain ⟨-, bs', -, ha', hy⟩ := h ((bs ++ rest).length + 1)
    (by rw [List.length_append]; omega) others w m hw he
  -- what was added is the same for every depth
  have hbs : bs' = bs := by
    have heq := ha'.bytes_eq.symm.trans ha.bytes_eq
    exact List.append_cancel_left heq
  rw [hbs] at hy
  exact hy rest

/-! ### Arrays -/

theorem UndoesEach.yieldsEach {f : α → Writer → Memory → Writer × Memory} {as : List α}
    (h : UndoesEach r f n e as e₁) {others : List View} {w : Writer} {m : Memory}
    (hw : w.AtEnd others m) (he : w.encoding = e) :
    (Writer.each f as w m).1.encoding = e₁ ∧
      ∃ bs, n ≤ bs.length ∧
        Appended others w m bs (Writer.each f as w m).1 (Writer.each f as w m).2 ∧
        YieldsEach r e bs as e₁ := by
  induction h generalizing w m with
  | nil e => exact ⟨he, [], Nat.le_refl 0, .refl hw, .nil e⟩
  | cons h _ ih =>
    obtain ⟨he₁, bs, hn, ha, hy⟩ := h others w m hw he
    obtain ⟨he₂, more, hk, ha', hys⟩ := ih ha.atEnd he₁
    refine ⟨he₂, bs ++ more, ?_, ha.trans ha', .cons hy hys⟩
    rw [List.length_append]
    omega

/-- **An array** is its count and then the values.  A value may take no bytes at all. -/
theorem UndoesEach.arrayOf {f : α → Writer → Memory → Writer × Memory} {as : List α}
    (h : UndoesEach r f n e as e₁) (hn : as.length ≤ Kind.maxCount) :
    (arrayOf r).Undoes (fun w m =>
      Writer.each f as (w.append (Kind.count as.length) m).1
        (w.append (Kind.count as.length) m).2) (n + 1) e as e₁ := by
  intro others w m hw he
  have hwrote := Writer.wrote_append hw.sound (Kind.count as.length)
  have hadded := hwrote.appended hw
  obtain ⟨he₁, bs, hlen, ha, hys⟩ := h.yieldsEach hadded.atEnd (hwrote.encoding_eq.trans he)
  refine ⟨he₁, Kind.count as.length ++ bs, ?_, hadded.trans ha, ?_⟩
  · rw [List.length_append, Kind.count, Bytes.length_bigEndian]
    omega
  · exact (yields_count hn (Nat.zero_le _) hys.times).atomic

end Read

/-! ### Application types -/

namespace Serializable

variable {α : Type} [Serializable α] {e e' : Encoding}

/-- Reading undoes writing for a value of an application type. -/
def RoundTrips (e : Encoding) (a : α) (e' : Encoding) : Prop :=
  (Serializable.deserialize : Read α).Undoes (Serializable.serialize a) 0 e a e'

/-- Reading undoes writing for values one after the other. -/
inductive RoundTripEach : Encoding → List α → Encoding → Prop
  | nil (e : Encoding) : RoundTripEach e [] e
  | cons {e e₁ e₂ : Encoding} {a : α} {as : List α} (h : RoundTrips e a e₁)
      (hs : RoundTripEach e₁ as e₂) : RoundTripEach e (a :: as) e₂

theorem RoundTripEach.undoesEach {as : List α} (h : RoundTripEach e as e') :
    Read.UndoesEach Serializable.deserialize Serializable.serialize 0 e as e' := by
  induction h with
  | nil e => exact .nil e
  | cons h _ ih => exact .cons h ih

theorem undoes_writeRecord {a : α} (h : RoundTrips e a e') :
    (Read.record α).Undoes (fun w m => w.writeRecord a m) 0 e a e' :=
  Read.Undoes.atomic h

theorem undoes_writeRecords {as : List α} (h : RoundTripEach e as e')
    (hn : as.length ≤ Kind.maxCount) :
    (Read.records α).Undoes (fun w m => w.writeRecords as m) 0 e as e' := by
  refine ((h.undoesEach.arrayOf hn).mono (Nat.zero_le _)).congr fun w m => ?_
  rw [Writer.writeRecords_eq, Writer.each_eq_writeEach]

end Serializable

end Tandem
