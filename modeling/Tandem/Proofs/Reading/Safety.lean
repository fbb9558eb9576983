import Tandem.Proofs.Reading.Routine

/-!
# Reading is safe

Whatever bytes a view holds and wherever within it a reader is, every read of the reader ends in a
value or an error, stays within the view, and leaves the reader within it.  If it fails, the reader
is where it was before, and a complaint about missing bytes is true (`Reader.reads_safely`).  This
goes for reads of values, of application types and of arrays of them, nested to any depth, and for
reads that add to existing values: these are kept, whether the read fails or not.
-/

namespace Tandem

open Memory (HeldBy)

namespace Reader

/-- A reader as a page. -/
def page (r : Reader) (m : Memory) : Page := ⟨r.view.bytes m, r.position, r.encoding⟩

/-- `r'` is what becomes of a reader `r` by a read that ends as `result` says. -/
structure Settles {α : Type} (r : Reader) (result : Except ReadError α) (r' : Reader) : Prop where
  view_eq : r'.view = r.view
  position_le : r'.position ≤ r.length
  /-- a failure leaves the reader where it was -/
  position_eq : ∀ e, result = .error e → r'.position = r.position
  /-- more bytes are missed than there are -/
  lt_of_endOfData : ∀ expected remaining,
    result = .error (.endOfData expected remaining) → remaining < expected

/-- Step by step, the read `p` is the walk `w`; no access is outside of the view. -/
structure ReadsSafely {α : Type} (r : Reader) (m : Memory) (p : Read α) (w : Walk α) : Prop where
  walks : w.run (r.page m) = some ((r.read p m).1, (r.read p m).2.page m)
  settles : r.Settles (r.read p m).1 (r.read p m).2

/-- The same of a read that adds what `p` reads to existing values. -/
structure FillsSafely {α : Type} (r : Reader) (m : Memory) (p : Read (List α)) (f : Walk.Fill α)
    (dest : List α) : Prop where
  walks : f dest (r.page m) = some ((r.readOnto p dest m).1, (r.readOnto p dest m).2.page m)
  settles : r.Settles (r.readOnto p dest m).1.1 (r.readOnto p dest m).2
  /-- a failure adds nothing -/
  of_error : ∀ e, (r.read p m).1 = .error e →
    r.readOnto p dest m = ((.error e, dest), (r.read p m).2)
  /-- what `p` gives comes behind what is there -/
  of_ok : ∀ as, (r.read p m).1 = .ok as →
    r.readOnto p dest m = ((.ok (), dest ++ as), (r.read p m).2)

/-- The same of a read into an existing value of an application type. -/
structure ReadsIntoSafely {α : Type} [Serializable α] (r : Reader) (m : Memory) (a : α)
    (q : Routine (Except ReadError Unit × α)) : Prop where
  walks : Walk.restore q.walk (r.page m) = some ((r.readInto a m).1, (r.readInto a m).2.page m)
  settles : r.Settles (r.readInto a m).1.1 (r.readInto a m).2

variable {m : Memory} {r : Reader} {vs : List View} {α : Type} {p : Read α} {w : Walk α}
  {c : Cursor}
  {p' : Page}

theorem page_reach (hlen : (r.view.bytes m).length = r.length) (hr : (r.page m).Reaches c p') :
    (r.reach c).page m = p' := by
  have hposition := hr.position_eq
  have hencoding : p'.encoding = c.encoding := congrArg Cursor.encoding hr.cursor_eq
  obtain ⟨content, position, encoding⟩ := p'
  obtain rfl : content = r.view.bytes m := hr.content_eq
  obtain rfl : encoding = c.encoding := hencoding
  obtain rfl : position = (r.view.bytes m).length - c.rest.length := hposition
  rw [hlen]
  rfl

theorem settles_reach (hlen : (r.view.bytes m).length = r.length) (hp : r.position ≤ r.length)
    {result : Except ReadError α}
    (hrest : ∀ e, result = .error e → c.rest = (r.page m).cursor.rest)
    (hhonest : HonestResult result) : r.Settles result (r.reach c) where
  view_eq := rfl
  position_le := Nat.sub_le _ _
  position_eq e he := by
    have hlength : (r.page m).cursor.rest.length = r.length - r.position := by
      rw [Page.length_rest, ← hlen]
      rfl
    show r.length - c.rest.length = r.position
    rw [hrest e he, hlength]
    omega
  lt_of_endOfData _ _ he := hhonest _ he

/-- **A read that walks within the view** and rewinds and complains truly is safe. -/
theorem readsSafely_of_follows (hlen : (r.view.bytes m).length = r.length)
    (hp : r.position ≤ r.length) (hw : w.Follows p) (hrewinds : p.Rewinds) (hhonest : p.Honest) :
    r.ReadsSafely m p w := by
  have hwithin : (r.page m).Within := Nat.le_trans hp (Nat.le_of_eq hlen.symm)
  obtain ⟨p', hrun, hr⟩ := hw (r.page m) hwithin
  constructor
  · rw [hrun, ← page_reach hlen hr]
    rfl
  · refine settles_reach hlen hp (fun e he => ?_) (Routine.honestResult_of_run hhonest _)
    exact hrewinds _ e _ (Prod.ext he rfl)

theorem Settles.congr {β : Type} {x : Except ReadError α} {y : Except ReadError β} {r' : Reader}
    (h : r.Settles x r') (hy : ∀ e, y = .error e → x = .error e) : r.Settles y r' where
  view_eq := h.view_eq
  position_le := h.position_le
  position_eq e he := h.position_eq e (hy e he)
  lt_of_endOfData expected remaining he := h.lt_of_endOfData expected remaining (hy _ he)

theorem fillsSafely_of_fillsAs {p : Read (List α)} {f : Walk.Fill α}
    (hlen : (r.view.bytes m).length = r.length) (hp : r.position ≤ r.length)
    (hf : Walk.FillsAs f p) (hsettles : r.Settles (r.read p m).1 (r.read p m).2) (dest : List α) :
    r.FillsSafely m p f dest := by
  have hwithin : (r.page m).Within := Nat.le_trans hp (Nat.le_of_eq hlen.symm)
  obtain ⟨p', hrun, hr⟩ := hf dest (r.page m) hwithin
  have honto : r.readOnto p dest m = (Walk.onto dest (r.read p m).1, (r.read p m).2) := by
    unfold readOnto
    rcases r.read p m with ⟨_ | _, r'⟩ <;> rfl
  constructor
  · rw [hrun, honto, ← page_reach hlen hr]
    rfl
  · rw [honto]
    refine hsettles.congr fun e he => ?_
    cases hx : (r.read p m).1 with
    | ok as =>
      rw [hx] at he
      cases he
    | error e' =>
      rw [hx] at he
      cases he
      rfl
  · intro e he
    rw [honto, he]
    rfl
  · intro as has
    rw [honto, has]
    rfl

theorem readsIntoSafely [Serializable α] (s : Serializable.Routines α)
    (hlen : (r.view.bytes m).length = r.length) (hp : r.position ≤ r.length) (a : α) :
    r.ReadsIntoSafely m a (s.readInto a) := by
  have hwithin : (r.page m).Within := Nat.le_trans hp (Nat.le_of_eq hlen.symm)
  obtain ⟨p', hrun, hr⟩ :=
    Routine.follows_restore (fun _ hp' => (s.readInto a).follows_walk hp') hwithin
  have hinto : r.readInto a m = ((Read.restore (s.readInto a).run (r.cursor m)).1,
      r.reach (Read.restore (s.readInto a).run (r.cursor m)).2) := by
    rw [← s.deserializeInto_eq]
    rfl
  constructor
  · rw [hinto, hrun, ← page_reach hlen hr]
    rfl
  · rw [hinto]
    refine settles_reach hlen hp (fun e he => Routine.rest_restore he) ?_
    rw [Routine.restore_fst]
    exact (s.ends_readInto a).run _

/-- **Reading is safe**, whatever the bytes are. -/
theorem reads_safely (h : m.HeldBy vs) (hv : r.view ∈ vs) (hp : r.position ≤ r.length) :
    (∀ k : Kind, r.ReadsSafely m k.read k.walk) ∧
    (∀ (α : Type) [Serializable α] (s : Serializable.Routines α),
      r.ReadsSafely m (Read.record α) (Walk.rewind s.read.toWalk) ∧
      r.ReadsSafely m (Read.records α) (Walk.arrayOf s.read.toWalk) ∧
      ∀ a : α, r.ReadsIntoSafely m a (s.readInto a)) ∧
    (∀ dest, r.FillsSafely m Read.bytes Walk.bytesOnto dest) ∧
    (∀ dest, r.FillsSafely m Read.bools Walk.boolsOnto dest) ∧
    ∀ k dest, r.FillsSafely m (Read.scalars k) (Walk.scalarsOnto k) dest := by
  have hlen : (r.view.bytes m).length = r.length := h.length_bytes hv
  have hkind : ∀ k : Kind, r.ReadsSafely m k.read k.walk := fun k =>
    readsSafely_of_follows hlen hp k.follows_walk k.rewinds_read k.honest_read
  refine ⟨hkind, fun α _ s => ⟨?_, ?_, fun a => readsIntoSafely s hlen hp a⟩, fun dest => ?_,
    fun dest => ?_, fun k dest => ?_⟩
  · rw [Read.record, s.deserialize_eq]
    exact readsSafely_of_follows hlen hp s.read.follows_toWalk.rewind (Read.rewinds_atomic _)
      s.ends_read.honest.atomic
  · rw [Read.records, s.deserialize_eq]
    exact readsSafely_of_follows hlen hp s.read.follows_toWalk.arrayOf (Read.rewinds_atomic _)
      ((Read.honest_count _).bind fun n => s.ends_read.honest.times n).atomic
  · exact fillsSafely_of_fillsAs hlen hp Walk.fillsAs_bytesOnto (hkind .bytes).settles dest
  · exact fillsSafely_of_fillsAs hlen hp Walk.fillsAs_boolsOnto (hkind .bools).settles dest
  · exact fillsSafely_of_fillsAs hlen hp (Walk.fillsAs_scalarsOnto k) (hkind (.scalars k)).settles
      dest

/-- A tree whose second level announces more trees than there are bytes: the reader stays where it
was, behind the first byte. -/
theorem reads_safely_tree :
    let m := (View.ofBytes [9, 1, 0, 0, 0, 1, 2, 0, 0, 0, 5] .initial).2
    let r : Reader := ⟨⟨0, 0, 11⟩, 1, .standard⟩
    m.HeldBy [r.view] ∧ r.position ≤ r.length ∧
      (r.read (Read.record Tree) m).1 = .error (.endOfData 1 0) ∧
      (r.read (Read.record Tree) m).2.position = 1 := by
  intro m r
  have hheld : m.HeldBy [r.view] :=
    (View.held_ofBytes Memory.wellFormed_initial.heldBy_nil [9, 1, 0, 0, 0, 1, 2, 0, 0, 0, 5]).1
  have hposition : r.position ≤ r.length := by decide
  have herror : (r.read (Read.record Tree) m).1 = .error (.endOfData 1 0) := rfl
  have hsafe := (reads_safely hheld List.mem_cons_self hposition).2.1 Tree Tree.routines
  exact ⟨hheld, hposition, herror, hsafe.1.settles.position_eq _ herror⟩

end Reader

end Tandem
