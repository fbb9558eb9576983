import Tandem.Proofs.Sharing.Holders
import Tandem.Proofs.Writing.Draft

/-!
# Writers and readers under names

A writer under a name stands for the file that it writes, a reader for a byte string with a position
in it.  Writing to one of several writers changes its file only, and reading and moving about
changes no bytes at all.  Handing out what was written, and letting go of it, is left to those who
hold views (`Tandem.Proofs.Sharing.Commons`).
-/

namespace Tandem

open Memory (HeldBy Keeps)

/-! ### Writers -/

instance : Holder Writer File where
  view := Writer.view
  value w bs := ⟨bs, w.position, w.encoding, []⟩

/-- Operations of a writer that neither hand out a view of what was written nor use one. -/
def WriteOp.Writes : WriteOp → Prop
  | .share | .unshare _ | .look _ => False
  | _ => True

/-- Operations on writers under names. -/
inductive WriterOp : Type 1 where
  | create (name : String) (room : Nat) (e : Encoding)
  | perform (name : String) (op : WriteOp) (h : op.Writes)
  | drop (name : String)

namespace WriterOp

/-- Carries out an operation on writers. -/
def run (w : Workspace Writer) : WriterOp → Reply × Workspace Writer
  | create name room e =>
    match Draft.make room e w.memory with
    | .error _ => w.miss
    | .ok d => (.done, w.assign Writer.drop name d.writer d.memory)
  | perform name op _ => w.withSlot name fun x =>
    let performed := Draft.perform ⟨x, w.memory, []⟩ op
    (performed.1, w.update name performed.2.writer performed.2.memory)
  | drop name => (.done, w.discard Writer.drop name)

/-- The length of the array that an operation starts with. -/
def demand : WriterOp → Option Nat
  | create _ room _ => some room
  | _ => none

/-- Values of application types are written by operations on the writer. -/
def Scripted : WriterOp → Prop
  | perform _ op _ => op.Scripted
  | _ => True

/-- The name under which something else may stand afterwards. -/
def target : WriterOp → String
  | create name _ _ | perform name _ _ | drop name => name

/-- What the operations do to files. -/
inductive Effect (r : Register File) : WriterOp → Reply → Register File → Prop
  | create (name : String) (room : Nat) (e : Encoding) :
      Effect r (.create name room e) .done (r.put name (some (.empty e)))
  | perform {name : String} {op : WriteOp} {f f' : File} {reply : Reply} (hw : op.Writes)
      (h : r name = some f) (hp : f.Performs op reply f') :
      Effect r (.perform name op hw) reply (r.put name (some f'))
  | unused {name : String} {op : WriteOp} (hw : op.Writes) (h : r name = none) :
      Effect r (.perform name op hw) (.refused .outOfRange) r
  | drop (name : String) : Effect r (.drop name) .done (r.put name none)

theorem Effect.of_ne {r r' : Register File} {op : WriterOp} {reply : Reply} {k : String}
    (he : Effect r op reply r') (hk : op.target ≠ k) : r' k = r k := by
  cases he with
  | unused => rfl
  | _ => exact Register.put_of_ne _ (Ne.symm hk)

end WriterOp

namespace Draft

variable {others : List View} {d : Draft} {x : Writer} {m : Memory} {op : WriteOp}

theorem shared_perform (hw : op.Writes) : (d.perform op).2.shared = d.shared := by
  cases op with
  | share => exact hw.elim
  | unshare i => exact hw.elim
  | look i => exact hw.elim
  | fill b n =>
    simp only [perform]
    split
    · rfl
    · rfl
  | reserve n =>
    simp only [perform]
    split
    · rfl
    · rfl
  | setPosition p =>
    simp only [perform]
    split
    · rfl
    · rfl
  | value k v => simp only [perform, resume]
  | record a => simp only [perform, resume]
  | records as => simp only [perform, resume]
  | put bs => simp only [perform, resume]
  | setEncoding e => simp only [perform]

theorem perform_alone (h : x.Sound others m) (hw : op.Writes) (hop : op.Scripted) :
    let d := (perform ⟨x, m, []⟩ op).2
    d.writer.Sound others d.memory ∧ Keeps others m d.memory ∧
      File.Performs ⟨x.bytes m, x.position, x.encoding, []⟩ op (perform ⟨x, m, []⟩ op).1
        ⟨d.writer.bytes d.memory, d.writer.position, d.writer.encoding, []⟩ := by
  have hs : Sound others ⟨x, m, []⟩ := h
  obtain ⟨hb, hp⟩ := hs.perform hop
  have hshared : (perform ⟨x, m, []⟩ op).2.shared = [] := shared_perform hw
  have hsound := hb.sound
  rw [Sound, handed, hshared] at hsound
  simp only [file, hshared] at hp
  exact ⟨hsound, hb.keeps, hp⟩

end Draft

namespace Workspace

/-- The cursor of no writer is behind the end of what it wrote. -/
def Cursors (slots : Table String Writer) : Prop :=
  ∀ name x, slots.get? name = some x → x.position ≤ x.length

theorem cursors_empty : Cursors .empty := fun _ _ h => by cases h

theorem Cursors.set {slots : Table String Writer} (h : Cursors slots) {name : String} {x : Writer}
    (hx : x.position ≤ x.length) : Cursors (slots.set name x) := by
  intro other y hy
  rw [Table.get?_set] at hy
  split_ifs at hy
  · cases hy
    exact hx
  · exact h other y hy

theorem Cursors.erase {slots : Table String Writer} (h : Cursors slots) (name : String) :
    Cursors (slots.erase name) := by
  intro other y hy
  rw [Table.get?_erase] at hy
  split_ifs at hy
  exact h other y hy

end Workspace

namespace WriterOp

open Workspace

variable {others : List View} {w : Workspace Writer}

/-- **Operations on writers** do to the files under the names what they do to files. -/
theorem outcome_run (h : w.Sound others) (hc : Cursors w.slots) {op : WriterOp}
    (hop : op.Scripted) (hfits : op.demand.all w.memory.canCreate = true) :
    Outcome others w (op.Effect w.register) (op.run w) ∧ Cursors (op.run w).2.slots := by
  cases op with
  | create name room e =>
    have hmake : Draft.make room e w.memory = .ok (.start room e w.memory) := by
      rw [Draft.make, if_pos]
      simpa [demand] using hfits
    obtain ⟨hs, keep⟩ := Writer.sound_create h room e
    simp only [run, hmake, Draft.start]
    refine ⟨?_, hc.set hs.position_le⟩
    have hb := becomes_assign (k := name) (a := (Writer.create room e w.memory).1) hs.held keep
      (b := File.empty e) ?_ fun _ _ => rfl
    · exact hb.outcome (.create name room e)
    · exact congrArg (fun bs => File.mk bs 0 e []) (Writer.bytes_create room e w.memory)
  | perform name op hw =>
    simp only [run]
    cases hk : w.slots.get? name with
    | none =>
      simp only [withSlot, hk]
      exact ⟨h.outcome (.unused hw (register_of_none hk)), hc⟩
    | some x =>
      have hx : x.Sound (w.beside name ++ others) w.memory := ⟨h.hold hk, hc name x hk⟩
      obtain ⟨hs, keep, hp⟩ := Draft.perform_alone hx hw hop
      simp only [withSlot, hk]
      refine ⟨?_, hc.set hs.position_le⟩
      exact (becomes_update hs.held keep rfl).outcome (.perform hw (register_of_some hk) hp)
  | drop name =>
    refine ⟨(becomes_discard h fun _ _ => rfl).outcome (.drop name), ?_⟩
    exact hc.erase name

theorem run_of_not_fits {op : WriterOp} (hfits : ¬ op.demand.all w.memory.canCreate = true) :
    op.run w = w.miss := by
  cases op with
  | create name room e =>
    have hmake : Draft.make room e w.memory = .error .outOfRange := by
      rw [Draft.make, if_neg]
      simpa [demand] using hfits
    simp only [run, hmake]
  | perform name op hw => exact absurd rfl hfits
  | drop name => exact absurd rfl hfits

end WriterOp

/-! ### Readers -/

/-- A byte string with a position, and how strings are read from it. -/
structure Page where
  content : Bytes
  position : Nat
  encoding : Encoding
  deriving DecidableEq, Repr

instance : Holder Reader Page where
  view := Reader.view
  value r bs := ⟨bs, r.position, r.encoding⟩

/-- Operations on readers under names. -/
inductive ReaderOp : Type 1 where
  | read {α : Type} (name : String) (p : Read α)
  | setPosition (name : String) (p : Nat)
  | skip (name : String) (n : Nat)
  | setEncoding (name : String) (e : Encoding)
  | drop (name : String)

namespace ReaderOp

/-- Carries on with what became of a reader. -/
def move (w : Workspace Reader) (name : String) (r : Except Misuse Reader) :
    Reply × Workspace Reader :=
  match r with
  | .ok r => (.done, w.update name r w.memory)
  | .error e => (.refused e, w)

/-- Carries out an operation on readers. -/
def run (w : Workspace Reader) : ReaderOp → Reply × Workspace Reader
  | read name p => w.withSlot name fun r => move w name (.ok (r.read p w.memory).2)
  | setPosition name p => w.withSlot name fun r => move w name (r.setPosition p)
  | skip name n => w.withSlot name fun r => move w name (r.skip n)
  | setEncoding name e => w.withSlot name fun r => move w name (.ok (r.setEncoding e))
  | drop name => (.done, w.discard Reader.drop name)

/-- The name that an operation is about. -/
def target : ReaderOp → String
  | read name _ | setPosition name _ | skip name _ | setEncoding name _ | drop name => name

/-- What the operations do to byte strings with positions. -/
inductive Effect (r : Register Page) : ReaderOp → Reply → Register Page → Prop
  | read {α : Type} {name : String} {g : Page} (p : Read α) (h : r name = some g) :
      Effect r (.read name p) .done
        (r.put name (some
          { g with
            position :=
              g.content.length - (p.run ⟨g.content.drop g.position, g.encoding⟩).2.rest.length
            encoding := (p.run ⟨g.content.drop g.position, g.encoding⟩).2.encoding }))
  | setPosition {name : String} {g : Page} {p : Nat} (h : r name = some g)
      (hp : p ≤ g.content.length) :
      Effect r (.setPosition name p) .done (r.put name (some { g with position := p }))
  | setPositionBeyond {name : String} {g : Page} {p : Nat} (h : r name = some g)
      (hp : g.content.length < p) :
      Effect r (.setPosition name p) (.refused (.readerPosition p g.content.length)) r
  | skip {name : String} {g : Page} {n : Nat} (h : r name = some g)
      (hn : n ≤ g.content.length - g.position) :
      Effect r (.skip name n) .done (r.put name (some { g with position := g.position + n }))
  | skipBeyond {name : String} {g : Page} {n : Nat} (h : r name = some g)
      (hn : g.content.length - g.position < n) :
      Effect r (.skip name n) (.refused .outOfRange) r
  | setEncoding {name : String} {g : Page} (e : Encoding) (h : r name = some g) :
      Effect r (.setEncoding name e) .done (r.put name (some { g with encoding := e }))
  | unused {op : ReaderOp} (h : r op.target = none) : Effect r op (.refused .outOfRange) r
  | drop (name : String) : Effect r (.drop name) .done (r.put name none)

theorem Effect.of_ne {r r' : Register Page} {op : ReaderOp} {reply : Reply} {k : String}
    (he : Effect r op reply r') (hk : op.target ≠ k) : r' k = r k := by
  cases he with
  | setPositionBeyond | skipBeyond | unused => rfl
  | _ => exact Register.put_of_ne _ (Ne.symm hk)

open Workspace

variable {others : List View} {w : Workspace Reader} {name : String} {r : Reader}

theorem register_reader (h : w.Sound others) (hk : w.slots.get? name = some r) :
    w.register name = some ⟨r.view.bytes w.memory, r.position, r.encoding⟩ ∧
      (r.view.bytes w.memory).length = r.length :=
  ⟨register_of_some hk, (h.hold hk).length_bytes List.mem_cons_self⟩

theorem outcome_move (h : w.Sound others) (hk : w.slots.get? name = some r) (r' : Reader)
    (hv : r'.view = r.view) {op : ReaderOp}
    (he : op.Effect w.register .done
      (w.register.put name (some ⟨r.view.bytes w.memory, r'.position, r'.encoding⟩))) :
    Outcome others w (op.Effect w.register) (move w name (.ok r')) := by
  have hh : w.memory.HeldBy (r'.view :: (w.beside name ++ others)) := by
    rw [hv]
    exact h.hold hk
  refine (becomes_update hh (.refl _ _) ?_).outcome he
  rw [← hv]
  rfl

theorem outcome_withSlot (h : w.Sound others) (op : ReaderOp)
    {f : Reader → Reply × Workspace Reader}
    (hf : ∀ r, w.slots.get? op.target = some r → Outcome others w (op.Effect w.register) (f r)) :
    Outcome others w (op.Effect w.register) (w.withSlot op.target f) :=
  withSlot_cases (fun hk => h.outcome (.unused (register_of_none hk))) hf

/-- **Operations on readers** change no bytes. -/
theorem outcome_run (h : w.Sound others) (op : ReaderOp) :
    Outcome others w (op.Effect w.register) (op.run w) := by
  cases op with
  | read name p =>
    refine outcome_withSlot h (.read name p) ?_
    intro r hk
    obtain ⟨hr, hlen⟩ := register_reader h hk
    refine outcome_move h hk (r.read p w.memory).2 rfl ?_
    have he := Effect.read p hr
    rw [hlen] at he
    exact he
  | setPosition name p =>
    refine outcome_withSlot h (.setPosition name p) ?_
    intro r hk
    obtain ⟨hr, hlen⟩ := register_reader h hk
    by_cases hp : p ≤ r.length
    · have hset : r.setPosition p = .ok { r with position := p } := if_pos hp
      rw [hset]
      rw [← hlen] at hp
      exact outcome_move h hk { r with position := p } rfl (.setPosition hr hp)
    · have hset : r.setPosition p = .error (.readerPosition p r.length) := if_neg hp
      rw [hset, ← hlen]
      rw [← hlen] at hp
      exact h.outcome (.setPositionBeyond hr (Nat.lt_of_not_le hp))
  | skip name n =>
    refine outcome_withSlot h (.skip name n) ?_
    intro r hk
    obtain ⟨hr, hlen⟩ := register_reader h hk
    by_cases hn : n ≤ r.remaining
    · have hskip : r.skip n = .ok { r with position := r.position + n } := if_pos hn
      rw [hskip]
      rw [Reader.remaining, ← hlen] at hn
      exact outcome_move h hk { r with position := r.position + n } rfl (.skip hr hn)
    · have hskip : r.skip n = .error .outOfRange := if_neg hn
      rw [hskip]
      rw [Reader.remaining, ← hlen] at hn
      exact h.outcome (.skipBeyond hr (Nat.lt_of_not_le hn))
  | setEncoding name e =>
    refine outcome_withSlot h (.setEncoding name e) ?_
    intro r hk
    obtain ⟨hr, -⟩ := register_reader h hk
    exact outcome_move h hk (r.setEncoding e) rfl (.setEncoding e hr)
  | drop name => exact (becomes_discard h fun _ _ => rfl).outcome (.drop name)

end ReaderOp

end Tandem
