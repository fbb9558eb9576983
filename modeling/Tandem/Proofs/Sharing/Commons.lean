import Tandem.Proofs.Sharing.Belongings

/-!
# Everything is shared

A commons is one memory with all views, writers, readers and messages that hold its arrays.  Each
kind of thing is a workspace of its own, beside which all others are other views
(`Commons.Part`); so what was shown for the operations of a workspace holds for a commons too.
-/

namespace Tandem

open Memory (HeldBy Keeps)

/-- One memory, and what holds views of it under names. -/
structure Commons where
  memory : Memory
  views : Table String View
  writers : Table String Writer
  readers : Table String Reader
  messages : Table String Message

namespace Commons

/-- Nothing under any name. -/
def start (m : Memory) : Commons := ⟨m, .empty, .empty, .empty, .empty⟩

def viewSpace (s : Commons) : Workspace View := ⟨s.memory, s.views⟩

def writerSpace (s : Commons) : Workspace Writer := ⟨s.memory, s.writers⟩

def readerSpace (s : Commons) : Workspace Reader := ⟨s.memory, s.readers⟩

def messageSpace (s : Commons) : Workspace Message := ⟨s.memory, s.messages⟩

def withViews (s : Commons) (w : Workspace View) : Commons :=
  { s with memory := w.memory, views := w.slots }

def withWriters (s : Commons) (w : Workspace Writer) : Commons :=
  { s with memory := w.memory, writers := w.slots }

def withReaders (s : Commons) (w : Workspace Reader) : Commons :=
  { s with memory := w.memory, readers := w.slots }

def withMessages (s : Commons) (w : Workspace Message) : Commons :=
  { s with memory := w.memory, messages := w.slots }

/-- Puts a view under a name. -/
def putView (s : Commons) (name : String) (r : View × Memory) : Answer × Commons :=
  (.plain .done, s.withViews (s.viewSpace.assign View.drop name r.1 r.2))

/-- Puts a reader under a name. -/
def putReader (s : Commons) (name : String) (r : Reader × Memory) : Answer × Commons :=
  (.plain .done, s.withReaders (s.readerSpace.assign Reader.drop name r.1 r.2))

/-- Puts a message under a name. -/
def putMessage (s : Commons) (name : String) (r : Message × Memory) : Answer × Commons :=
  (.plain .done, s.withMessages (s.messageSpace.assign Message.drop name r.1 r.2))

/-- Carries on with what is under a name, which must be in use. -/
def on {α : Type} (s : Commons) (t : Table String α) (name : String) (f : α → Answer × Commons) :
    Answer × Commons :=
  match t.get? name with
  | none => (.plain (.refused .outOfRange), s)
  | some a => f a

/-- The length of the array that an operation needs to be made. -/
def demand (s : Commons) : Op → Option Nat
  | .views op => op.demand s.viewSpace
  | .overwrite view _ _ => (ViewOp.own view).demand s.viewSpace
  | .writers op => op.demand
  | .messages op => op.demand
  | _ => none

/-- There can be the memory for an operation. -/
def Fits (s : Commons) (op : Op) : Prop := (s.demand op).all s.memory.canCreate = true

/-- Carries out an operation. -/
def perform (s : Commons) : Op → Answer × Commons
  | .views op =>
    let r := op.attempt s.viewSpace
    (.plain r.1, s.withViews r.2)
  | .overwrite view p bs =>
    let r :=
      if ((ViewOp.own view).demand s.viewSpace).all s.memory.canCreate then
        s.viewSpace.overwrite view p bs
      else s.viewSpace.miss
    (.plain r.1, s.withViews r.2)
  | .writers op =>
    let r := op.run s.writerSpace
    (.plain r.1, s.withWriters r.2)
  | .readers op =>
    let r := op.run s.readerSpace
    (.plain r.1, s.withReaders r.2)
  | .messages op =>
    let r := op.run s.messageSpace
    (.ofMessage r.1, s.withMessages r.2)
  | .share writer view => s.on s.writers writer fun w => s.putView view (w.share s.memory)
  | .finish writer view => s.on s.writers writer fun w =>
    { s with writers := s.writers.erase writer }.putView view (w.view, s.memory)
  | .startReading view reader => s.on s.views view fun v =>
    { s with views := s.views.erase view }.putReader reader (.ofView v, s.memory)
  | .stopReading reader view => s.on s.readers reader fun r =>
    { s with readers := s.readers.erase reader }.putView view (r.view, s.memory)
  | .readMessage message reader => s.on s.messages message fun x =>
    s.putReader reader (x.reader s.memory)
  | .payload message view => s.on s.messages message fun x =>
    s.putView view (x.payload, x.payload.clone s.memory)
  | .wire message view => s.on s.messages message fun x => s.putView view (x.toView s.memory)
  | .wrap view message tag => s.on s.views view fun v =>
    { s with views := s.views.erase view }.putMessage message (.ofPayload tag v, s.memory)
  | .receive view message readOnly => s.on s.views view fun v =>
    match Message.ofWire v readOnly s.memory with
    | (.ok x, m) =>
      (.ofMessage .done, s.withMessages (s.messageSpace.assign Message.drop message x m))
    | (.error e, _) => (.ofMessage (.failed e), s)
  | .ofWriter writer message tag => s.on s.writers writer fun w =>
    s.putMessage message (Message.ofWriter tag w s.memory)
  | .setWriter message writer => s.on s.messages message fun x => s.on s.writers writer fun w =>
    let r := MessageOp.change s.messageSpace message (x.setWriter w s.memory)
    (.ofMessage r.1, s.withMessages r.2)

/-- All views that are held. -/
def held (s : Commons) : List View :=
  s.viewSpace.held ++ (s.writerSpace.held ++ (s.readerSpace.held ++ s.messageSpace.held))

/-- What stands under the names. -/
def belongings (s : Commons) : Belongings where
  views := s.viewSpace.register
  writers := s.writerSpace.register
  readers := s.readerSpace.register
  messages := s.messageSpace.register

/-- The views of a commons and the others are all that holds their arrays, and no cursor of a writer
is behind the end. -/
structure Sound (others : List View) (s : Commons) : Prop where
  held : s.memory.HeldBy (s.held ++ others)
  cursors : Workspace.Cursors s.writers

/-- What an operation on `s` answers and leaves. -/
structure Outcome (others : List View) (s : Commons) (E : Answer → Belongings → Prop)
    (r : Answer × Commons) : Prop where
  sound : r.2.Sound others
  keeps : Keeps others s.memory r.2.memory
  effect : E r.1 r.2.belongings

/-! ### One kind of thing beside the others -/

/-- One kind of thing in a commons, by what may become of it while the views of the others are
kept. -/
structure Part (α β : Type) [Holder α β] where
  space : Commons → Workspace α
  replace : Commons → Workspace α → Commons
  record : Belongings → Register β → Belongings
  /-- the views of the others -/
  beside : Commons → List View
  memory_space (s : Commons) : (space s).memory = s.memory
  memory_replace (s : Commons) (w : Workspace α) : (replace s w).memory = w.memory
  space_replace (s : Commons) (w : Workspace α) : space (replace s w) = w
  held_perm (s : Commons) : s.held.Perm ((space s).held ++ beside s)
  beside_replace (s : Commons) (w : Workspace α) : beside (replace s w) = beside s
  belongings_replace (s : Commons) (w : Workspace α) (h : Keeps (beside s) s.memory w.memory) :
    (replace s w).belongings = record s.belongings w.register

open Workspace (Cursors register_of_keeps)

def viewPart : Part View Bytes where
  space := viewSpace
  replace := withViews
  record b r := { b with views := r }
  beside s := s.writerSpace.held ++ (s.readerSpace.held ++ s.messageSpace.held)
  memory_space _ := rfl
  memory_replace _ _ := rfl
  space_replace _ _ := rfl
  beside_replace _ _ := rfl
  held_perm s := .refl s.held
  belongings_replace s w hk := by
    obtain ⟨hw, hk⟩ := Memory.keeps_append.1 hk
    obtain ⟨hr, hm⟩ := Memory.keeps_append.1 hk
    simp only [belongings, Belongings.mk.injEq]
    exact ⟨rfl, register_of_keeps hw, register_of_keeps hr, register_of_keeps hm⟩

def writerPart : Part Writer File where
  space := writerSpace
  replace := withWriters
  record b r := { b with writers := r }
  beside s := s.viewSpace.held ++ (s.readerSpace.held ++ s.messageSpace.held)
  memory_space _ := rfl
  memory_replace _ _ := rfl
  space_replace _ _ := rfl
  beside_replace _ _ := rfl
  held_perm s := List.perm_append_comm_assoc _ _ _
  belongings_replace s w hk := by
    obtain ⟨hv, hk⟩ := Memory.keeps_append.1 hk
    obtain ⟨hr, hm⟩ := Memory.keeps_append.1 hk
    simp only [belongings, Belongings.mk.injEq]
    exact ⟨register_of_keeps hv, rfl, register_of_keeps hr, register_of_keeps hm⟩

def readerPart : Part Reader Page where
  space := readerSpace
  replace := withReaders
  record b r := { b with readers := r }
  beside s := s.viewSpace.held ++ (s.writerSpace.held ++ s.messageSpace.held)
  memory_space _ := rfl
  memory_replace _ _ := rfl
  space_replace _ _ := rfl
  beside_replace _ _ := rfl
  held_perm s := by
    have h : (s.writerSpace.held ++ (s.readerSpace.held ++ s.messageSpace.held)).Perm
        (s.readerSpace.held ++ (s.writerSpace.held ++ s.messageSpace.held)) :=
      List.perm_append_comm_assoc _ _ _
    exact (h.append_left _).trans (List.perm_append_comm_assoc _ _ _)
  belongings_replace s w hk := by
    obtain ⟨hv, hk⟩ := Memory.keeps_append.1 hk
    obtain ⟨hw, hm⟩ := Memory.keeps_append.1 hk
    simp only [belongings, Belongings.mk.injEq]
    exact ⟨register_of_keeps hv, register_of_keeps hw, rfl, register_of_keeps hm⟩

def messagePart : Part Message Letter where
  space := messageSpace
  replace := withMessages
  record b r := { b with messages := r }
  beside s := s.viewSpace.held ++ (s.writerSpace.held ++ s.readerSpace.held)
  memory_space _ := rfl
  memory_replace _ _ := rfl
  space_replace _ _ := rfl
  beside_replace _ _ := rfl
  held_perm s := by
    have h : (s.writerSpace.held ++ (s.readerSpace.held ++ s.messageSpace.held)).Perm
        (s.messageSpace.held ++ (s.writerSpace.held ++ s.readerSpace.held)) :=
      (List.perm_append_comm.append_left _).trans (List.perm_append_comm_assoc _ _ _)
    exact (h.append_left _).trans (List.perm_append_comm_assoc _ _ _)
  belongings_replace s w hk := by
    obtain ⟨hv, hk⟩ := Memory.keeps_append.1 hk
    obtain ⟨hw, hr⟩ := Memory.keeps_append.1 hk
    simp only [belongings, Belongings.mk.injEq]
    exact ⟨register_of_keeps hv, register_of_keeps hw, register_of_keeps hr, rfl⟩

namespace Part

variable {α β ρ : Type} [Holder α β] (p : Part α β) {x : α} {others : List View} {s : Commons}
  {m : Memory} {name : String} {a : Answer} {F : Answer → Belongings → Prop}

theorem heldBy_iff (vs : List View) :
    m.HeldBy (vs ++ (s.held ++ others)) ↔
      m.HeldBy (vs ++ ((p.space s).held ++ (p.beside s ++ others))) := by
  have hperm : (vs ++ (s.held ++ others)).Perm
      (vs ++ ((p.space s).held ++ (p.beside s ++ others))) := by
    rw [← List.append_assoc (p.space s).held (p.beside s) others]
    exact ((p.held_perm s).append_right others).append_left vs
  exact ⟨fun h => h.perm hperm, fun h => h.perm hperm.symm⟩

theorem keeps_iff :
    Keeps (s.held ++ others) s.memory m ↔
      Keeps ((p.space s).held ++ (p.beside s ++ others)) (p.space s).memory m := by
  have hperm : (s.held ++ others).Perm ((p.space s).held ++ (p.beside s ++ others)) := by
    rw [← List.append_assoc (p.space s).held (p.beside s) others]
    exact (p.held_perm s).append_right others
  rw [p.memory_space s]
  exact ⟨fun h => h.mono hperm.symm.subset, fun h => h.mono hperm.subset⟩

theorem sound_space (h : s.Sound others) : (p.space s).Sound (p.beside s ++ others) := by
  have hh := (p.heldBy_iff []).1 h.held
  rw [← p.memory_space s] at hh
  exact hh

theorem view_mem (hk : (p.space s).slots.get? name = some x) :
    Holder.view x ∈ s.held ++ others := by
  have hmem := List.mem_append_left (p.beside s) (Workspace.view_mem_held hk)
  exact List.mem_append_left _ ((p.held_perm s).mem_iff.2 hmem)

/-- **Outcomes for one kind of thing** are outcomes for all. -/
theorem outcome {E : ρ → Register β → Prop} {r : ρ × Workspace α}
    (hc : Cursors (p.replace s r.2).writers)
    (ho : Workspace.Outcome (p.beside s ++ others) (p.space s) E r)
    (hF : ∀ reg, E r.1 reg → F a (p.record s.belongings reg)) :
    Outcome others s F (a, p.replace s r.2) where
  sound := by
    refine ⟨(p.heldBy_iff []).2 ?_, hc⟩
    rw [p.memory_replace, p.space_replace, p.beside_replace]
    exact ho.sound
  keeps := by
    rw [p.memory_replace, ← p.memory_space s]
    exact ho.keeps.mono (List.subset_append_right _ _)
  effect := by
    have hk := ho.keeps.mono (List.subset_append_left _ _)
    rw [p.memory_space s] at hk
    rw [p.belongings_replace s r.2 hk]
    exact hF _ ho.effect

/-- **A new thing**, held beside all that there is. -/
theorem outcome_assign {drop : α → Memory → Memory}
    (hc : Cursors (p.replace s ((p.space s).assign drop name x m)).writers)
    (hm : m.HeldBy (Holder.view x :: (s.held ++ others)))
    (hk : Keeps (s.held ++ others) s.memory m) {b : β}
    (hb : Holder.value x ((Holder.view x).bytes m) = b)
    (hdrop : ∀ a m, drop a m = (Holder.view a).drop m)
    (hF : F a (p.record s.belongings ((p.space s).register.put name (some b)))) :
    Outcome others s F (a, p.replace s ((p.space s).assign drop name x m)) := by
  have hheld := (p.heldBy_iff [Holder.view x]).1 hm
  have hbecomes := Workspace.becomes_assign (k := name) hheld (p.keeps_iff.1 hk) hb hdrop
  exact p.outcome hc hbecomes.outcome_register fun reg heq => heq ▸ hF

/-- **Taking** a thing away from its name, with its view. -/
theorem take (h : s.Sound others) (hk : (p.space s).slots.get? name = some x) {t : Commons}
    (ht : p.replace s ⟨s.memory, (p.space s).slots.erase name⟩ = t) :
    s.memory.HeldBy (Holder.view x :: (t.held ++ others)) ∧
      t.belongings = p.record s.belongings ((p.space s).register.put name none) := by
  subst ht
  obtain ⟨hs, hreg⟩ := Workspace.becomes_take (p.sound_space h) hk
  rw [p.memory_space s] at hs hreg
  refine ⟨(p.heldBy_iff [Holder.view x]).2 ?_, ?_⟩
  · rw [p.space_replace, p.beside_replace]
    exact HeldBy.perm hs List.perm_middle
  · rw [p.belongings_replace, hreg]
    exact .refl _ _

end Part

/-! ### Lookups -/

variable {s : Commons} {name : String}

theorem belongings_views {v : View} (hk : s.views.get? name = some v) :
    s.belongings.views name = some (v.bytes s.memory) :=
  Workspace.register_of_some (w := s.viewSpace) hk

theorem belongings_writers {x : Writer} (hk : s.writers.get? name = some x) :
    s.belongings.writers name = some ⟨x.view.bytes s.memory, x.position, x.encoding, []⟩ :=
  Workspace.register_of_some (w := s.writerSpace) hk

theorem belongings_readers {x : Reader} (hk : s.readers.get? name = some x) :
    s.belongings.readers name = some ⟨x.view.bytes s.memory, x.position, x.encoding⟩ :=
  Workspace.register_of_some (w := s.readerSpace) hk

theorem belongings_messages {x : Message} (hk : s.messages.get? name = some x) :
    s.belongings.messages name = some ⟨x.header, x.readOnly, x.payload.bytes s.memory⟩ :=
  Workspace.register_of_some (w := s.messageSpace) hk

end Commons

end Tandem
