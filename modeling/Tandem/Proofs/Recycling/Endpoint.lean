import Tandem.Proofs.Recycling.Commons
import Tandem.Proofs.Recycling.Receiving

/-!
# Recycled memory never shows

An endpoint is a commons with the receivers of its streams, on several threads, each with unused
blocks of its own.  What was in these blocks at the start has no influence on anything that is told
or can be found out afterwards (`Endpoint.Sound.recycled_never_shows`): an act gives the same answer
whether it takes a block that an earlier message of another peer was in or a zeroed one, and the
same can be seen of what it leaves (`Endpoint.Same.act`, by which runs go on abreast).
-/

namespace Tandem

open Memory (HeldBy Alike Twins)

/-- Two memories that differ only in what unused blocks hold. -/
structure Memory.DifferUnused (m m' : Memory) : Prop where
  alike : Alike m m'
  cells_eq : m'.cells = m.cells

/-- **An earlier view** that was let go of leaves no other trace than in unused blocks. -/
theorem Memory.differUnused_of_view (m : Memory) (bs bs' : Bytes) (h : bs'.length = bs.length) :
    ((View.ofBytes bs m).1.drop (View.ofBytes bs m).2).DifferUnused
      ((View.ofBytes bs' m).1.drop (View.ofBytes bs' m).2) := by
  have hcells : ∀ bs : Bytes,
      ((View.ofBytes bs m).1.drop (View.ofBytes bs m).2).cells = m.cells.erase m.arrays := by
    intro bs
    simp only [View.ofBytes, View.drop, create, overwrite, release, Table.get?_set_self, if_true,
      Nat.le_refl, Table.erase_set]
  refine ⟨?_, (hcells bs').trans (hcells bs).symm⟩
  obtain ⟨-, hcreated⟩ := (Alike.refl m).create bs.length
  simp only [View.ofBytes, View.drop, h]
  exact (hcreated.overwrite _ _ _ _ _).release _

/-- A commons, and receivers under names. -/
structure Endpoint where
  commons : Commons
  receivers : Table String Frame.Receiver

/-- What a program does at an endpoint. -/
inductive Act : Type 1 where
  | perform (op : Op)
  | read {α : Type} (reader : String) (p : Read α)
  | readInto {α : Type} [Serializable α] (reader : String) (a : α)
  | getRecord (α : Type) [Serializable α] (message : String)
  | getRecordInto {α : Type} [Serializable α] (message : String) (a : α)
  /-- begins to receive frames -/
  | listen (receiver : String) (max : Option Nat)
  /-- takes as much of what has come as memory is offered for; a body goes under the name of a
  view -/
  | feed (receiver : String) (bs : Bytes) (view : String)
  /-- receives no more -/
  | hangUp (receiver : String)
  | fixSettings (s : Memory.Settings)
  | onThread (t : ThreadId)
  | startThread
  | endThread (t : ThreadId)

/-- What a program is told. -/
inductive Told : Type 1 where
  | answer (a : Answer)
  | read {α : Type} (result : Except ReadError α)
  | readInto {α : Type} (result : Except ReadError Unit × α)
  | record {α : Type} (result : Except MessageError α)
  | recordInto {α : Type} (result : Except MessageError Unit × α)
  /-- the body that a piece completes, if it does, or why a length is refused -/
  | framed (result : Except FramingError (Option Bytes))

/-- What a program may do if it does not want to see what it did not write. -/
def Act.Discreet (s : Commons) : Act → Prop
  | perform op => op.Discreet s
  | _ => True

namespace Endpoint

/-- Nothing under any name. -/
def start (m : Memory) : Endpoint := ⟨.start m, .empty⟩

def memory (e : Endpoint) : Memory := e.commons.memory

/-- An endpoint with other memory. -/
def withMemory (e : Endpoint) (m : Memory) : Endpoint :=
  { e with commons := e.commons.withMemory m }

/-- A name is not in use. -/
def unused (e : Endpoint) : Told × Endpoint := (.answer (.plain (.refused .outOfRange)), e)

/-- Carries on with what is under a name, which must be in use. -/
def on {α : Type} (e : Endpoint) (t : Table String α) (name : String) (f : α → Told × Endpoint) :
    Told × Endpoint :=
  match t.get? name with
  | none => e.unused
  | some a => f a

/-- A reader has got further. -/
def moveReader (e : Endpoint) (name : String) (r : Reader) : Endpoint :=
  { e with commons := e.commons.withReaders (e.commons.readerSpace.update name r e.memory) }

/-- Lets go of a receiver and of the body that it was about to complete. -/
def hangUp (e : Endpoint) (name : String) : Endpoint :=
  match e.receivers.get? name with
  | none => e
  | some r =>
    { e.withMemory (r.views.foldl (fun m v => v.drop m) e.memory) with
      receivers := e.receivers.erase name }

/-- Carries on with the answer to a piece of a stream. -/
def hear (e : Endpoint) (name view : String) :
    Except FramingError (Option View) × Frame.Receiver × Memory → Told × Endpoint
  | (.error err, r, m) =>
    (.framed (.error err), { e.withMemory m with receivers := e.receivers.set name r })
  | (.ok none, r, m) =>
    (.framed (.ok none), { e.withMemory m with receivers := e.receivers.set name r })
  | (.ok (some v), r, m) =>
    (.framed (.ok (some (v.bytes m))),
      ⟨((e.commons.withMemory m).putView view (v, m)).2, e.receivers.set name r⟩)

/-- What an act tells and leaves. -/
def act (e : Endpoint) : Act → Told × Endpoint
  | .perform op =>
    let r := e.commons.perform op
    (.answer r.1, { e with commons := r.2 })
  | .read name p => e.on e.commons.readers name fun r =>
    let result := r.read p e.memory
    (.read result.1, e.moveReader name result.2)
  | @Act.readInto _ _ name a => e.on e.commons.readers name fun r =>
    let result := r.readInto a e.memory
    (.readInto result.1, e.moveReader name result.2)
  | @Act.getRecord α _ name => e.on e.commons.messages name fun x =>
    let result := x.getRecord α e.memory
    (.record result.1, e.withMemory result.2)
  | @Act.getRecordInto _ _ name a => e.on e.commons.messages name fun x =>
    let result := x.getRecordInto a e.memory
    (.recordInto result.1, e.withMemory result.2)
  | .listen name max =>
    let e := e.hangUp name
    (.answer (.plain .done), { e with receivers := e.receivers.set name (.create max) })
  | .feed name bs view => e.on e.receivers name fun r =>
    let piece := bs.take r.targetLength
    e.hear name view (r.call piece piece.length e.memory)
  | .hangUp name => (.answer (.plain .done), e.hangUp name)
  | .fixSettings s =>
    let r := e.memory.fixSettings s
    (.answer (.plain (.flag r.1)), e.withMemory r.2)
  | .onThread t => (.answer (.plain .done), e.withMemory (e.memory.onThread t))
  | .startThread => (.answer (.plain .done), e.withMemory e.memory.startThread)
  | .endThread t => (.answer (.plain .done), e.withMemory (e.memory.endThread t))

/-- What acts tell, one after the other, and what they leave. -/
def run (e : Endpoint) : List Act → List Told × Endpoint
  | [] => ([], e)
  | a :: as =>
    let r := e.act a
    let rest := r.2.run as
    (r.1 :: rest.1, rest.2)

/-- Every act is discreet where it is done. -/
def Discreet (e : Endpoint) : List Act → Prop
  | [] => True
  | a :: as => a.Discreet e.commons ∧ (e.act a).2.Discreet as

/-! ### Endpoints in order -/

/-- The views of bodies that are about to be completed. -/
def incoming (e : Endpoint) : List View := e.receivers.values.flatMap Frame.Receiver.views

/-- What has come of these bodies. -/
def glimpses (e : Endpoint) : List Glimpse := e.receivers.values.flatMap Frame.Receiver.glimpses

/-- No more has come of a body than there is memory for. -/
def InOrder (receivers : Table String Frame.Receiver) : Prop :=
  ∀ name r, receivers.get? name = some r → r.InOrder

/-- The views of an endpoint are all that holds their arrays, no cursor of a writer is behind the
end, and the receivers are in order.  So is all that is reached from the start (`sound_start`,
`Sound.run`). -/
structure Sound (e : Endpoint) : Prop where
  held : e.memory.HeldBy (e.commons.held ++ e.incoming)
  cursors : Workspace.Cursors e.commons.writers
  inOrder : InOrder e.receivers

/-- The same endpoint in twins. -/
structure Same (e e' : Endpoint) : Prop where
  commons : Commons.Same e.glimpses e.commons e'.commons
  receivers_eq : e'.receivers = e.receivers
  inOrder : InOrder e.receivers

/-- The same is told, and the same endpoint is left. -/
def SameTold (r r' : Told × Endpoint) : Prop := r'.1 = r.1 ∧ Same r.2 r'.2

variable {e e' : Endpoint} {m m' : Memory} {name : String} {receivers : Table String Frame.Receiver}
  {r : Frame.Receiver} {a : Act} {acts : List Act}

theorem inOrder_empty : InOrder .empty := fun _ _ h => by cases h

theorem InOrder.set (h : InOrder receivers) (name : String) (hr : r.InOrder) :
    InOrder (receivers.set name r) := by
  intro other q hq
  rw [Table.get?_set] at hq
  split_ifs at hq
  · cases hq
    exact hr
  · exact h other q hq

theorem InOrder.erase (h : InOrder receivers) (name : String) : InOrder (receivers.erase name) := by
  intro other q hq
  rw [Table.get?_erase] at hq
  split_ifs at hq
  exact h other q hq

theorem views_glimpses (e : Endpoint) :
    (e.commons.held.map View.whole ++ e.glimpses).map Glimpse.view =
      e.commons.held ++ e.incoming := by
  have hwhole : ∀ vs : List View, (vs.map View.whole).map Glimpse.view = vs := by
    intro vs
    rw [List.map_map]
    exact List.map_id vs
  rw [List.map_append, hwhole, glimpses, List.map_flatMap, incoming]
  simp only [Frame.Receiver.glimpses_view]

/-- **At the start** of a run, other bytes in unused blocks make a twin. -/
theorem Sound.same (h : e.Sound) (hm : e.memory.DifferUnused m) : Same e (e.withMemory m) := by
  have hheld := h.held
  rw [← views_glimpses] at hheld
  have htwins := (Twins.refl hheld).of_cells hm.alike hheld.wellFormed rfl hm.cells_eq
  exact ⟨⟨⟨rfl, rfl, rfl, rfl⟩, htwins, h.cursors⟩, rfl, h.inOrder⟩

theorem Same.sound (h : Same e e') : e.Sound := by
  refine ⟨?_, h.commons.cursors, h.inOrder⟩
  rw [← views_glimpses]
  exact h.commons.twins.held

theorem Same.eq_withMemory (h : Same e e') : e' = e.withMemory e'.memory := by
  have hc := h.commons.eq_withMemory
  have hr := h.receivers_eq
  cases e'
  simp only at hc hr
  simp only [withMemory, memory, hr, ← hc]

/-! ### Acts -/

theorem Same.unused (h : Same e e') : SameTold e.unused e'.unused := ⟨rfl, h⟩

theorem Same.on {α : Type} (h : Same e (e.withMemory m')) (t : Table String α) (name : String)
    {f f' : α → Told × Endpoint} (hf : ∀ x, t.get? name = some x → SameTold (f x) (f' x)) :
    SameTold (e.on t name f) ((e.withMemory m').on t name f') := by
  unfold Endpoint.on
  cases hk : t.get? name with
  | none => exact h.unused
  | some x => exact hf x hk

theorem Same.memory (h : Same e (e.withMemory m'))
    {m₁ m₁' : Memory} (ht : Twins (e.commons.held.map View.whole ++ e.glimpses) m₁ m₁') :
    Same (e.withMemory m₁) ((e.withMemory m').withMemory m₁') :=
  ⟨⟨⟨rfl, rfl, rfl, rfl⟩, ht, h.commons.cursors⟩, rfl, h.inOrder⟩

theorem Same.moveReader (h : Same e (e.withMemory m')) {q q' : Reader}
    (hk : e.commons.readers.get? name = some q) (hv : q'.view = q.view) :
    Same (e.moveReader name q') ((e.withMemory m').moveReader name q') := by
  have hspace := Commons.readerPart.same_space h.commons
  have htwins := hspace.hold hk
  have hview : Holder.view q' = Holder.view q := hv
  rw [← hview] at htwins
  have hw : Workspace.Same _ (e.commons.readerSpace.update name q' e.memory)
      ((e.withMemory m').commons.readerSpace.update name q' m') :=
    Workspace.same_update (.of_twins q' htwins)
  exact ⟨Commons.readerPart.same_replace ⟨rfl, rfl, hw.slots_eq, rfl⟩ h.commons.cursors hw, rfl,
    h.inOrder⟩

/-- What has come of the other bodies. -/
def glimpsesBeside (e : Endpoint) (name : String) : List Glimpse :=
  (e.receivers.erase name).values.flatMap Frame.Receiver.glimpses

theorem glimpses_perm (hk : e.receivers.get? name = some r) :
    e.glimpses.Perm (r.glimpses ++ e.glimpsesBeside name) :=
  (Table.values_perm hk).flatMap_right _

theorem Same.hold (h : Same e (e.withMemory m')) (hk : e.receivers.get? name = some r) :
    Twins (r.glimpses ++ (e.commons.held.map View.whole ++ e.glimpsesBeside name)) e.memory m' :=
  h.commons.twins.perm
    (((glimpses_perm hk).append_left _).trans (List.perm_append_comm_assoc _ _ _))

theorem Same.hangUp (h : Same e (e.withMemory m')) (name : String) :
    Same (e.hangUp name) ((e.withMemory m').hangUp name) := by
  unfold Endpoint.hangUp
  have hreceivers : (e.withMemory m').receivers = e.receivers := rfl
  rw [hreceivers]
  cases hk : e.receivers.get? name with
  | none => exact h
  | some r =>
    exact ⟨⟨⟨rfl, rfl, rfl, rfl⟩, Frame.Receiver.twins_drop (h.hold hk), h.commons.cursors⟩, rfl,
      h.inOrder.erase name⟩

theorem receivers_hangUp (e : Endpoint) (name : String) :
    (e.hangUp name).receivers.get? name = none := by
  unfold Endpoint.hangUp
  cases hk : e.receivers.get? name with
  | none => exact hk
  | some r => exact Table.get?_erase_self _ _

theorem Same.listen (h : Same e e') (hk : e.receivers.get? name = none) (max : Option Nat) :
    Same { e with receivers := e.receivers.set name (.create max) }
      { e' with receivers := e'.receivers.set name (.create max) } := by
  have hglimpses : glimpses { e with receivers := e.receivers.set name (.create max) } =
      e.glimpses := by
    have hbeside : e.glimpsesBeside name = e.glimpses := by
      rw [glimpsesBeside, Table.erase_of_get?_none hk, glimpses]
    rw [← hbeside]
    rfl
  refine ⟨?_, ?_, h.inOrder.set name (Frame.Receiver.inOrder_create max)⟩
  · rw [hglimpses]
    exact h.commons
  · simp only [h.receivers_eq]

theorem Same.progress (h : Same e (e.withMemory m')) (name : String) (hr : r.InOrder)
    {m₁ m₁' : Memory}
    (ht : Twins (r.glimpses ++ (e.commons.held.map View.whole ++ e.glimpsesBeside name)) m₁ m₁') :
    Same { e.withMemory m₁ with receivers := e.receivers.set name r }
      { (e.withMemory m').withMemory m₁' with receivers := e.receivers.set name r } :=
  ⟨⟨⟨rfl, rfl, rfl, rfl⟩, ht.perm (List.perm_append_comm_assoc _ _ _), h.commons.cursors⟩, rfl,
    h.inOrder.set name hr⟩

/-- **A piece of a stream**, with the answer that the receiver gives to it. -/
theorem Same.hear (h : Same e (e.withMemory m')) (name view : String)
    {answer answer' : Except FramingError (Option View) × Frame.Receiver × Memory}
    (ha : Frame.Receiver.SameCall
      (e.commons.held.map View.whole ++ e.glimpsesBeside name) answer answer') :
    SameTold (e.hear name view answer) ((e.withMemory m').hear name view answer') := by
  obtain ⟨hresult, hreceiver, hr, htwins⟩ := ha
  obtain ⟨result, r, m₁⟩ := answer
  obtain ⟨result', r', m₁'⟩ := answer'
  obtain rfl : result' = result := hresult
  obtain rfl : r' = r := hreceiver
  match result' with
  | .error err => exact ⟨rfl, h.progress name hr htwins⟩
  | .ok none => exact ⟨rfl, h.progress name hr htwins⟩
  | .ok (some v) =>
    -- the view of the body takes its place among the others
    have hview : Twins (v.whole :: (r'.glimpses ++
        (e.commons.held.map View.whole ++ e.glimpsesBeside name))) m₁ m₁' := htwins
    have hput : Commons.SameAnswer (r'.glimpses ++ e.glimpsesBeside name)
        ((e.commons.withMemory m₁).putView view (v, m₁))
        (((e.withMemory m').commons.withMemory m₁').putView view (v, m₁')) :=
      Commons.same_putView m₁' h.commons.cursors
        (.of_twins v (hview.perm (.cons _ (List.perm_append_comm_assoc _ _ _))))
    refine ⟨congrArg (fun bs => Told.framed (.ok (some bs))) ?_, hput.2, rfl,
      h.inOrder.set name hr⟩
    exact hview.bytes_eq List.mem_cons_self

/-- **An act** tells the same in twins, and leaves the same endpoint. -/
theorem Same.act (h : Same e (e.withMemory m')) (ha : a.Discreet e.commons) :
    SameTold (e.act a) ((e.withMemory m').act a) := by
  cases a with
  | perform op =>
    obtain ⟨hr, hc⟩ := h.commons.perform ha
    exact ⟨congrArg Told.answer hr, hc, rfl, h.inOrder⟩
  | read reader p =>
    refine h.on e.commons.readers reader fun q hk => ?_
    have hq : q.read p m' = q.read p e.memory := Reader.read_eq h.commons.twins
      (Commons.whole_mem (Commons.readerPart.view_mem_held hk)) p
    refine ⟨congrArg (fun result => Told.read result.1) hq, ?_⟩
    show Same _ ((e.withMemory m').moveReader reader (q.read p m').2)
    rw [hq]
    exact h.moveReader hk rfl
  | readInto reader a =>
    refine h.on e.commons.readers reader fun q hk => ?_
    have hq : q.readInto a m' = q.readInto a e.memory := Reader.readInto_eq h.commons.twins
      (Commons.whole_mem (Commons.readerPart.view_mem_held hk)) a
    refine ⟨congrArg (fun result => Told.readInto result.1) hq, ?_⟩
    show Same _ ((e.withMemory m').moveReader reader (q.readInto a m').2)
    rw [hq]
    exact h.moveReader hk rfl
  | getRecord α message =>
    refine h.on e.commons.messages message fun x hk => ?_
    obtain ⟨hr, ht⟩ := Message.getRecord_eq (α := α) h.commons.twins
      (Commons.whole_mem (Commons.messagePart.view_mem_held hk))
    exact ⟨congrArg Told.record hr, h.memory ht⟩
  | getRecordInto message a =>
    refine h.on e.commons.messages message fun x hk => ?_
    obtain ⟨hr, ht⟩ := Message.getRecordInto_eq h.commons.twins
      (Commons.whole_mem (Commons.messagePart.view_mem_held hk)) a
    exact ⟨congrArg Told.recordInto hr, h.memory ht⟩
  | listen receiver max => exact ⟨rfl, (h.hangUp receiver).listen (receivers_hangUp e receiver) max⟩
  | feed receiver bs view =>
    refine h.on e.receivers receiver fun r hk => ?_
    have hpiece : (bs.take r.targetLength).length ≤ r.targetLength := List.length_take_le _ _
    exact h.hear receiver view
      (Frame.Receiver.same_call (h.hold hk) (h.inOrder _ _ hk) hpiece)
  | hangUp receiver => exact ⟨rfl, h.hangUp receiver⟩
  | fixSettings s =>
    exact ⟨congrArg (fun b => Told.answer (.plain (.flag b)))
        (h.commons.twins.alike.fixSettings s).1,
      h.memory (h.commons.twins.fixSettings s)⟩
  | onThread t => exact ⟨rfl, h.memory (h.commons.twins.onThread t)⟩
  | startThread => exact ⟨rfl, h.memory h.commons.twins.startThread⟩
  | endThread t => exact ⟨rfl, h.memory (h.commons.twins.endThread t)⟩

/-- **A run** is told the same in twins, and leaves the same endpoint. -/
theorem Same.run (h : Same e e') (hacts : e.Discreet acts) :
    (e'.run acts).1 = (e.run acts).1 ∧ Same (e.run acts).2 (e'.run acts).2 := by
  induction acts generalizing e e' with
  | nil => exact ⟨rfl, h⟩
  | cons a acts ih =>
    have heq := h.eq_withMemory
    rw [heq] at h
    obtain ⟨htold, hleft⟩ := h.act hacts.1
    obtain ⟨hrest, hend⟩ := ih hleft hacts.2
    rw [heq]
    exact ⟨List.cons_eq_cons.2 ⟨htold, hrest⟩, hend⟩

/-! ### What is reached from the start -/

theorem sound_start (h : m.WellFormed) : (start m).Sound :=
  ⟨h.heldBy_nil, Workspace.cursors_empty, inOrder_empty⟩

theorem Sound.run (h : e.Sound) (hacts : e.Discreet acts) : (e.run acts).2.Sound :=
  ((h.same ⟨.refl _, rfl⟩).run hacts).2.sound

/-! ### What can be found out -/

/-- All that can be found out about an endpoint is the same for another. -/
structure Indistinguishable (e e' : Endpoint) : Prop where
  names : Commons.SameNames e.commons e'.commons
  receivers_eq : e'.receivers = e.receivers
  /-- what views show, what writers wrote, what readers are over, and what is in messages -/
  belongings_eq : e'.commons.belongings = e.commons.belongings
  handles_eq : ∀ v ∈ e.commons.held, v.handles e'.memory = v.handles e.memory
  capacity_eq : ∀ v ∈ e.commons.held, v.capacity e'.memory = v.capacity e.memory
  read_eq : ∀ name q, e.commons.readers.get? name = some q →
    ∀ {α : Type} (p : Read α), q.read p e'.memory = q.read p e.memory
  wire_eq : ∀ name x, e.commons.messages.get? name = some x → x.wire e'.memory = x.wire e.memory
  /-- what has come of the frames that are about to be completed -/
  assembly_eq : ∀ name r, e.receivers.get? name = some r →
    r.assembly e'.memory = r.assembly e.memory

theorem register_eq {α β : Type} [Holder α β] {slots : Table String α}
    (h : ∀ name x, slots.get? name = some x → (Holder.view x).bytes m' = (Holder.view x).bytes m) :
    (⟨m', slots⟩ : Workspace α).register = (⟨m, slots⟩ : Workspace α).register := by
  funext name
  cases hk : slots.get? name with
  | none => simp only [Workspace.register, hk, Option.map_none]
  | some x => simp only [Workspace.register, hk, Option.map_some, h name x hk]

theorem Same.indistinguishable (h : Same e (e.withMemory m')) :
    Indistinguishable e (e.withMemory m') := by
  have htwins : Twins (e.commons.held.map View.whole ++ e.glimpses) e.memory m' := h.commons.twins
  have hpart : ∀ {α β : Type} [Holder α β] (p : Commons.Part α β) name x,
      (p.space e.commons).slots.get? name = some x →
        (Holder.view x).bytes m' = (Holder.view x).bytes e.memory :=
    fun p _ _ hk => htwins.bytes_eq (Commons.whole_mem (p.view_mem_held hk))
  refine ⟨h.commons.names, rfl, ?_, fun v _ => htwins.handles_eq v,
    fun v _ => htwins.alike.capacity_eq v, fun _ _ hk _ p => ?_, fun _ _ hk => ?_,
    fun _ _ hk => ?_⟩
  · simp only [Commons.belongings, Belongings.mk.injEq]
    exact ⟨register_eq (hpart Commons.viewPart), register_eq (hpart Commons.writerPart),
      register_eq (hpart Commons.readerPart), register_eq (hpart Commons.messagePart)⟩
  · exact Reader.read_eq htwins (Commons.whole_mem (Commons.readerPart.view_mem_held hk)) p
  · exact Message.wire_eq htwins (Commons.whole_mem (Commons.messagePart.view_mem_held hk))
  · exact Frame.Receiver.assembly_eq (h.hold hk) (h.inOrder _ _ hk)

/-- **Recycled memory never shows.**  Two endpoints that differ only in what unused blocks hold, on
whichever thread, are told the same whatever is done at them, and nothing different can be found out
about what they become: views, files, pages and letters have the same bytes, every read gives the
same value, and the same goes to the wire and comes out of frames. -/
theorem Sound.recycled_never_shows (h : e.Sound) (hm : e.memory.DifferUnused m)
    (hacts : e.Discreet acts) :
    ((e.withMemory m).run acts).1 = (e.run acts).1 ∧
      Indistinguishable (e.run acts).2 ((e.withMemory m).run acts).2 := by
  obtain ⟨htold, hend⟩ := (h.same hm).run hacts
  have heq := hend.eq_withMemory
  rw [heq] at hend
  refine ⟨htold, ?_⟩
  rw [heq]
  exact hend.indistinguishable

/-- The same is written and received after a view of `7, 7, 7, 7` as after one of `9, 9, 9, 9`,
though this is what the room of the next view holds. -/
theorem recycled_never_shows_used :
    ∃ (e : Endpoint) (m : Memory) (acts : List Act),
      e.Sound ∧ e.memory.DifferUnused m ∧ e.Discreet acts ∧
      ((View.create 4 e.memory).1.room (View.create 4 e.memory).2).take 4 = [7, 7, 7, 7] ∧
      ((View.create 4 m).1.room (View.create 4 m).2).take 4 = [9, 9, 9, 9] ∧
      ((e.withMemory m).run acts).1 = (e.run acts).1 ∧
      Indistinguishable (e.run acts).2 ((e.withMemory m).run acts).2 ∧
      (e.run acts).2.commons.belongings.views "written" = some [0, 0, 5, 0, 0, 0, 0] ∧
      (e.run acts).2.commons.belongings.views "body" = some [1, 2, 3] ∧
      (e.run acts).2.commons.belongings.messages "letter" = some ⟨⟨1, 515, 0⟩, true, []⟩ := by
  obtain ⟨held, -⟩ :=
    View.held_drop (View.held_ofBytes Memory.wellFormed_initial.heldBy_nil [7, 7, 7, 7]).1
  have hs := sound_start held.wellFormed
  have hm := Memory.differUnused_of_view .initial [7, 7, 7, 7] [9, 9, 9, 9] rfl
  let acts : List Act :=
    [.perform (.writers (.create "writer" 8 .utf8)),
      .perform (.writers (.perform "writer" (.reserve 2) trivial)),
      .perform (.writers (.perform "writer" (.record (Tree.node 5 [])) trivial)),
      .perform (.share "writer" "written"),
      .listen "peer" none,
      .feed "peer" [0, 0, 0, 3] "body",
      .feed "peer" [1] "body",
      .startThread,
      .feed "peer" [2, 3] "body",
      .perform (.receive "body" "letter" true)]
  have hd : Discreet (start ((View.ofBytes [7, 7, 7, 7] .initial).1.drop
      (View.ofBytes [7, 7, 7, 7] .initial).2)) acts :=
    ⟨trivial, trivial, Tree.composed, trivial, trivial, trivial, trivial, trivial, trivial, trivial,
      trivial⟩
  obtain ⟨htold, hsame⟩ := hs.recycled_never_shows hm hd
  exact ⟨_, _, _, hs, hm, hd, by decide, by decide, htold, hsame, by decide, by decide, by decide⟩

/-- Not so if a view is made longer without being written: it shows what was there. -/
example :
    let after (bs : Bytes) := start ((View.ofBytes bs .initial).1.drop (View.ofBytes bs .initial).2)
    let acts : List Act :=
      [.perform (.views (.create "view" 4)), .perform (.views (.setLength "view" 4))]
    ((after [7, 7, 7, 7]).run acts).2.commons.belongings.views "view" = some [7, 7, 7, 7] ∧
      ((after [9, 9, 9, 9]).run acts).2.commons.belongings.views "view" = some [9, 9, 9, 9] := by
  decide

end Endpoint

end Tandem
