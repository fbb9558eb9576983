import Tandem.Proofs.Sharing.Commons
import Tandem.Proofs.Recycling.Letters

/-!
# A commons in twins

The operations on a commons are those on its views, writers, readers and messages, and those that
make one of them from another.  In twins they give the same answers and leave the same things under
the same names (`Commons.Same.perform`).
-/

namespace Tandem

open Memory (Twins)

/-- No view is given a length that is greater than before, or written to through its room; values of
application types are composed. -/
def Op.Discreet (s : Commons) : Op → Prop
  | views op => op.Discreet s.views
  | overwrite _ _ _ => False
  | writers op => op.Composed
  | messages op => op.Composed
  | _ => True

namespace Commons

/-- The same things under the same names. -/
structure SameNames (s s' : Commons) : Prop where
  views_eq : s'.views = s.views
  writers_eq : s'.writers = s.writers
  readers_eq : s'.readers = s.readers
  messages_eq : s'.messages = s.messages

/-- The same commons in twins; no cursor of a writer is behind the end. -/
structure Same (gs : List Glimpse) (s s' : Commons) : Prop where
  names : SameNames s s'
  twins : Twins (s.held.map View.whole ++ gs) s.memory s'.memory
  cursors : Workspace.Cursors s.writers

/-- The same answer, and the same commons in twins. -/
def SameAnswer (gs : List Glimpse) (r r' : Answer × Commons) : Prop := r'.1 = r.1 ∧ Same gs r.2 r'.2

/-- A commons with other memory. -/
def withMemory (s : Commons) (m : Memory) : Commons := { s with memory := m }

variable {gs : List Glimpse} {s s' t t' : Commons} {m m' : Memory} {name : String}

theorem Same.eq_withMemory (h : Same gs s s') : s' = s.withMemory s'.memory := by
  obtain ⟨hv, hw, hr, hm⟩ := h.names
  cases s'
  simp only at hv hw hr hm
  simp only [withMemory, hv, hw, hr, hm]

theorem whole_mem {v : View} (hv : v ∈ s.held) : v.whole ∈ s.held.map View.whole ++ gs :=
  List.mem_append_left gs (List.mem_map_of_mem hv)

/-! ### One kind of thing beside the others -/

namespace Part

variable {α β : Type} [Holder α β] (p : Part α β) {x : α}

theorem glimpses_perm (s : Commons) (gs : List Glimpse) :
    (s.held.map View.whole ++ gs).Perm
      ((p.space s).held.map View.whole ++ ((p.beside s).map View.whole ++ gs)) := by
  have hperm := ((p.held_perm s).map View.whole).append_right gs
  rw [List.map_append, List.append_assoc] at hperm
  exact hperm

theorem view_mem_held (hk : (p.space s).slots.get? name = some x) : Holder.view x ∈ s.held :=
  (p.held_perm s).mem_iff.2 (List.mem_append_left _ (Workspace.view_mem_held hk))

theorem same_replace {w w' : Workspace α} (hn : SameNames (p.replace s w) (p.replace s' w'))
    (hc : Workspace.Cursors (p.replace s w).writers)
    (h : Workspace.Same ((p.beside s).map View.whole ++ gs) w w') :
    Same gs (p.replace s w) (p.replace s' w') := by
  refine ⟨hn, ?_, hc⟩
  have hperm := p.glimpses_perm (p.replace s w) gs
  rw [p.space_replace, p.beside_replace] at hperm
  rw [p.memory_replace, p.memory_replace]
  exact h.twins.perm hperm.symm

/-- **A new thing**, held beside all that there is. -/
theorem same_assign {r r' : α × Memory} {drop : α → Memory → Memory}
    (hslots : (p.space s').slots = (p.space s).slots)
    (hn : ∀ w w' : Workspace α, w'.slots = w.slots →
      SameNames (p.replace s w) (p.replace s' w'))
    (hc : Workspace.Cursors (p.replace s ((p.space s).assign drop name r.1 r.2)).writers)
    (hr : Memory.Same (s.held.map View.whole ++ gs) r r')
    (hdrop : ∀ a m, drop a m = (Holder.view a).drop m) :
    Same gs (p.replace s ((p.space s).assign drop name r.1 r.2))
      (p.replace s' ((p.space s').assign drop name r'.1 r'.2)) := by
  have hr' : Memory.Same ((p.space s).held.map View.whole ++ ((p.beside s).map View.whole ++ gs))
      r r' := ⟨hr.value_eq, hr.twins.perm ((p.glimpses_perm s gs).cons _)⟩
  have hassign : Workspace.Same ((p.beside s).map View.whole ++ gs)
      ((p.space s).assign drop name r.1 r.2) ((p.space s').assign drop name r'.1 r'.2) := by
    have hspace : p.space s' = ⟨(p.space s').memory, (p.space s).slots⟩ := by rw [← hslots]
    rw [hspace]
    exact Workspace.same_assign hr' hdrop
  exact p.same_replace (hn _ _ hassign.slots_eq) hc hassign

/-- **Taking** a thing away from its name, with its view. -/
theorem twins_take (hk : (p.space s).slots.get? name = some x)
    (h : Twins (s.held.map View.whole ++ gs) m m')
    (ht : p.replace s ⟨s.memory, (p.space s).slots.erase name⟩ = t) :
    Twins ((Holder.view x).whole :: (t.held.map View.whole ++ gs)) m m' := by
  subst ht
  have hperm := p.glimpses_perm (p.replace s ⟨s.memory, (p.space s).slots.erase name⟩) gs
  rw [p.space_replace, p.beside_replace] at hperm
  have hheld := ((Workspace.held_perm hk).map View.whole).append_right
    ((p.beside s).map View.whole ++ gs)
  exact h.perm ((p.glimpses_perm s gs).trans (hheld.trans (hperm.symm.cons _)))

end Part

/-! ### Operations -/

open Workspace (Cursors)

theorem same_putView {r r' : View × Memory} (m' : Memory) (hc : Cursors s.writers)
    (hr : Memory.Same (s.held.map View.whole ++ gs) r r') :
    SameAnswer gs (s.putView name r) ((s.withMemory m').putView name r') :=
  ⟨rfl, viewPart.same_assign rfl (fun _ _ h => ⟨h, rfl, rfl, rfl⟩) hc hr fun _ _ => rfl⟩

theorem same_putReader {r r' : Reader × Memory} (m' : Memory) (hc : Cursors s.writers)
    (hr : Memory.Same (s.held.map View.whole ++ gs) r r') :
    SameAnswer gs (s.putReader name r) ((s.withMemory m').putReader name r') :=
  ⟨rfl, readerPart.same_assign rfl (fun _ _ h => ⟨rfl, rfl, h, rfl⟩) hc hr fun _ _ => rfl⟩

theorem same_putMessage {r r' : Message × Memory} (m' : Memory) (hc : Cursors s.writers)
    (hr : Memory.Same (s.held.map View.whole ++ gs) r r') :
    SameAnswer gs (s.putMessage name r) ((s.withMemory m').putMessage name r') :=
  ⟨rfl, messagePart.same_assign rfl (fun _ _ h => ⟨rfl, rfl, rfl, h⟩) hc hr fun _ _ => rfl⟩

theorem Same.on {α : Type} {slots : Table String α} (h : Same gs s (s.withMemory m'))
    (name : String) {f f' : α → Answer × Commons}
    (hf : ∀ x, slots.get? name = some x → SameAnswer gs (f x) (f' x)) :
    SameAnswer gs (s.on slots name f) ((s.withMemory m').on slots name f') := by
  unfold Commons.on
  cases hk : slots.get? name with
  | none => exact ⟨rfl, h⟩
  | some x => exact hf x hk

theorem Part.same_space {α β : Type} [Holder α β] (p : Part α β)
    (h : Same gs s (s.withMemory m')) :
    Workspace.Same ((p.beside s).map View.whole ++ gs) ⟨s.memory, (p.space s).slots⟩
      ⟨m', (p.space s).slots⟩ := by
  refine ⟨rfl, ?_⟩
  have hspace : (⟨s.memory, (p.space s).slots⟩ : Workspace α) = p.space s := by
    rw [← p.memory_space]
  rw [hspace, p.memory_space]
  exact h.twins.perm (p.glimpses_perm s gs)

/-- **An operation** gives the same answer in twins, and leaves the same things under the same
names. -/
theorem Same.perform (h : Same gs s (s.withMemory m')) {op : Op} (hop : op.Discreet s) :
    SameAnswer gs (s.perform op) ((s.withMemory m').perform op) := by
  cases op with
  | views op =>
    obtain ⟨hr, hw⟩ := ViewOp.same_attempt (viewPart.same_space h) hop
    exact ⟨congrArg Answer.plain hr,
      viewPart.same_replace ⟨hw.slots_eq, rfl, rfl, rfl⟩ h.cursors hw⟩
  | overwrite view p bs => exact hop.elim
  | writers op =>
    obtain ⟨⟨hr, hw⟩, hc⟩ := WriterOp.same_run (writerPart.same_space h) h.cursors hop
    exact ⟨congrArg Answer.plain hr, writerPart.same_replace ⟨rfl, hw.slots_eq, rfl, rfl⟩ hc hw⟩
  | readers op =>
    obtain ⟨hr, hw⟩ := ReaderOp.same_run (readerPart.same_space h) op
    exact ⟨congrArg Answer.plain hr,
      readerPart.same_replace ⟨rfl, rfl, hw.slots_eq, rfl⟩ h.cursors hw⟩
  | messages op =>
    obtain ⟨hr, hw⟩ := MessageOp.same_run (messagePart.same_space h) hop
    exact ⟨congrArg Answer.ofMessage hr,
      messagePart.same_replace ⟨rfl, rfl, rfl, hw.slots_eq⟩ h.cursors hw⟩
  | share writer view =>
    refine h.on writer fun w hk => same_putView m' h.cursors ⟨rfl, ?_⟩
    exact h.twins.clone_self (whole_mem (writerPart.view_mem_held hk))
  | finish writer view =>
    refine h.on writer fun w hk => ?_
    have htake := writerPart.twins_take hk h.twins
      (t := { s with writers := s.writers.erase writer }) rfl
    exact same_putView (s := { s with writers := s.writers.erase writer }) m'
      (h.cursors.erase writer) ⟨rfl, htake⟩
  | startReading view reader =>
    refine h.on view fun v hk => ?_
    have htake := viewPart.twins_take hk h.twins (t := { s with views := s.views.erase view }) rfl
    exact same_putReader (s := { s with views := s.views.erase view }) m' h.cursors ⟨rfl, htake⟩
  | stopReading reader view =>
    refine h.on reader fun r hk => ?_
    have htake := readerPart.twins_take hk h.twins
      (t := { s with readers := s.readers.erase reader }) rfl
    exact same_putView (s := { s with readers := s.readers.erase reader }) m' h.cursors ⟨rfl, htake⟩
  | readMessage message reader =>
    refine h.on message fun x hk => same_putReader m' h.cursors ⟨rfl, ?_⟩
    exact h.twins.clone_self (whole_mem (messagePart.view_mem_held hk))
  | payload message view =>
    refine h.on message fun x hk => same_putView m' h.cursors ⟨rfl, ?_⟩
    exact h.twins.clone_self (whole_mem (messagePart.view_mem_held hk))
  | wire message view =>
    refine h.on message fun x hk => same_putView m' h.cursors ?_
    exact Message.same_toView h.twins (whole_mem (messagePart.view_mem_held hk))
  | wrap view message tag =>
    refine h.on view fun v hk => ?_
    have htake := viewPart.twins_take hk h.twins (t := { s with views := s.views.erase view }) rfl
    exact same_putMessage (s := { s with views := s.views.erase view }) m' h.cursors ⟨rfl, htake⟩
  | receive view message readOnly =>
    refine h.on view fun v hk => ?_
    have hmem : v.whole ∈ s.held.map View.whole ++ gs := whole_mem (viewPart.view_mem_held hk)
    rcases Message.ofWire_cases h.twins hmem readOnly with ⟨e, he, he'⟩ | ⟨x, hx, hx', hc⟩
    · have he' : Message.ofWire v readOnly (s.withMemory m').memory = _ := he'
      rw [he, he']
      exact ⟨rfl, h⟩
    · have hx' : Message.ofWire v readOnly (s.withMemory m').memory = _ := hx'
      rw [hx, hx']
      have hput : SameAnswer gs (s.putMessage message (x, v.clone s.memory))
          ((s.withMemory m').putMessage message (x, v.clone m')) :=
        same_putMessage m' h.cursors (.of_twins x hc)
      exact ⟨rfl, hput.2⟩
  | ofWriter writer message tag =>
    refine h.on writer fun w hk => same_putMessage m' h.cursors ⟨rfl, ?_⟩
    exact h.twins.clone_self (whole_mem (writerPart.view_mem_held hk))
  | setWriter message writer =>
    refine h.on message fun x hk => h.on writer fun w hk' => ?_
    have hspace := messagePart.same_space h
    have hclone := h.twins.clone_self (whole_mem (writerPart.view_mem_held hk'))
    have hshare : Memory.Same _ (w.share s.memory) (w.share m') :=
      .of_twins _ (hclone.perm ((messagePart.glimpses_perm s gs).cons _))
    obtain ⟨hr, hw⟩ := MessageOp.same_replace hspace hk hshare
    exact ⟨congrArg Answer.ofMessage hr,
      messagePart.same_replace ⟨rfl, rfl, rfl, hw.slots_eq⟩ h.cursors hw⟩

end Commons

end Tandem
