import Tandem.Proofs.Sharing.Commons

/-!
# Operations on a commons

An operation does to what stands under the names what it does where nothing is shared
(`Commons.Sound.outcome`), or nothing if there is no memory for it
(`Commons.Sound.outcome_of_not_fits`).  An operation on one kind of thing is one of its workspace.
Where one thing is made from another, its view is cloned, or taken from where it was.
-/

namespace Tandem

namespace Commons

variable {others : List View} {s t : Commons} {op : Op} {r : Answer × Commons}
  {F : Answer → Belongings → Prop}

theorem Outcome.of_take (ho : Outcome others t F r) (hm : t.memory = s.memory) :
    Outcome others s F r :=
  ⟨ho.sound, hm ▸ ho.keeps, ho.effect⟩

/-- **An operation that needs what is under a name** is refused if there is nothing. -/
theorem Sound.outcome_source {α : Type} {slots : Table String α} {name : String} {k : Slot}
    {f : α → Answer × Commons} (h : s.Sound others) (hk : k ∈ op.sources)
    (hnone : slots.get? name = none → s.belongings.Lacks k)
    (hsome : ∀ x, slots.get? name = some x → Outcome others s (s.belongings.Step op) (f x)) :
    Outcome others s (s.belongings.Step op) (s.on slots name f) := by
  unfold on
  cases hx : slots.get? name with
  | none => exact ⟨h, .refl others s.memory, .unused hk (hnone hx)⟩
  | some x => exact hsome x hx

open Workspace (register_of_none)

/-- **An operation** does to what stands under the names what it does to values with nothing shared
between them. -/
theorem Sound.outcome (h : s.Sound others) (hop : op.Scripted) (hfits : s.Fits op) :
    Outcome others s (s.belongings.Step op) (s.perform op) := by
  cases op with
  | views op =>
    have heq : op.attempt s.viewSpace = op.run s.viewSpace := if_pos hfits
    simp only [perform, heq]
    exact viewPart.outcome h.cursors (ViewOp.outcome_run (viewPart.sound_space h) op)
      fun reg he => .views he
  | overwrite view p bs =>
    have hroom : ((ViewOp.own view).demand s.viewSpace).all s.memory.canCreate = true := hfits
    simp only [perform]
    rw [if_pos hroom]
    exact viewPart.outcome h.cursors
      (Workspace.outcome_overwrite (viewPart.sound_space h) view p bs) fun reg he => .overwrite he
  | writers op =>
    obtain ⟨ho, hc⟩ := WriterOp.outcome_run (writerPart.sound_space h) h.cursors hop hfits
    exact writerPart.outcome hc ho fun reg he => .writers he
  | readers op =>
    exact readerPart.outcome h.cursors (ReaderOp.outcome_run (readerPart.sound_space h) op)
      fun reg he => .readers he
  | messages op =>
    exact messagePart.outcome h.cursors
      (MessageOp.outcome_run (messagePart.sound_space h) hop hfits) fun reg he => .messages he
  | share writer view =>
    refine h.outcome_source (k := .writer writer) (by simp [Op.sources])
      (fun hk => register_of_none hk) ?_
    intro x hk
    have hmem : x.view ∈ s.held ++ others := writerPart.view_mem hk
    obtain ⟨hh, keep⟩ := View.held_clone_of_mem h.held hmem rfl (Nat.le_refl _)
    have hstep := Belongings.Step.share view (belongings_writers hk)
    exact viewPart.outcome_assign h.cursors hh keep (keep.bytes_eq hmem) (fun _ _ => rfl) hstep
  | finish writer view =>
    refine h.outcome_source (k := .writer writer) (by simp [Op.sources])
      (fun hk => register_of_none hk) ?_
    intro x hk
    obtain ⟨hh, hb⟩ := writerPart.take h hk (t := { s with writers := s.writers.erase writer }) rfl
    have hstep := Belongings.Step.finish view (belongings_writers hk)
    refine Outcome.of_take (viewPart.outcome_assign (h.cursors.erase writer) hh (.refl _ _) rfl
      (fun _ _ => rfl) ?_) rfl
    rw [hb]
    exact hstep
  | startReading view reader =>
    refine h.outcome_source (k := .view view) (by simp [Op.sources])
      (fun hk => register_of_none hk) ?_
    intro v hk
    obtain ⟨hh, hb⟩ := viewPart.take h hk (t := { s with views := s.views.erase view }) rfl
    have hstep := Belongings.Step.startReading reader (belongings_views hk)
    refine Outcome.of_take (readerPart.outcome_assign (x := .ofView v) h.cursors hh (.refl _ _) rfl
      (fun _ _ => rfl) ?_) rfl
    rw [hb]
    exact hstep
  | stopReading reader view =>
    refine h.outcome_source (k := .reader reader) (by simp [Op.sources])
      (fun hk => register_of_none hk) ?_
    intro x hk
    obtain ⟨hh, hb⟩ := readerPart.take h hk (t := { s with readers := s.readers.erase reader }) rfl
    have hstep := Belongings.Step.stopReading view (belongings_readers hk)
    refine Outcome.of_take (viewPart.outcome_assign h.cursors hh (.refl _ _) rfl
      (fun _ _ => rfl) ?_) rfl
    rw [hb]
    exact hstep
  | readMessage message reader =>
    refine h.outcome_source (k := .message message) (by simp [Op.sources])
      (fun hk => register_of_none hk) ?_
    intro x hk
    have hmem : x.payload ∈ s.held ++ others := messagePart.view_mem hk
    obtain ⟨hh, keep⟩ := View.held_clone_of_mem h.held hmem rfl (Nat.le_refl _)
    have hbytes := congrArg (fun bs => Page.mk bs 0 .standard) (keep.bytes_eq hmem)
    have hstep := Belongings.Step.readMessage reader (belongings_messages hk)
    exact readerPart.outcome_assign (x := (x.reader s.memory).1) h.cursors hh keep hbytes
      (fun _ _ => rfl) hstep
  | payload message view =>
    refine h.outcome_source (k := .message message) (by simp [Op.sources])
      (fun hk => register_of_none hk) ?_
    intro x hk
    have hmem : x.payload ∈ s.held ++ others := messagePart.view_mem hk
    obtain ⟨hh, keep⟩ := View.held_clone_of_mem h.held hmem rfl (Nat.le_refl _)
    have hstep := Belongings.Step.payload view (belongings_messages hk)
    exact viewPart.outcome_assign h.cursors hh keep (keep.bytes_eq hmem) (fun _ _ => rfl) hstep
  | wire message view =>
    refine h.outcome_source (k := .message message) (by simp [Op.sources])
      (fun hk => register_of_none hk) ?_
    intro x hk
    obtain ⟨hh, keep⟩ := View.held_ofBytes h.held (x.wire s.memory)
    have hstep := Belongings.Step.wire view (belongings_messages hk)
    exact viewPart.outcome_assign h.cursors hh keep (View.bytes_ofBytes h.held _)
      (fun _ _ => rfl) hstep
  | wrap view message tag =>
    refine h.outcome_source (k := .view view) (by simp [Op.sources])
      (fun hk => register_of_none hk) ?_
    intro v hk
    obtain ⟨hh, hb⟩ := viewPart.take h hk (t := { s with views := s.views.erase view }) rfl
    have hstep := Belongings.Step.wrap message tag (belongings_views hk)
    refine Outcome.of_take (messagePart.outcome_assign (x := .ofPayload tag v) h.cursors hh
      (.refl _ _) rfl (fun _ _ => rfl) ?_) rfl
    rw [hb]
    exact hstep
  | receive view message readOnly =>
    refine h.outcome_source (k := .view view) (by simp [Op.sources])
      (fun hk => register_of_none hk) ?_
    intro v hk
    have hv := belongings_views hk
    have hmem : v ∈ s.held ++ others := viewPart.view_mem hk
    cases hl : Letter.ofWire (v.bytes s.memory) readOnly with
    | error t =>
      rw [Message.ofWire_of_error hl]
      exact ⟨h, .refl others s.memory, .receive hv (.truncated hl)⟩
    | ok l =>
      obtain ⟨x, heq, hh, keep, hx⟩ := Message.held_ofWire h.held hmem hl
      rw [heq]
      exact messagePart.outcome_assign h.cursors hh keep hx (fun _ _ => rfl)
        (.receive hv (.done hl))
  | ofWriter writer message tag =>
    refine h.outcome_source (k := .writer writer) (by simp [Op.sources])
      (fun hk => register_of_none hk) ?_
    intro x hk
    have hmem : x.view ∈ s.held ++ others := writerPart.view_mem hk
    obtain ⟨hh, keep⟩ := View.held_clone_of_mem h.held hmem rfl (Nat.le_refl _)
    have hbytes := congrArg (Letter.mk ⟨0, tag, 0⟩ false) (keep.bytes_eq hmem)
    have hstep := Belongings.Step.ofWriter message tag (belongings_writers hk)
    exact messagePart.outcome_assign (x := .ofPayload tag x.view) h.cursors hh keep hbytes
      (fun _ _ => rfl) hstep
  | setWriter message writer =>
    refine h.outcome_source (k := .message message) (by simp [Op.sources])
      (fun hk => register_of_none hk) ?_
    intro x hk
    refine h.outcome_source (k := .writer writer) (by simp [Op.sources])
      (fun hk => register_of_none hk) ?_
    intro y hk'
    have hx := belongings_messages hk
    have hy := belongings_writers hk'
    have hmem : y.view ∈ s.held ++ others := writerPart.view_mem hk'
    obtain ⟨hh, keep⟩ := View.held_clone_of_mem h.held hmem rfl (Nat.le_refl _)
    have hbytes : y.view.bytes (y.share s.memory).2 = y.view.bytes s.memory := keep.bytes_eq hmem
    have hmake := (messagePart.heldBy_iff [y.view]).1 hh
    have hkeeps := messagePart.keeps_iff.1 keep
    have ho := MessageOp.outcome_replace
      (E := fun reply reg => s.belongings.Step (.setWriter message writer) (.ofMessage reply)
        { s.belongings with messages := reg })
      (messagePart.sound_space h) hk y.share hmake hkeeps
      (fun hr => .setWriterReadOnly hx hr hy) fun hw => ?_
    · exact messagePart.outcome h.cursors ho fun reg he => he
    · have hstep := Belongings.Step.setWriter hx hw hy
      rw [← hbytes] at hstep
      exact hstep

/-- **Without memory** for an operation, nothing is done. -/
theorem Sound.outcome_of_not_fits (h : s.Sound others) (hfits : ¬ s.Fits op) :
    Outcome others s (fun a b => a.IsRefusal ∧ b = s.belongings) (s.perform op) := by
  have hmiss : (.plain (.refused .outOfRange) : Answer).IsRefusal := .inl rfl
  cases op with
  | views op =>
    have heq : op.attempt s.viewSpace = s.viewSpace.miss := if_neg hfits
    have ho :=
      (viewPart.sound_space h).outcome_miss (E := fun _ reg => reg = s.belongings.views) rfl
    simp only [perform, heq]
    exact viewPart.outcome h.cursors ho fun reg he => ⟨hmiss, by rw [he]; rfl⟩
  | overwrite view p bs =>
    have hroom : ¬ ((ViewOp.own view).demand s.viewSpace).all s.memory.canCreate = true := hfits
    have ho :=
      (viewPart.sound_space h).outcome_miss (E := fun _ reg => reg = s.belongings.views) rfl
    simp only [perform]
    rw [if_neg hroom]
    exact viewPart.outcome h.cursors ho fun reg he => ⟨hmiss, by rw [he]; rfl⟩
  | writers op =>
    have heq := WriterOp.run_of_not_fits (w := s.writerSpace) hfits
    have ho :=
      (writerPart.sound_space h).outcome_miss (E := fun _ reg => reg = s.belongings.writers) rfl
    simp only [perform, heq]
    exact writerPart.outcome h.cursors ho fun reg he => ⟨hmiss, by rw [he]; rfl⟩
  | messages op =>
    have ho := MessageOp.outcome_of_not_fits (messagePart.sound_space h) hfits
    refine messagePart.outcome h.cursors ho fun reg he => ⟨?_, by rw [he.2]; rfl⟩
    rw [he.1]
    exact .inr rfl
  | _ => exact absurd rfl hfits

end Commons

end Tandem
