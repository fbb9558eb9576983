import Tandem.Proofs.Sharing.Steps

/-!
# Views have values of their own

Every run of a commons is a run of belongings with the same answers, whatever the memory is that it
starts in and whatever the rest of the program does with its own views between two operations
(`Commons.Run.independent`).  The run keeps `Commons.Sound`; that no operation disturbs what it does
not aim at, and that every view lies within its array, is read off that.
-/

namespace Tandem

open Memory (HeldBy Keeps)

namespace Commons

/-- A run of a commons, with the operations, their answers and the views of the rest of the program,
which does what it likes with them between two operations. -/
inductive Run : List (Op × Answer) → List View → Commons → Prop
  | start {m : Memory} {others : List View} (h : m.HeldBy others) : Run [] others (.start m)
  | perform {done : List (Op × Answer)} {others : List View} {s : Commons} (h : Run done others s)
      (op : Op) (hop : op.Scripted) :
      Run (done ++ [(op, (s.perform op).1)]) others (s.perform op).2
  | elsewhere {done : List (Op × Answer)} {others others' : List View} {s : Commons} {m' : Memory}
      (h : Run done others s) (hk : Keeps s.held s.memory m')
      (h' : m'.HeldBy (s.held ++ others')) : Run done others' { s with memory := m' }

variable {done : List (Op × Answer)} {others : List View} {s : Commons} {m' : Memory} {v : View}

theorem belongings_elsewhere (hk : Keeps s.held s.memory m') :
    { s with memory := m' }.belongings = s.belongings := by
  obtain ⟨hv, hk⟩ := Memory.keeps_append.1 hk
  obtain ⟨hw, hk⟩ := Memory.keeps_append.1 hk
  obtain ⟨hr, hm⟩ := Memory.keeps_append.1 hk
  simp only [belongings, Belongings.mk.injEq]
  exact ⟨Workspace.register_of_keeps hv, Workspace.register_of_keeps hw,
    Workspace.register_of_keeps hr, Workspace.register_of_keeps hm⟩

theorem Sound.perform (h : s.Sound others) {op : Op} (hop : op.Scripted) :
    (s.perform op).2.Sound others ∧ Keeps others s.memory (s.perform op).2.memory := by
  by_cases hfits : s.Fits op
  · have ho := h.outcome hop hfits
    exact ⟨ho.sound, ho.keeps⟩
  · have ho := h.outcome_of_not_fits hfits
    exact ⟨ho.sound, ho.keeps⟩

theorem Run.sound (h : Run done others s) : s.Sound others := by
  induction h with
  | start h => exact ⟨h, Workspace.cursors_empty⟩
  | perform _ op hop ih => exact (ih.perform hop).1
  | elsewhere _ _ h' ih => exact ⟨h', ih.cursors⟩

theorem Run.belongings (h : Run done others s) : Belongings.Run done s.belongings := by
  induction h with
  | start h => exact .start
  | @perform _ _ s h op hop ih =>
    by_cases hfits : s.Fits op
    · exact .step ih (h.sound.outcome hop hfits).effect
    · obtain ⟨ha, hb⟩ := (h.sound.outcome_of_not_fits hfits).effect
      rw [hb]
      exact .noMemory ih op ha
  | elsewhere _ hk _ ih =>
    rw [belongings_elsewhere hk]
    exact ih

/-- A view lies within its array, and within one of its own before it is written to. -/
theorem Sound.inBounds (h : s.Sound others) (hv : v ∈ s.held) :
    v.offset + v.length ≤ (s.memory.block v.array).length ∧
      (v.own s.memory).1.offset + (v.own s.memory).1.length ≤
        ((v.own s.memory).2.block (v.own s.memory).1.array).length := by
  have hmem : v ∈ s.held ++ others := List.mem_append_left _ hv
  obtain ⟨hc, -⟩ := View.continues_own (h.held.perm (List.perm_cons_erase hmem))
  exact ⟨h.held.inBounds v hmem, hc.held.inBounds _ List.mem_cons_self⟩

theorem Sound.agreeOn (h : s.Sound others) {op : Op} (hop : op.Scripted) {k : Slot}
    (hk : k ∉ op.targets) : (s.perform op).2.belongings.AgreeOn s.belongings k := by
  by_cases hfits : s.Fits op
  · exact (h.outcome hop hfits).effect.agreeOn hk
  · rw [(h.outcome_of_not_fits hfits).effect.2]
    exact .refl _ k

theorem perform_advance_beyond {name : String} {n : Nat} (hk : s.views.get? name = some v)
    (hn : v.length < n) :
    s.perform (.views (.advance name n)) = (.plain (.refused (.advanceBeyond n v.length)), s) := by
  have hadvance : v.advance n = .error (.advanceBeyond n v.length) :=
    if_neg (Nat.not_le_of_lt hn)
  have hrun : ViewOp.attempt s.viewSpace (.advance name n) =
      (.refused (.advanceBeyond n v.length), s.viewSpace) := by
    have hspace : s.viewSpace.slots.get? name = some v := hk
    simp only [ViewOp.attempt, ViewOp.demand, ViewOp.run, Workspace.withSlot, hspace, hadvance,
      Option.all_none, if_true]
  simp only [perform, hrun]
  rfl

/-- **Views have values of their own although they share memory.**  Every run of operations on
views, writers, readers and messages is a run on byte strings, files, pages and letters that have
nothing to do with each other, with the same answers.  In every state that is reached, all views lie
within their arrays, also when they are about to be written to, and an operation does to the values
under the names what it does where nothing is shared, or nothing if there is no memory for it.  It
leaves alone what it does not aim at, and the views of the rest of the program.  Advancing a view by
more than its length is refused and changes nothing. -/
theorem Run.independent (h : Run done others s) :
    Belongings.Run done s.belongings ∧
      (∀ v ∈ s.held, v.offset + v.length ≤ (s.memory.block v.array).length ∧
        (v.own s.memory).1.offset + (v.own s.memory).1.length ≤
          ((v.own s.memory).2.block (v.own s.memory).1.array).length) ∧
      (∀ op : Op, op.Scripted →
        (s.Fits op → s.belongings.Step op (s.perform op).1 (s.perform op).2.belongings) ∧
          (¬ s.Fits op →
            (s.perform op).1.IsRefusal ∧ (s.perform op).2.belongings = s.belongings) ∧
          (∀ k ∉ op.targets, (s.perform op).2.belongings.AgreeOn s.belongings k) ∧
          ∀ v ∈ others, v.bytes (s.perform op).2.memory = v.bytes s.memory) ∧
      ∀ name v n, s.views.get? name = some v → v.length < n →
        s.perform (.views (.advance name n)) =
          (.plain (.refused (.advanceBeyond n v.length)), s) := by
  have hs := h.sound
  refine ⟨h.belongings, fun v hv => hs.inBounds hv, fun op hop => ⟨?_, ?_, ?_, ?_⟩, ?_⟩
  · intro hfits
    exact (hs.outcome hop hfits).effect
  · intro hfits
    exact (hs.outcome_of_not_fits hfits).effect
  · intro k hk
    exact hs.agreeOn hop hk
  · intro v hv
    exact (hs.perform hop).2.bytes_eq hv
  · intro name v n hk hn
    exact perform_advance_beyond hk hn

/-- A message is received in a view, and a clone of the view is advanced over the header and written
to: neither the view nor the message sees it. -/
theorem independent_advanced_clone :
    ∃ done s, Run done [] s ∧ Belongings.Run done s.belongings ∧
      s.belongings.views "all" = some [0, 0, 7, 4, 5, 6] ∧
      s.belongings.views "rest" = some [9, 5, 6] ∧
      s.belongings.messages "letter" = some ⟨⟨0, 7, 0⟩, true, [4, 5, 6]⟩ ∧
      (∀ v ∈ s.held, v.offset + v.length ≤ (s.memory.block v.array).length) ∧
      s.perform (.views (.advance "rest" 4)) =
        (.plain (.refused (.advanceBeyond 4 3)), s) := by
  have h₀ : Run [] [] (.start .initial) := .start Memory.wellFormed_initial.heldBy_nil
  have h₁ := h₀.perform (.views (.ofBytes "all" [0, 0, 7, 4, 5, 6])) trivial
  have h₂ := h₁.perform (.receive "all" "letter" true) trivial
  have h₃ := h₂.perform (.views (.clone "rest" "all")) trivial
  have h₄ := h₃.perform (.views (.advance "rest" 3)) trivial
  have h₅ := h₄.perform (.views (.set "rest" 0 9)) trivial
  obtain ⟨hrun, hbounds, -, hbeyond⟩ := h₅.independent
  refine ⟨_, _, h₅, hrun, by decide, by decide, by decide, fun v hv => (hbounds v hv).1, ?_⟩
  exact hbeyond "rest" ⟨1, 0, 3⟩ 4 (by decide) (by decide)

end Commons

end Tandem
