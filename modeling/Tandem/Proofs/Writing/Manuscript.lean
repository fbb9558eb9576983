import Tandem.Message.Operation
import Tandem.Proofs.Writing.Refinement

/-!
# What manuscripts yield

A manuscript is written by a draft of its own, which is let go of afterwards.  What it yields and
why it is refused is told by files (`Manuscript.Yields`, `Manuscript.Refuses`); the draft only
decides in which array the bytes are (`Draft.Sound.performAll`).  A view of what was written
outlives the draft.
-/

namespace Tandem

open Memory (HeldBy Keeps)

namespace Manuscript

/-- A file has these bytes after all steps of a manuscript. -/
def Yields (s : Manuscript) (bs : Bytes) : Prop :=
  ∃ (ops : List (WriteOp × Reply)) (f : File),
    ops.map Prod.fst = s.ops ∧ File.Run s.encoding ops f ∧ f.content = bs

/-- A file refuses a step of a manuscript, with the ones before it carried out. -/
def Refuses (s : Manuscript) (e : Misuse) : Prop :=
  ∃ (ops : List (WriteOp × Reply)) (op : WriteOp) (rest : List WriteOp) (f f' : File),
    s.ops = ops.map Prod.fst ++ op :: rest ∧ File.Run s.encoding ops f ∧
      f.Performs op (.refused e) f'

/-- The values of application types in a manuscript are written by operations on the writer. -/
def Scripted (s : Manuscript) : Prop := ∀ op ∈ s.ops, op.Scripted

/-- A value of an application type and nothing else. -/
def ofRecord {α : Type} [Serializable α] (a : α) : Manuscript :=
  ⟨Writer.standardRoom, .standard, [.record a]⟩

end Manuscript

namespace Draft

variable {others : List View} {d : Draft} {e : Encoding} {done : List (WriteOp × Reply)}
  {ops : List WriteOp} {m : Memory}

theorem performAll_cons_of_refused {op : WriteOp} {err : Misuse}
    (hr : (d.perform op).1 = .refused err) : d.performAll (op :: ops) = (.error err, d) := by
  have hd := perform_refused hr
  rw [performAll]
  split
  · next e' d' heq =>
    rw [heq] at hr hd
    cases hr
    rw [← hd]
  · next hne heq =>
    rw [heq] at hr
    exact (hne err hr).elim

theorem performAll_cons_of_done {op : WriteOp} (hr : ∀ err, (d.perform op).1 ≠ .refused err) :
    d.performAll (op :: ops) = (d.perform op).2.performAll ops := by
  rw [performAll]
  split
  · next err d' heq => exact (hr err (congrArg Prod.fst heq)).elim
  · next heq => rw [heq]

/-- **Operations one after the other** are carried out on a file too, up to one that it refuses. -/
theorem Sound.performAll (h : d.Sound others) (hrun : File.Run e done d.file)
    (hops : ∀ op ∈ ops, op.Scripted) :
    Becomes others d (d.performAll ops).2 ∧
      (((d.performAll ops).1 = .ok () ∧ ∃ more : List (WriteOp × Reply),
          more.map Prod.fst = ops ∧ File.Run e (done ++ more) (d.performAll ops).2.file) ∨
        ∃ (err : Misuse) (more : List (WriteOp × Reply)) (op : WriteOp) (rest : List WriteOp)
          (f : File), (d.performAll ops).1 = .error err ∧ ops = more.map Prod.fst ++ op :: rest ∧
            File.Run e (done ++ more) (d.performAll ops).2.file ∧
            (d.performAll ops).2.file.Performs op (.refused err) f) := by
  induction ops generalizing d done with
  | nil =>
    refine ⟨.refl h, .inl ⟨rfl, [], rfl, ?_⟩⟩
    rw [List.append_nil]
    exact hrun
  | cons op ops ih =>
    obtain ⟨hb, hp⟩ := h.perform (hops op List.mem_cons_self)
    by_cases hr : ∃ err, (d.perform op).1 = .refused err
    · obtain ⟨err, hr⟩ := hr
      rw [performAll_cons_of_refused hr]
      refine ⟨.refl h, .inr ⟨err, [], op, ops, (d.perform op).2.file, rfl, rfl, ?_, ?_⟩⟩
      · rw [List.append_nil]
        exact hrun
      · rw [← hr]
        exact hp
    · rw [performAll_cons_of_done fun err heq => hr ⟨err, heq⟩]
      have hrun' := File.Run.perform hrun hp
      obtain ⟨hb', hcases⟩ := ih hb.sound hrun' fun op' hm => hops op' (List.mem_cons_of_mem op hm)
      refine ⟨hb.trans hb', ?_⟩
      rcases hcases with ⟨hok, more, hmap, hf⟩ | ⟨err, more, op', rest, f, herr, hsplit, hf, hp'⟩
      · refine .inl ⟨hok, (op, (d.perform op).1) :: more, by rw [List.map_cons, hmap], ?_⟩
        rw [List.append_assoc] at hf
        exact hf
      · refine .inr ⟨err, (op, (d.perform op).1) :: more, op', rest, f, herr, ?_, ?_, hp'⟩
        · rw [hsplit, List.map_cons, List.cons_append]
        · rw [List.append_assoc] at hf
          exact hf

/-! ### Letting go of a draft -/

theorem held_drop_shared {shared : List (Option View)}
    (h : m.HeldBy (shared.filterMap id ++ others)) :
    (shared.foldl (fun m v => v.elim m (·.drop m)) m).HeldBy others ∧
      Keeps others m (shared.foldl (fun m v => v.elim m (·.drop m)) m) := by
  induction shared generalizing m with
  | nil => exact ⟨h, .refl others m⟩
  | cons v shared ih =>
    cases v with
    | none => exact ih h
    | some v =>
      obtain ⟨hh, keep⟩ := View.held_drop (v := v) h
      obtain ⟨hh', keep'⟩ := ih hh
      exact ⟨hh', (keep.mono (List.subset_append_right _ _)).trans keep'⟩

theorem drop_eq (d : Draft) :
    d.drop = d.shared.foldl (fun m v => v.elim m (·.drop m)) (d.writer.drop d.memory) := by
  unfold drop
  congr 1
  funext m v
  cases v with
  | none => rfl
  | some v => rfl

/-- **Letting go** of a draft. -/
theorem held_drop (h : d.Sound others) : d.drop.HeldBy others ∧ Keeps others d.memory d.drop := by
  rw [drop_eq]
  obtain ⟨hh, keep⟩ := View.held_drop h.held
  obtain ⟨hh', keep'⟩ := held_drop_shared hh
  exact ⟨hh', (keep.mono (List.subset_append_right _ _)).trans keep'⟩

theorem sound_share (h : d.Sound others) :
    Sound (d.writer.view :: others) { d with memory := (d.writer.share d.memory).2 } ∧
      Keeps (d.writer.view :: (d.handed ++ others)) d.memory (d.writer.share d.memory).2 := by
  obtain ⟨hh, keep⟩ := View.held_clone h.held rfl (Nat.le_refl _)
  refine ⟨⟨?_, h.position_le⟩, keep⟩
  exact hh.perm (List.Perm.cons _ List.perm_middle.symm)

theorem sound_drop_other {v : View} (h : d.Sound (v :: others)) :
    Sound others { d with memory := v.drop d.memory } ∧
      Keeps (d.writer.view :: (d.handed ++ others)) d.memory (v.drop d.memory) := by
  have hperm : (d.writer.view :: (d.handed ++ v :: others)).Perm
      (v :: d.writer.view :: (d.handed ++ others)) :=
    (List.Perm.cons _ List.perm_middle).trans (.swap _ _ _)
  obtain ⟨hh, keep⟩ := View.held_drop (h.held.perm hperm)
  exact ⟨⟨hh, h.position_le⟩, keep⟩

/-- **What was written** outlives the draft. -/
theorem held_share_drop (h : d.Sound others) :
    ({ d with memory := (d.writer.share d.memory).2 } : Draft).drop.HeldBy
        (d.writer.view :: others) ∧
      Keeps others d.memory ({ d with memory := (d.writer.share d.memory).2 } : Draft).drop ∧
      d.writer.view.bytes ({ d with memory := (d.writer.share d.memory).2 } : Draft).drop =
        d.writer.bytes d.memory := by
  obtain ⟨hs, keep⟩ := sound_share h
  obtain ⟨hh, keep'⟩ := held_drop hs
  refine ⟨hh, ?_, ?_⟩
  · have hsub : others ⊆ d.writer.view :: (d.handed ++ others) :=
      fun v hv => List.mem_cons_of_mem _ (List.mem_append_right _ hv)
    exact (keep.mono hsub).trans keep'.of_cons
  · exact (keep'.bytes_eq List.mem_cons_self).trans (keep.bytes_eq List.mem_cons_self)

end Draft

theorem Message.held_recordPayload {α : Type} [Serializable α] (hα : Serializable.Scripted α)
    (a : α) {m : Memory} {others : List View} (h : m.HeldBy others) :
    (recordPayload a m).2.HeldBy ((recordPayload a m).1 :: others) ∧
      Keeps others m (recordPayload a m).2 ∧
      (Manuscript.ofRecord a).Yields ((recordPayload a m).1.bytes (recordPayload a m).2) := by
  obtain ⟨hs, keep⟩ := Writer.sound_create h Writer.standardRoom .standard
  have hd : Draft.Sound others (.start Writer.standardRoom .standard m) := hs
  have hop : WriteOp.Scripted (.record a) := hα
  obtain ⟨hb, hp⟩ := hd.perform hop
  have hrun := File.Run.perform (e := .standard) .start (Draft.file_start _ _ m ▸ hp)
  refine ⟨hb.sound.held, keep.trans hb.keeps, ?_⟩
  exact ⟨_, _, rfl, hrun, rfl⟩

end Tandem
