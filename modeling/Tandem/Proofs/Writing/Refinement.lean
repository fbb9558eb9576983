import Tandem.Proofs.Writing.Records

/-!
# A draft refines a seekable file

Every run of a draft is a run of a file with the same replies, whatever memory it starts in,
whatever room it starts with, and whatever the rest of the program does with its own views between
two operations (`Draft.Run.refines`).
-/

namespace Tandem

open Memory (HeldBy Keeps)

namespace Draft

/-- A run of a draft, with the operations, their replies and the views of the rest of the program,
which does what it likes with them between two operations. -/
inductive Run (e : Encoding) : List (WriteOp × Reply) → List View → Draft → Prop
  | start {m : Memory} {others : List View} (h : m.HeldBy others) (room : Nat) :
      Run e [] others (.start room e m)
  | perform {ops : List (WriteOp × Reply)} {others : List View} {d : Draft}
      (h : Run e ops others d) (op : WriteOp) (hop : op.Scripted) :
      Run e (ops ++ [(op, (d.perform op).1)]) others (d.perform op).2
  | elsewhere {ops : List (WriteOp × Reply)} {others others' : List View} {d : Draft} {m' : Memory}
      (h : Run e ops others d) (hk : Keeps (d.writer.view :: d.handed) d.memory m')
      (h' : m'.HeldBy (d.writer.view :: (d.handed ++ others'))) :
      Run e ops others' { d with memory := m' }

variable {e : Encoding} {ops : List (WriteOp × Reply)} {others : List View} {d : Draft}
  {m' : Memory}

theorem file_elsewhere (hk : Keeps (d.writer.view :: d.handed) d.memory m') :
    file { d with memory := m' } = d.file := by
  have hb : d.writer.view.bytes m' = d.writer.view.bytes d.memory := hk.bytes_eq List.mem_cons_self
  simp only [file, Writer.bytes, hb, shared_eq_of_keeps hk.of_cons]

theorem file_start (room : Nat) (e : Encoding) (m : Memory) :
    (Draft.start room e m).file = .empty e := by
  have hb := Writer.bytes_create room e m
  simp only [file, start, hb]
  rfl

theorem Run.sound (h : Run e ops others d) : d.Sound others := by
  induction h with
  | start h room => exact (Writer.sound_create h room e).1
  | perform _ op hop ih => exact (ih.perform hop).1.sound
  | elsewhere _ _ h' ih => exact ⟨h', ih.position_le⟩

theorem Run.file (h : Run e ops others d) : File.Run e ops d.file := by
  induction h with
  | start h room =>
    rw [file_start]
    exact .start
  | perform h op hop ih => exact .perform ih (h.sound.perform hop).2
  | elsewhere _ hk _ ih =>
    rw [file_elsewhere hk]
    exact ih

end Draft

end Tandem
