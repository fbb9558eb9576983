import Tandem.Proofs.Writing.File
import Tandem.Proofs.Writing.Writer

/-!
# A draft does what is done to a file

`Draft.file` is the file that a draft is about.  Every operation on a draft does to it what
`File.Performs` says (`Draft.Sound.perform`): each comes down to bytes that the writer writes at its
cursor, or to a view that is handed out or let go of.  For a value of an application type this
follows from the operations that write it, by induction on them.
-/

namespace Tandem

open Memory (HeldBy Keeps)

/-! ### Application types -/

/-- Operations other than writing a value of an application type. -/
def WriteOp.Plain : WriteOp → Prop
  | @WriteOp.record _ _ _ | @WriteOp.records _ _ _ => False
  | _ => True

/-- The values of a type are written by operations on the writer.  No view of what was written is
kept. -/
def Serializable.Scripted (α : Type) [Serializable α] : Prop :=
  ∀ (a : α) (w : Writer) (m : Memory), ∃ ops views,
    (∀ op ∈ ops, WriteOp.Plain op) ∧ (∀ v ∈ views, v = none) ∧
      Draft.performAll ⟨w, m, []⟩ ops =
        (.ok (), ⟨(Serializable.serialize a w m).1, (Serializable.serialize a w m).2, views⟩)

/-- If it writes a value of an application type, the type is written by operations. -/
def WriteOp.Scripted : WriteOp → Prop
  | @WriteOp.record α _ _ => Serializable.Scripted α
  | @WriteOp.records α _ _ => Serializable.Scripted α
  | _ => True

namespace Draft

/-- The views that were handed out and not let go of. -/
def handed (d : Draft) : List View := d.shared.filterMap id

/-- What a draft is about. -/
def file (d : Draft) : File where
  content := d.writer.bytes d.memory
  position := d.writer.position
  encoding := d.writer.encoding
  shared := d.shared.map fun v => v.map (View.bytes · d.memory)

/-- The views of a draft and the others are held, and the cursor is not behind the end. -/
def Sound (others : List View) (d : Draft) : Prop :=
  d.writer.Sound (d.handed ++ others) d.memory

/-- `d'` is what became of `d`. -/
structure Becomes (others : List View) (d d' : Draft) : Prop where
  sound : d'.Sound others
  keeps : Keeps others d.memory d'.memory
  le_capacity : d.writer.capacity d.memory ≤ d'.writer.capacity d'.memory

variable {others others' : List View} {d d' d'' : Draft} {m m' : Memory} {w w' : Writer}
  {bs : Bytes} {v : View} {i : Nat}

theorem Becomes.refl (h : d.Sound others) : Becomes others d d :=
  ⟨h, .refl others d.memory, Nat.le_refl _⟩

theorem Becomes.trans (h : Becomes others d d') (h' : Becomes others d' d'') :
    Becomes others d d'' :=
  ⟨h'.sound, h.keeps.trans h'.keeps, Nat.le_trans h.le_capacity h'.le_capacity⟩

/-! ### The views that were handed out -/

theorem handed_eq_nil (h : ∀ v ∈ d.shared, v = none) : d.handed = [] := by
  rw [handed, List.filterMap_eq_nil_iff]
  exact h

theorem shared_eq_of_keeps {shared : List (Option View)} (hk : Keeps (shared.filterMap id) m m') :
    (shared.map fun v => v.map (View.bytes · m')) =
      shared.map fun v => v.map (View.bytes · m) := by
  apply List.map_congr_left
  intro v hv
  cases v with
  | none => rfl
  | some v =>
    have hmem : v ∈ shared.filterMap id := by simpa using hv
    simp only [Option.map_some, hk.bytes_eq hmem]

theorem handed_perm_of_view {shared : List (Option View)} (h : shared.getD i none = some v) :
    (shared.filterMap id).Perm (v :: (shared.set i none).filterMap id) := by
  induction shared generalizing i with
  | nil => simp at h
  | cons u shared ih =>
    cases i with
    | zero =>
      obtain rfl : u = some v := by simpa using h
      simp
    | succ i =>
      have hperm := ih (i := i) (by simpa using h)
      cases u with
      | none => simpa using hperm
      | some u =>
        simp only [List.set_cons_succ, List.filterMap_cons, id]
        exact (hperm.cons u).trans (.swap _ _ _)

theorem view?_file (d : Draft) (i : Nat) :
    d.file.view? i = (d.view? i).map (View.bytes · d.memory) := by
  simp only [File.view?, file, view?, List.getD_eq_getElem?_getD, List.getElem?_map]
  cases d.shared[i]? <;> rfl

/-! ### Steps -/

theorem becomes_resume (h : d.Sound others) {r : Writer × Memory}
    (hw : Writer.Wrote (d.handed ++ others) d.writer d.memory bs r.1 r.2) :
    Becomes others d (d.resume r) ∧ (d.resume r).file = d.file.write bs := by
  refine ⟨⟨hw.sound h, ?_, hw.le_capacity⟩, ?_⟩
  · exact hw.keeps.mono (List.subset_append_right _ _)
  · have hk := hw.keeps.mono (List.subset_append_left d.handed others)
    simp only [file, File.write, resume, hw.bytes_eq, hw.position_eq, hw.encoding_eq,
      shared_eq_of_keeps hk]

/-- **Handing out** a view of what was written. -/
theorem becomes_share (h : d.Sound others) :
    Becomes others d (d.perform .share).2 ∧
      (d.perform .share).2.file =
        { d.file with shared := d.file.shared ++ [some d.file.content] } := by
  obtain ⟨hh, hk⟩ := View.held_clone h.held rfl (Nat.le_refl _)
  have hself := List.mem_cons_self (a := d.writer.view) (l := d.handed ++ others)
  have hhanded : (d.perform .share).2.handed = d.handed ++ [d.writer.view] := by
    simp [handed, perform, Writer.share]
  refine ⟨⟨⟨?_, h.position_le⟩, ?_, ?_⟩, ?_⟩
  · rw [hhanded, List.append_assoc]
    refine hh.perm (.cons _ ?_)
    exact List.perm_middle.symm
  · exact hk.mono fun v hv => List.mem_cons_of_mem _ (List.mem_append_right _ hv)
  · exact Nat.le_of_eq (hk.capacity_eq hself).symm
  · have hb := hk.bytes_eq hself
    have hs := shared_eq_of_keeps (hk.mono fun v hv =>
      List.mem_cons_of_mem d.writer.view (List.mem_append_left others hv))
    simp only [file, perform, Writer.share, Writer.bytes, List.map_append, List.map_cons,
      List.map_nil, Option.map_some, hb, hs]

/-- **Letting go** of a view that was handed out. -/
theorem becomes_unshare (h : d.Sound others) (hv : d.view? i = some v) :
    Becomes others d ⟨d.writer, v.drop d.memory, d.shared.set i none⟩ ∧
      file ⟨d.writer, v.drop d.memory, d.shared.set i none⟩ =
        { d.file with shared := d.file.shared.set i none } := by
  have hperm := handed_perm_of_view hv
  have hheld : d.memory.HeldBy
      (v :: d.writer.view :: ((d.shared.set i none).filterMap id ++ others)) := by
    refine h.held.perm ((List.Perm.cons _ ?_).trans (.swap _ _ _))
    exact hperm.append_right others
  obtain ⟨hh, hk⟩ := View.held_drop hheld
  have hself := List.mem_cons_self (a := d.writer.view)
    (l := (d.shared.set i none).filterMap id ++ others)
  refine ⟨⟨⟨hh, h.position_le⟩, ?_, ?_⟩, ?_⟩
  · exact hk.mono fun v hv => List.mem_cons_of_mem _ (List.mem_append_right _ hv)
  · exact Nat.le_of_eq (hk.capacity_eq hself).symm
  · have hb := hk.bytes_eq hself
    have hs := shared_eq_of_keeps (hk.mono fun v hv =>
      List.mem_cons_of_mem d.writer.view (List.mem_append_left others hv))
    simp only [file, Writer.bytes, hb, hs, List.map_set, Option.map_none]

/-- **An operation** that writes no value of an application type. -/
theorem Sound.step (h : d.Sound others) {op : WriteOp} (hop : op.Plain) :
    Becomes others d (d.perform op).2 ∧
      File.Step d.file op (d.perform op).1 (d.perform op).2.file := by
  have hlen : d.file.content.length = d.writer.length := h.length_bytes
  cases op with
  | value k v =>
    obtain ⟨hb, hf⟩ := becomes_resume h (Writer.wrote_write h k v)
    refine ⟨hb, ?_⟩
    simp only [perform]
    rw [hf]
    exact .value d.file k v
  | record a => exact hop.elim
  | records as => exact hop.elim
  | put bs =>
    obtain ⟨hb, hf⟩ := becomes_resume h (Writer.wrote_put h bs)
    refine ⟨hb, ?_⟩
    simp only [perform]
    rw [hf]
    exact .put d.file bs
  | fill b n =>
    simp only [perform]
    split_ifs with hn
    · obtain ⟨hb, hf⟩ := becomes_resume h (Writer.wrote_put h (List.replicate n b))
      refine ⟨hb, ?_⟩
      rw [hf]
      exact .fill b hn
    · exact ⟨.refl h, .fillBeyond b (Nat.lt_of_not_le hn)⟩
  | reserve n =>
    simp only [perform]
    split_ifs with hn
    · obtain ⟨hb, hf⟩ := becomes_resume h (Writer.wrote_reserve h n)
      refine ⟨hb, ?_⟩
      rw [hf]
      exact .reserve hn
    · exact ⟨.refl h, .reserveBeyond (Nat.lt_of_not_le hn)⟩
  | setPosition p =>
    simp only [perform, Writer.setPosition]
    split_ifs with hp
    · refine ⟨⟨⟨h.held, hp⟩, .refl _ _, Nat.le_refl _⟩, .setPosition ?_⟩
      rw [hlen]
      exact hp
    · have hlt : d.file.content.length < p := by omega
      have hstep := File.Step.setPositionBeyond hlt
      rw [hlen] at hstep
      exact ⟨.refl h, hstep⟩
  | setEncoding e =>
    exact ⟨⟨⟨h.held, h.position_le⟩, .refl _ _, Nat.le_refl _⟩, .setEncoding d.file e⟩
  | share =>
    obtain ⟨hb, hf⟩ := becomes_share h
    refine ⟨hb, ?_⟩
    rw [hf]
    exact .share d.file _
  | unshare i =>
    have hview := view?_file d i
    simp only [perform]
    cases hv : d.view? i with
    | none =>
      rw [hv] at hview
      exact ⟨.refl h, .unshareNone hview⟩
    | some v =>
      rw [hv] at hview
      obtain ⟨hb, hf⟩ := becomes_unshare h hv
      refine ⟨hb, ?_⟩
      rw [hf]
      exact .unshare hview
  | look i =>
    have hview := view?_file d i
    simp only [perform]
    cases hv : d.view? i with
    | none =>
      rw [hv] at hview
      exact ⟨.refl h, .lookNone hview⟩
    | some v =>
      rw [hv] at hview
      exact ⟨.refl h, .look _ hview⟩

theorem perform_refused {op : WriteOp} {e : Misuse} (hr : (d.perform op).1 = .refused e) :
    (d.perform op).2 = d := by
  revert hr
  cases op with
  | value k v => intro hr; cases hr
  | record a => intro hr; cases hr
  | records as => intro hr; cases hr
  | put bs => intro hr; cases hr
  | fill b n =>
    simp only [perform]
    split_ifs with hn
    · intro hr; cases hr
    · exact fun _ => rfl
  | reserve n =>
    simp only [perform]
    split_ifs with hn
    · intro hr; cases hr
    · exact fun _ => rfl
  | setPosition p =>
    simp only [perform]
    split
    · intro hr; cases hr
    · exact fun _ => rfl
  | setEncoding e => intro hr; cases hr
  | share => intro hr; cases hr
  | unshare i =>
    simp only [perform]
    split
    · intro hr; cases hr
    · exact fun _ => rfl
  | look i =>
    simp only [perform]
    split
    · exact fun _ => rfl
    · exact fun _ => rfl

theorem performAll_cons_eq_ok {op : WriteOp} {ops : List WriteOp}
    (h : d.performAll (op :: ops) = (.ok (), d')) :
    (∀ e, (d.perform op).1 ≠ .refused e) ∧ (d.perform op).2.performAll ops = (.ok (), d') := by
  rw [performAll] at h
  split at h
  · cases h
  · next hne heq =>
    rw [heq]
    exact ⟨fun e he => hne e he, h⟩

theorem Sound.steps (h : d.Sound others) {ops : List WriteOp} (hops : ∀ op ∈ ops, op.Plain)
    (hall : d.performAll ops = (.ok (), d')) : Becomes others d d' ∧ File.Steps d.file d'.file := by
  induction ops generalizing d with
  | nil =>
    cases hall
    exact ⟨.refl h, .refl _⟩
  | cons op ops ih =>
    obtain ⟨hb, hf⟩ := h.step (hops op List.mem_cons_self)
    obtain ⟨hr, hall⟩ := performAll_cons_eq_ok hall
    obtain ⟨hb', hs⟩ := ih hb.sound (fun op' hm => hops op' (List.mem_cons_of_mem op hm)) hall
    exact ⟨hb.trans hb', .step hf hr hs⟩

/-! ### Values of application types -/

section Records

variable {α : Type} [Serializable α]

/-- **Writing a value** of an application type, by a writer that nothing was handed out of. -/
theorem becomes_serialize (hα : Serializable.Scripted α) (a : α)
    (h : Sound others ⟨w, m, []⟩) :
    Becomes others ⟨w, m, []⟩
        ⟨(Serializable.serialize a w m).1, (Serializable.serialize a w m).2, []⟩ ∧
      File.Steps (file ⟨w, m, []⟩)
        (file ⟨(Serializable.serialize a w m).1, (Serializable.serialize a w m).2, []⟩) := by
  obtain ⟨ops, views, hops, hnone, hall⟩ := hα a w m
  obtain ⟨hb, hs⟩ := h.steps hops hall
  refine ⟨⟨?_, hb.keeps, hb.le_capacity⟩, hs.trans (.forget ?_ (.refl _))⟩
  · have hsound := hb.sound
    unfold Sound at hsound ⊢
    rwa [handed_eq_nil hnone] at hsound
  · intro v hv
    obtain ⟨u, hu, rfl⟩ := List.mem_map.1 hv
    rw [hnone u hu]
    rfl

theorem becomes_writeEach (hα : Serializable.Scripted α) (as : List α)
    (h : Sound others ⟨w, m, []⟩) :
    Becomes others ⟨w, m, []⟩ ⟨(w.writeEach as m).1, (w.writeEach as m).2, []⟩ ∧
      File.Steps (file ⟨w, m, []⟩) (file ⟨(w.writeEach as m).1, (w.writeEach as m).2, []⟩) := by
  induction as generalizing w m with
  | nil => exact ⟨.refl h, .refl _⟩
  | cons a as ih =>
    obtain ⟨hb, hs⟩ := becomes_serialize hα a h
    obtain ⟨hb', hs'⟩ := ih hb.sound
    exact ⟨hb.trans hb', hs.trans hs'⟩

/-- **Writing an array** writes the number of its values first. -/
theorem becomes_writeRecords (hα : Serializable.Scripted α) (as : List α)
    (h : Sound others ⟨w, m, []⟩) :
    Becomes others ⟨w, m, []⟩ ⟨(w.writeRecords as m).1, (w.writeRecords as m).2, []⟩ ∧
      File.Steps ((file ⟨w, m, []⟩).write (Kind.count as.length))
        (file ⟨(w.writeRecords as m).1, (w.writeRecords as m).2, []⟩) := by
  obtain ⟨hb, hf⟩ := becomes_resume h (Writer.wrote_append h (Kind.count as.length))
  obtain ⟨hb', hs⟩ := becomes_writeEach hα as hb.sound
  rw [← hf, Writer.writeRecords_eq]
  exact ⟨hb.trans hb', hs⟩

end Records

theorem Becomes.resume {r : Writer × Memory}
    (hb : Becomes (d.handed ++ others) ⟨d.writer, d.memory, []⟩ ⟨r.1, r.2, []⟩) :
    Becomes others d (d.resume r) ∧ (d.resume r).file.shared = d.file.shared ∧
      { (d.resume r).file with shared := [] } = file ⟨r.1, r.2, []⟩ := by
  have hk : Keeps (d.handed ++ others) d.memory r.2 := hb.keeps
  refine ⟨⟨hb.sound, hk.mono (List.subset_append_right _ _), hb.le_capacity⟩, ?_, rfl⟩
  have hs : Keeps (d.shared.filterMap id) d.memory r.2 :=
    hk.mono (List.subset_append_left d.handed others)
  exact shared_eq_of_keeps hs

/-- **Any operation.** -/
theorem Sound.perform (h : d.Sound others) {op : WriteOp} (hop : op.Scripted) :
    Becomes others d (d.perform op).2 ∧
      d.file.Performs op (d.perform op).1 (d.perform op).2.file := by
  have hsolo : Sound (d.handed ++ others) ⟨d.writer, d.memory, []⟩ := h
  have hplain : op.Plain → Becomes others d (d.perform op).2 ∧
      d.file.Performs op (d.perform op).1 (d.perform op).2.file := by
    intro hp
    obtain ⟨hb, hs⟩ := h.step hp
    exact ⟨hb, .step hs⟩
  cases op with
  | record a =>
    obtain ⟨hb, hs⟩ := becomes_serialize hop a hsolo
    obtain ⟨hb', hshared, hfile⟩ := Becomes.resume (r := Serializable.serialize a _ _) hb
    rw [← hfile] at hs
    exact ⟨hb', .record a hs hshared⟩
  | records as =>
    obtain ⟨hb, hs⟩ := becomes_writeRecords hop as hsolo
    obtain ⟨hb', hshared, hfile⟩ := Becomes.resume (r := d.writer.writeRecords as d.memory) hb
    rw [← hfile] at hs
    exact ⟨hb', .records as hs hshared⟩
  | _ => exact hplain trivial

end Draft

end Tandem
