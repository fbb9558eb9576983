import Tandem.Records
import Tandem.Proofs.Writing.Records
import Tandem.Proofs.Writing.Manuscript
import Tandem.Proofs.Recycling.Writing

/-!
# What drafts and application types write does not depend on where

Operations on a draft give the same replies in twins, the handle counts of what was handed out
included, and leave the same draft (`Draft.Same.step`).

An application type writes a value through the writer that it is given.  A `Composition` is what it
does with it: it performs operations, one after the other, looks at their replies and at all that
can be seen of the writer, and goes on as it likes.  A type whose values are written in this way
cannot tell twins apart (`Composition.same_write`), and this is the only thing that is asked of it.
-/

namespace Tandem

open Memory (Twins)

/-! ### Drafts -/

namespace Draft

/-- The same draft in twins. -/
structure Same (gs : List Glimpse) (d d' : Draft) : Prop where
  writer_eq : d'.writer = d.writer
  shared_eq : d'.shared = d.shared
  twins : Twins (d.writer.view.whole :: (d.handed.map View.whole ++ gs)) d.memory d'.memory
  position_le : d.writer.position ≤ d.writer.length

variable {gs : List Glimpse} {d d' : Draft} {w : Writer} {m m' : Memory}
  {shared : List (Option View)} {r r' : Writer × Memory} {op : WriteOp}

theorem Same.writer (h : Same gs ⟨w, m, shared⟩ ⟨w, m', shared⟩) :
    Writer.Same ((shared.filterMap id).map View.whole ++ gs) (w, m) (w, m') :=
  ⟨rfl, h.twins, h.position_le⟩

theorem Same.andThen {ρ : Type} {R : ρ → ρ → Prop} (h : Same gs d d') {f : Draft → ρ}
    (hf : ∀ {w m m' shared}, Same gs ⟨w, m, shared⟩ ⟨w, m', shared⟩ →
      R (f ⟨w, m, shared⟩) (f ⟨w, m', shared⟩)) : R (f d) (f d') := by
  obtain ⟨w, m, shared⟩ := d
  obtain ⟨w', m', shared'⟩ := d'
  obtain rfl : w' = w := h.writer_eq
  obtain rfl : shared' = shared := h.shared_eq
  exact hf h

/-! ### What can be seen -/

theorem Same.room_eq (h : Same gs ⟨w, m, shared⟩ ⟨w, m', shared⟩) :
    w.capacity m' = w.capacity m := h.writer.capacity_eq

theorem Same.bytes_eq (h : Same gs ⟨w, m, shared⟩ ⟨w, m', shared⟩) {v : View}
    (hv : some v ∈ shared) : v.bytes m' = v.bytes m := by
  have hmem : v ∈ shared.filterMap id := by simpa using hv
  have hwhole := List.mem_append_left gs (List.mem_map_of_mem (f := View.whole) hmem)
  exact h.twins.bytes_eq (List.mem_cons_of_mem _ hwhole)

theorem Same.file_eq (h : Same gs ⟨w, m, shared⟩ ⟨w, m', shared⟩) :
    file ⟨w, m', shared⟩ = file ⟨w, m, shared⟩ := by
  have hw : w.view.bytes m' = w.view.bytes m := h.twins.bytes_eq List.mem_cons_self
  have hs : shared.map (fun v => v.map (View.bytes · m')) =
      shared.map fun v => v.map (View.bytes · m) := by
    refine List.map_congr_left fun v hv => ?_
    cases v with
    | none => rfl
    | some v => rw [Option.map_some, Option.map_some, h.bytes_eq hv]
  simp only [file, Writer.bytes, hw, hs]

/-! ### Operations -/

/-- The same reply, and the same draft in twins. -/
def SameReply (gs : List Glimpse) (r r' : Reply × Draft) : Prop := r'.1 = r.1 ∧ Same gs r.2 r'.2

theorem Same.resume (h : Same gs ⟨w, m, shared⟩ ⟨w, m', shared⟩)
    (hr : Writer.Same ((shared.filterMap id).map View.whole ++ gs) (w, m) (w, m') →
      Writer.Same ((shared.filterMap id).map View.whole ++ gs) r r') :
    SameReply gs (.done, Draft.resume ⟨w, m, shared⟩ r) (.done, Draft.resume ⟨w, m', shared⟩ r') :=
  have hr := hr h.writer
  ⟨rfl, hr.value_eq, rfl, hr.twins, hr.position_le⟩

theorem Same.share (h : Same gs ⟨w, m, shared⟩ ⟨w, m', shared⟩) :
    SameReply gs (perform ⟨w, m, shared⟩ .share) (perform ⟨w, m', shared⟩ .share) := by
  have hc := h.twins.clone_self List.mem_cons_self
  refine ⟨congrArg Reply.number (hc.handles_eq w.view), rfl, rfl, ?_, h.position_le⟩
  refine hc.perm (.cons _ ?_)
  have hhanded : handed ⟨w, w.view.clone m, shared ++ [some w.view]⟩ =
      handed ⟨w, m, shared⟩ ++ [w.view] := by
    simp [handed]
  simp only [perform, Writer.share, hhanded, List.map_append, List.append_assoc, List.map_cons,
    List.map_nil]
  exact List.perm_middle.symm

theorem Same.unshare (h : Same gs ⟨w, m, shared⟩ ⟨w, m', shared⟩) (i : Nat) :
    SameReply gs (perform ⟨w, m, shared⟩ (.unshare i)) (perform ⟨w, m', shared⟩ (.unshare i)) := by
  simp only [perform, view?]
  cases hv : shared.getD i none with
  | none => exact ⟨rfl, h⟩
  | some v =>
    refine ⟨rfl, rfl, rfl, ?_, h.position_le⟩
    have hperm : (w.view.whole :: ((shared.filterMap id).map View.whole ++ gs)).Perm
        (v.whole :: w.view.whole ::
          (((shared.set i none).filterMap id).map View.whole ++ gs)) := by
      have hview := (handed_perm_of_view hv).map View.whole
      exact (List.Perm.cons _ (hview.append_right gs)).trans (.swap _ _ _)
    exact (h.twins.perm hperm).drop

/-- **An operation** that writes no value of an application type. -/
theorem Same.step (h : Same gs ⟨w, m, shared⟩ ⟨w, m', shared⟩) (hop : op.Plain) :
    SameReply gs (perform ⟨w, m, shared⟩ op) (perform ⟨w, m', shared⟩ op) := by
  cases op with
  | value k v => exact h.resume fun hw => hw.write k v
  | record a => exact hop.elim
  | records as => exact hop.elim
  | put bs => exact h.resume fun hw => hw.put bs
  | fill b n =>
    simp only [perform]
    split_ifs
    · exact h.resume fun hw => hw.put _
    · exact ⟨rfl, h⟩
  | reserve n =>
    simp only [perform]
    split_ifs
    · obtain ⟨hp, hw⟩ := h.writer.reserve n
      exact ⟨congrArg Reply.number hp, hw.value_eq, rfl, hw.twins, hw.position_le⟩
    · exact ⟨rfl, h⟩
  | setPosition p =>
    simp only [perform, Writer.setPosition]
    split_ifs with hp
    · exact ⟨rfl, rfl, rfl, h.twins, hp⟩
    · exact ⟨rfl, h⟩
  | setEncoding e => exact ⟨rfl, rfl, rfl, h.twins, h.position_le⟩
  | share => exact h.share
  | unshare i => exact h.unshare i
  | look i =>
    simp only [perform, view?]
    cases shared.getD i none with
    | none => exact ⟨rfl, h⟩
    | some v => exact ⟨congrArg Reply.number (h.twins.handles_eq v), h⟩

/-! ### Letting go -/

theorem twins_drop_shared {hs : List Glimpse}
    (h : Twins ((shared.filterMap id).map View.whole ++ hs) m m') :
    Twins hs (shared.foldl (fun m v => v.elim m (·.drop m)) m)
      (shared.foldl (fun m v => v.elim m (·.drop m)) m') := by
  induction shared generalizing m m' with
  | nil => exact h
  | cons v shared ih =>
    cases v with
    | none => exact ih h
    | some v => exact ih (Twins.drop (g := v.whole) h)

/-- **Letting go** of a draft. -/
theorem Same.drop (h : Same gs d d') : Twins gs d.drop d'.drop := by
  refine h.andThen (R := Twins gs) fun h => ?_
  rw [drop_eq, drop_eq]
  exact twins_drop_shared (Twins.drop h.twins)

/-- **What was written** outlives a draft whose view is cloned before it is let go of; `old` goes in
between. -/
theorem Same.share_drop (old : List Glimpse)
    (h : Same (old ++ gs) ⟨w, m, shared⟩ ⟨w, m', shared⟩) (go : Memory → Memory)
    (hgo : ∀ {hs m m'}, Twins (old ++ hs) m m' → Twins hs (go m) (go m')) :
    Twins (w.view.whole :: gs) (Draft.drop ⟨w, go (w.view.clone m), shared⟩)
      (Draft.drop ⟨w, go (w.view.clone m'), shared⟩) := by
  have hclone := h.twins.clone_self List.mem_cons_self
  have hperm : (w.view.whole :: w.view.whole ::
      ((shared.filterMap id).map View.whole ++ (old ++ gs))).Perm
        (old ++ (w.view.whole ::
          ((shared.filterMap id).map View.whole ++ w.view.whole :: gs))) := by
    refine (List.Perm.cons _ (.cons _ (List.perm_append_comm_assoc _ _ _))).trans ?_
    refine (List.Perm.cons _ List.perm_middle.symm).trans (List.perm_middle.symm.trans ?_)
    exact .append_left _ (.cons _ List.perm_middle.symm)
  have hsame : Same (w.view.whole :: gs) ⟨w, go (w.view.clone m), shared⟩
      ⟨w, go (w.view.clone m'), shared⟩ :=
    ⟨rfl, rfl, hgo (hclone.perm hperm), h.position_le⟩
  exact hsame.drop

end Draft

/-! ### Application types -/

/-- What a function does with a writer. -/
inductive Composition : Type 1 where
  | done
  /-- performs an operation, and goes on as its reply tells it -/
  | perform (op : WriteOp) (hop : op.Plain) (next : Reply → Composition)
  /-- looks at what was written, the views of it that it was handed out included, and at the room
  that there is -/
  | look (next : File → Nat → Composition)
  /-- lets another function write, such as that of another application type -/
  | call (inner next : Composition)

/-- A writer without the views that were handed out, which are let go of. -/
def Draft.alone (d : Draft) : Writer × Memory :=
  (d.writer, d.shared.foldl (fun m v => v.elim m (·.drop m)) d.memory)

namespace Composition

/-- What a composition makes of a draft. -/
def run : Composition → Draft → Draft
  | done, d => d
  | perform op _ next, d => (next (d.perform op).1).run (d.perform op).2
  | look next, d => (next d.file (d.writer.capacity d.memory)).run d
  | call inner next, d => next.run (d.resume (inner.run ⟨d.writer, d.memory, []⟩).alone)

/-- What a composition makes of a writer. -/
def write (c : Composition) (w : Writer) (m : Memory) : Writer × Memory :=
  (c.run ⟨w, m, []⟩).alone

end Composition

/-- What is done to a writer by some composition. -/
def Writer.Composed (f : Writer → Memory → Writer × Memory) : Prop :=
  ∃ c : Composition, ∀ w m, f w m = c.write w m

/-- Every value of a type is written by some composition. -/
def Serializable.Composed (α : Type) [Serializable α] : Prop :=
  ∀ a : α, Writer.Composed (Serializable.serialize a)

/-- If it writes a value of an application type, the values of the type are composed. -/
def WriteOp.Composed : WriteOp → Prop
  | @WriteOp.record α _ _ => Serializable.Composed α
  | @WriteOp.records α _ _ => Serializable.Composed α
  | _ => True

namespace Composition

variable {gs : List Glimpse} {c : Composition} {w : Writer} {m m' : Memory}
  {shared : List (Option View)}

theorem same_draft (h : Writer.Same gs (w, m) (w, m')) : Draft.Same gs ⟨w, m, []⟩ ⟨w, m', []⟩ :=
  ⟨rfl, rfl, h.twins, h.position_le⟩

theorem same_alone {d d' : Draft} (h : Draft.Same gs d d') :
    Writer.Same gs d.alone d'.alone := by
  refine h.andThen (R := Writer.Same gs) (f := Draft.alone) fun h => ?_
  exact ⟨rfl, Draft.twins_drop_shared (h.twins.perm List.perm_middle.symm), h.position_le⟩

/-- **A composition** sees the same of a draft in twins, and so it does the same. -/
theorem same_run (h : Draft.Same gs ⟨w, m, shared⟩ ⟨w, m', shared⟩) (c : Composition) :
    Draft.Same gs (c.run ⟨w, m, shared⟩) (c.run ⟨w, m', shared⟩) := by
  induction c generalizing gs w m m' shared with
  | done => exact h
  | perform op hop next ih =>
    obtain ⟨hr, hd⟩ := h.step hop
    simp only [run, hr]
    exact hd.andThen (R := Draft.Same gs) fun h' => ih _ h'
  | look next ih =>
    simp only [run, h.file_eq, h.room_eq]
    exact ih _ _ h
  | call inner next ihInner ihNext =>
    have hinner := same_alone (ihInner (same_draft h.writer))
    exact (h.resume fun _ => hinner).2.andThen (R := Draft.Same gs) ihNext

theorem same_write (h : Writer.Same gs (w, m) (w, m')) (c : Composition) :
    Writer.Same gs (c.write w m) (c.write w m') :=
  same_alone (same_run (same_draft h) c)

end Composition

namespace Draft

variable {gs : List Glimpse} {w : Writer} {m m' : Memory} {shared : List (Option View)}
  {op : WriteOp}

section Records

variable {α : Type} [Serializable α]

theorem same_serialize (hα : Serializable.Composed α) (a : α)
    (h : Writer.Same gs (w, m) (w, m')) :
    Writer.Same gs (Serializable.serialize a w m) (Serializable.serialize a w m') := by
  obtain ⟨c, hc⟩ := hα a
  rw [hc, hc]
  exact c.same_write h

theorem same_writeEach (hα : Serializable.Composed α) (as : List α)
    (h : Writer.Same gs (w, m) (w, m')) :
    Writer.Same gs (w.writeEach as m) (w.writeEach as m') := by
  induction as generalizing w m m' with
  | nil => exact h
  | cons a as ih =>
    exact (same_serialize hα a h).andThen (f := fun w m => w.writeEach as m) fun h' => ih h'

theorem same_writeRecords (hα : Serializable.Composed α) (as : List α)
    (h : Writer.Same gs (w, m) (w, m')) :
    Writer.Same gs (w.writeRecords as m) (w.writeRecords as m') := by
  rw [Writer.writeRecords_eq, Writer.writeRecords_eq]
  exact (h.append _).andThen (f := fun w m => w.writeEach as m) (same_writeEach hα as)

end Records

/-- **Any operation.** -/
theorem Same.perform (h : Same gs ⟨w, m, shared⟩ ⟨w, m', shared⟩) (hop : op.Composed) :
    SameReply gs (perform ⟨w, m, shared⟩ op) (perform ⟨w, m', shared⟩ op) := by
  cases op with
  | record a => exact h.resume (same_serialize hop a)
  | records as => exact h.resume (same_writeRecords hop as)
  | _ => exact h.step trivial

/-- **Operations one after the other**, up to one that is refused. -/
theorem Same.performAll {ops : List WriteOp} (hops : ∀ op ∈ ops, op.Composed)
    (h : Same gs ⟨w, m, shared⟩ ⟨w, m', shared⟩) :
    (performAll ⟨w, m', shared⟩ ops).1 = (performAll ⟨w, m, shared⟩ ops).1 ∧
      Same gs (performAll ⟨w, m, shared⟩ ops).2 (performAll ⟨w, m', shared⟩ ops).2 := by
  induction ops generalizing w m m' shared with
  | nil => exact ⟨rfl, h⟩
  | cons op ops ih =>
    obtain ⟨hr, hd⟩ := h.perform (hops op List.mem_cons_self)
    by_cases hrefused : ∃ e, (Draft.perform ⟨w, m, shared⟩ op).1 = .refused e
    · obtain ⟨e, he⟩ := hrefused
      rw [performAll_cons_of_refused he, performAll_cons_of_refused (hr.trans he)]
      exact ⟨rfl, h⟩
    · have hdone := fun e he => hrefused ⟨e, he⟩
      rw [performAll_cons_of_done hdone, performAll_cons_of_done (hr ▸ hdone)]
      exact hd.andThen
        (R := fun r r' : Except Misuse Unit × Draft => r'.1 = r.1 ∧ Same gs r.2 r'.2)
        (f := fun d => d.performAll ops) (ih fun op' hm => hops op' (List.mem_cons_of_mem op hm))

/-! ### The start -/

theorem same_start (h : Twins gs m m') (room : Nat) (e : Encoding) :
    Same gs (start room e m) (start room e m') := by
  have hw := Writer.same_create h room e
  exact ⟨hw.value_eq, rfl, hw.twins, hw.position_le⟩

end Draft

/-! ### The application types -/

namespace Writer

variable {f g : Writer → Memory → Writer × Memory}

theorem composed_nothing : Composed fun w m => (w, m) := ⟨.done, fun _ _ => rfl⟩

theorem composed_write (k : Kind) (v : k.Value) : Composed fun w m => w.write k v m :=
  ⟨.perform (.value k v) trivial fun _ => .done, fun _ _ => rfl⟩

theorem composed_count (n : Nat) : Composed fun w m => w.append (Kind.count n) m := by
  simp only [append_count_eq]
  exact composed_write (.raw 4) _

theorem Composed.trans (hf : Composed f) (hg : Composed g) :
    Composed fun w m => g (f w m).1 (f w m).2 := by
  obtain ⟨c, hc⟩ := hf
  obtain ⟨d, hd⟩ := hg
  refine ⟨.call c d, fun w m => ?_⟩
  show g (f w m).1 (f w m).2 = _
  rw [hd, hc]
  rfl

end Writer

theorem Point.composed : Serializable.Composed Point := by
  intro p
  have h := (Writer.composed_write (.scalar .i32) p.x).trans (Writer.composed_write .str p.label)
  with_reducible_and_instances exact h

theorem Bag.composed : Serializable.Composed Bag := by
  intro b
  have h := (Writer.composed_write (.scalars .u32) b.numbers).trans
    (Writer.composed_write .str b.name)
  with_reducible_and_instances exact h

namespace Tree

mutual

theorem composed_write : (t : Tree) → Writer.Composed t.write
  | node v ts => by
    obtain ⟨c, hc⟩ := ((Writer.composed_write (.scalar .u8) v).trans
      (Writer.composed_count ts.length)).trans (composed_writeAll ts)
    refine ⟨c, fun w m => ?_⟩
    rw [write, ← hc]

theorem composed_writeAll : (ts : List Tree) → Writer.Composed (writeAll ts)
  | [] => by
    obtain ⟨c, hc⟩ := Writer.composed_nothing
    refine ⟨c, fun w m => ?_⟩
    rw [writeAll, ← hc]
  | t :: ts => by
    obtain ⟨c, hc⟩ := (composed_write t).trans (composed_writeAll ts)
    refine ⟨c, fun w m => ?_⟩
    rw [writeAll, ← hc]

end

theorem composed : Serializable.Composed Tree := composed_write

end Tree

end Tandem
