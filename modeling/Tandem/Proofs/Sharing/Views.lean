import Tandem.Proofs.Sharing.Holders

/-!
# Views as byte strings

`ViewOp.Effect` says what the operations on views do to byte strings under names, each of which is
only there for its name.  It is what they do to what the views of a workspace show
(`ViewOp.outcome_run`), whatever arrays the views share, among each other or with the rest of the
program.  An operation that there is no memory for does nothing.

The bytes behind the end of a view are not part of the string.  So setting a greater length adds any
bytes, and writing through the room of a view (`Workspace.overwrite`) is seen as far as the end.
-/

namespace Tandem

open Memory (HeldBy Keeps)

instance : Holder View Bytes where
  view v := v
  value _ bs := bs

/-- Writes through the room of the view under a name: all that there is in an array of its own from
the start of the view on. -/
def Workspace.overwrite (w : Workspace View) (name : String) (p : Nat) (bs : Bytes) :
    Reply × Workspace View :=
  w.withSlot name fun v =>
    let owned := v.own w.memory
    if p + bs.length ≤ owned.1.capacity owned.2 then
      let written := v.write p bs w.memory
      (.done, w.update name written.1 written.2)
    else (.refused .outOfRange, w.update name owned.1 owned.2)

namespace ViewOp

/-- The names that have to be in use. -/
def uses : ViewOp → List String
  | clone _ source => [source]
  | advance name _ | truncate name _ | setLength name _ | ensure name _ | resize name _ _
  | set name _ _ | own name | isEmpty name | contents name | describe name => [name]
  | equal name other | shares name other => [name, other]
  | create _ _ | ofBytes _ _ | drop _ => []

/-- The name under which something else may stand afterwards. -/
def target : ViewOp → Option String
  | create name _ | ofBytes name _ | clone name _ | drop name | advance name _ | truncate name _
  | setLength name _ | resize name _ _ | set name _ _ => some name
  | _ => none

/-- What the operations do to byte strings. -/
inductive Effect (r : Register Bytes) : ViewOp → Reply → Register Bytes → Prop
  | create (name : String) (min : Nat) :
      Effect r (.create name min) .done (r.put name (some []))
  | ofBytes (name : String) (bs : Bytes) :
      Effect r (.ofBytes name bs) .done (r.put name (some bs))
  | clone {source : String} {bs : Bytes} (name : String) (h : r source = some bs) :
      Effect r (.clone name source) .done (r.put name (some bs))
  | drop (name : String) : Effect r (.drop name) .done (r.put name none)
  | advance {name : String} {n : Nat} {bs : Bytes} (h : r name = some bs) (hn : n ≤ bs.length) :
      Effect r (.advance name n) .done (r.put name (some (bs.drop n)))
  | advanceBeyond {name : String} {n : Nat} {bs : Bytes} (h : r name = some bs)
      (hn : bs.length < n) :
      Effect r (.advance name n) (.refused (.advanceBeyond n bs.length)) r
  | truncate {name : String} {bs : Bytes} (n : Nat) (h : r name = some bs) :
      Effect r (.truncate name n) .done (r.put name (some (bs.take n)))
  | setLength {name : String} {n : Nat} {bs new : Bytes} (h : r name = some bs)
      (hl : new.length = n) (hc : new.take bs.length = bs.take n) :
      Effect r (.setLength name n) .done (r.put name (some new))
  | ensure {name : String} {bs : Bytes} (n : Nat) (h : r name = some bs) :
      Effect r (.ensure name n) .done r
  | resize {name : String} {bs : Bytes} (n : Nat) (fill : UInt8) (h : r name = some bs) :
      Effect r (.resize name n fill) .done
        (r.put name (some (bs.take n ++ List.replicate (n - bs.length) fill)))
  | set {name : String} {i : Nat} {bs : Bytes} (b : UInt8) (h : r name = some bs)
      (hi : i < bs.length) : Effect r (.set name i b) .done (r.put name (some (bs.set i b)))
  | setBeyond {name : String} {i : Nat} {bs : Bytes} (b : UInt8) (h : r name = some bs)
      (hi : bs.length ≤ i) : Effect r (.set name i b) (.refused .outOfRange) r
  | own {name : String} {bs : Bytes} {room : Nat} (h : r name = some bs)
      (hroom : bs.length ≤ room) : Effect r (.own name) (.number room) r
  | equal {name other : String} {bs bs' : Bytes} (h : r name = some bs) (h' : r other = some bs') :
      Effect r (.equal name other) (.flag (bs == bs')) r
  | shares {name other : String} {bs bs' : Bytes} (b : Bool) (h : r name = some bs)
      (h' : r other = some bs') : Effect r (.shares name other) (.flag b) r
  | isEmpty {name : String} {bs : Bytes} (h : r name = some bs) :
      Effect r (.isEmpty name) (.flag (bs.length = 0)) r
  | contents {name : String} {bs : Bytes} (h : r name = some bs) :
      Effect r (.contents name) (.bytes bs) r
  | describe {name : String} {bs : Bytes} (h : r name = some bs) :
      Effect r (.describe name) (.text (View.describe bs)) r
  | unused {op : ViewOp} {name : String} (hu : name ∈ op.uses) (h : r name = none) :
      Effect r op (.refused .outOfRange) r

theorem Effect.of_ne {r r' : Register Bytes} {op : ViewOp} {reply : Reply} {k : String}
    (he : Effect r op reply r') (hk : op.target ≠ some k) : r' k = r k := by
  cases he
  case create | ofBytes | clone | drop | advance | truncate | setLength | resize | set =>
    refine Register.put_of_ne _ fun h => hk ?_
    rw [h]
    rfl
  all_goals rfl

end ViewOp

/-- What writing through the room of a view does to byte strings. -/
inductive Register.Overwritten (r : Register Bytes) (name : String) (p : Nat) (bs : Bytes) :
    Reply → Register Bytes → Prop
  | done {old : Bytes} (h : r name = some old) :
      Overwritten r name p bs .done (r.put name (some ((old.splice p bs).take old.length)))
  | beyond {old : Bytes} (h : r name = some old) (hp : old.length < p + bs.length) :
      Overwritten r name p bs (.refused .outOfRange) r
  | unused (h : r name = none) : Overwritten r name p bs (.refused .outOfRange) r

namespace Workspace

variable {others : List View} {w : Workspace View} {name : String} {v : View} {n p : Nat}
  {bs : Bytes}

theorem Sound.holdView (h : w.Sound others) (hk : w.slots.get? name = some v) :
    w.memory.HeldBy (v :: (w.beside name ++ others)) :=
  h.hold hk

theorem Sound.register_view (h : w.Sound others) (hk : w.slots.get? name = some v) :
    w.register name = some (v.bytes w.memory) ∧ (v.bytes w.memory).length = v.length :=
  ⟨register_of_some hk, (h.holdView hk).length_bytes List.mem_cons_self⟩

theorem becomes_continues (h : w.Sound others) (hk : w.slots.get? name = some v)
    {u : View} {m : Memory} (hc : View.Continues (w.beside name ++ others) v w.memory u m) :
    Becomes others w name (w.register name) (w.update name u m) := by
  rw [(h.register_view hk).1]
  exact becomes_update hc.held hc.keeps hc.bytes_eq

/-- **Writing** to the view under a name. -/
theorem becomes_write (h : w.Sound others) (hk : w.slots.get? name = some v) (p : Nat)
    (bs : Bytes) (hp : p + bs.length ≤ (v.own w.memory).1.capacity (v.own w.memory).2) :
    Becomes others w name (some (((v.bytes w.memory).splice p bs).take v.length))
      (w.update name (v.write p bs w.memory).1 (v.write p bs w.memory).2) := by
  obtain ⟨hh, keep⟩ := View.held_write (h.holdView hk) p bs
  exact becomes_update hh keep (View.bytes_write (h.holdView hk) hp)

/-- **Writing through the room** of a view. -/
theorem outcome_overwrite (h : w.Sound others) (name : String) (p : Nat) (bs : Bytes) :
    Outcome others w (w.register.Overwritten name p bs) (w.overwrite name p bs) := by
  refine withSlot_cases (fun hk => h.outcome (.unused (register_of_none hk))) ?_
  intro v hk
  obtain ⟨hv, hlen⟩ := h.register_view hk
  obtain ⟨hc, -⟩ := View.continues_own (h.holdView hk)
  by_cases hp : p + bs.length ≤ (v.own w.memory).1.capacity (v.own w.memory).2
  · rw [if_pos hp]
    refine (becomes_write h hk p bs hp).outcome ?_
    rw [← hlen]
    exact .done hv
  · rw [if_neg hp]
    refine (becomes_continues h hk hc).outcome_same rfl (.beyond hv ?_)
    have hle := (h.holdView hk).le_capacity List.mem_cons_self
    have hle' := hc.le_capacity
    omega

end Workspace

namespace ViewOp

open Workspace

variable {others : List View} {w : Workspace View}

theorem splice_singleton {bs : Bytes} {i : Nat} (hi : i < bs.length) (b : UInt8) :
    (bs.splice i [b]).take bs.length = bs.set i b := by
  rw [List.set_eq_take_append_cons_drop, if_pos hi, List.take_of_length_le]
  · simp [Bytes.splice]
  · simp [Bytes.splice]
    omega

theorem outcome_withSlot (h : w.Sound others) {op : ViewOp} {name : String} (hu : name ∈ op.uses)
    {f : View → Reply × Workspace View}
    (hf : ∀ v, w.slots.get? name = some v → Outcome others w (op.Effect w.register) (f v)) :
    Outcome others w (op.Effect w.register) (w.withSlot name f) :=
  withSlot_cases (fun hk => h.outcome (.unused hu (register_of_none hk))) hf

/-- **Operations on views** do to what is shown under the names what they do to byte strings. -/
theorem outcome_run (h : w.Sound others) (op : ViewOp) :
    Outcome others w (op.Effect w.register) (op.run w) := by
  cases op with
  | create name min =>
    simp only [run]
    obtain ⟨hh, keep⟩ := View.held_create h min
    have hb := becomes_assign (k := name) hh keep (View.bytes_create min w.memory) fun _ _ => rfl
    exact hb.outcome (.create name min)
  | ofBytes name bs =>
    simp only [run]
    obtain ⟨hh, keep⟩ := View.held_ofBytes h bs
    have hb := becomes_assign (k := name) hh keep (View.bytes_ofBytes h bs) fun _ _ => rfl
    exact hb.outcome (.ofBytes name bs)
  | clone name source =>
    simp only [run]
    refine outcome_withSlot h (by simp [uses]) ?_
    intro v hk
    have hmem : v ∈ w.held ++ others := List.mem_append_left _ (view_mem_held hk)
    obtain ⟨hh, keep⟩ := View.held_clone_of_mem h hmem rfl (Nat.le_refl _)
    have hbytes := keep.bytes_eq hmem
    have hb := becomes_assign (k := name) (a := v) hh keep hbytes fun _ _ => rfl
    exact hb.outcome (.clone name (h.register_view hk).1)
  | drop name =>
    simp only [run]
    exact (becomes_discard h fun _ _ => rfl).outcome (.drop name)
  | advance name n =>
    simp only [run]
    refine outcome_withSlot h (by simp [uses]) ?_
    intro v hk
    obtain ⟨hv, hlen⟩ := h.register_view hk
    by_cases hn : n ≤ v.length
    · have hadv := View.advance_eq_ok_iff.2 ⟨hn, rfl⟩
      rw [hadv]
      have hb := becomes_update (View.held_skip (h.holdView hk) hn) (.refl _ _)
        (View.bytes_skip v n w.memory)
      exact hb.outcome (.advance hv (by omega))
    · have hadv : v.advance n = .error (.advanceBeyond n v.length) := if_neg hn
      rw [hadv]
      refine h.outcome ?_
      have he := Effect.advanceBeyond hv (n := n) (by omega)
      rw [hlen] at he
      exact he
  | truncate name n =>
    simp only [run]
    refine outcome_withSlot h (by simp [uses]) ?_
    intro v hk
    have hb := becomes_update (View.held_truncate (h.holdView hk) n) (.refl _ _)
      (View.bytes_truncate v n w.memory)
    exact hb.outcome (.truncate n (h.register_view hk).1)
  | setLength name n =>
    simp only [run]
    refine outcome_withSlot h (by simp [uses]) ?_
    intro v hk
    obtain ⟨hv, hlen⟩ := h.register_view hk
    obtain ⟨hh, keep⟩ := View.held_setLength (h.holdView hk) n
    have hnew := hh.length_bytes List.mem_cons_self
    have htake := View.take_bytes_setLength (h.holdView hk) n
    rw [← hlen] at htake
    exact (becomes_update hh keep rfl).outcome (.setLength hv hnew htake)
  | ensure name n =>
    simp only [run]
    refine outcome_withSlot h (by simp [uses]) ?_
    intro v hk
    obtain ⟨hc, -⟩ := View.continues_ensure (h.holdView hk) n
    exact (becomes_continues h hk hc).outcome_same rfl (.ensure n (h.register_view hk).1)
  | resize name n fill =>
    simp only [run]
    refine outcome_withSlot h (by simp [uses]) ?_
    intro v hk
    obtain ⟨hv, hlen⟩ := h.register_view hk
    obtain ⟨hh, keep⟩ := View.held_resize (h.holdView hk) n fill
    have hb := becomes_update hh keep (View.bytes_resize (h.holdView hk) n fill)
    refine hb.outcome ?_
    rw [← hlen]
    exact .resize n fill hv
  | set name i b =>
    simp only [run]
    refine outcome_withSlot h (by simp [uses]) ?_
    intro v hk
    obtain ⟨hv, hlen⟩ := h.register_view hk
    obtain ⟨hc, -⟩ := View.continues_own (h.holdView hk)
    by_cases hi : i < (v.own w.memory).1.length
    · rw [if_pos hi]
      rw [hc.length_eq] at hi
      have hle := (h.holdView hk).le_capacity List.mem_cons_self
      have hb := becomes_write h hk i [b] (by
        have hle' := View.le_capacity_own (h.holdView hk)
        simp only [List.length_singleton]
        omega)
      refine hb.outcome ?_
      rw [← hlen, splice_singleton (by omega)]
      exact .set b hv (by omega)
    · rw [if_neg hi]
      rw [hc.length_eq] at hi
      exact (becomes_continues h hk hc).outcome_same rfl (.setBeyond b hv (by omega))
  | own name =>
    simp only [run]
    refine outcome_withSlot h (by simp [uses]) ?_
    intro v hk
    obtain ⟨hv, hlen⟩ := h.register_view hk
    obtain ⟨hc, -⟩ := View.continues_own (h.holdView hk)
    refine (becomes_continues h hk hc).outcome_same rfl (.own hv ?_)
    rw [hlen, ← hc.length_eq]
    exact hc.held.le_capacity List.mem_cons_self
  | equal name other =>
    simp only [run]
    refine outcome_withSlot h (by simp [uses]) ?_
    intro v hk
    refine outcome_withSlot h (by simp [uses]) ?_
    intro u hk'
    exact h.outcome (.equal (h.register_view hk).1 (h.register_view hk').1)
  | shares name other =>
    simp only [run]
    refine outcome_withSlot h (by simp [uses]) ?_
    intro v hk
    refine outcome_withSlot h (by simp [uses]) ?_
    intro u hk'
    exact h.outcome (.shares _ (h.register_view hk).1 (h.register_view hk').1)
  | isEmpty name =>
    simp only [run]
    refine outcome_withSlot h (by simp [uses]) ?_
    intro v hk
    obtain ⟨hv, hlen⟩ := h.register_view hk
    have he := Effect.isEmpty hv
    rw [hlen] at he
    exact h.outcome he
  | contents name =>
    simp only [run]
    refine outcome_withSlot h (by simp [uses]) ?_
    intro v hk
    exact h.outcome (.contents (h.register_view hk).1)
  | describe name =>
    simp only [run]
    refine outcome_withSlot h (by simp [uses]) ?_
    intro v hk
    exact h.outcome (.describe (h.register_view hk).1)

end ViewOp

end Tandem
