import Tandem.Proofs.Recycling.Drafts

/-!
# Named handles in twins

The operations on views, writers and readers give the same answers in twins, and they leave twins.
The handles look at what was filled and go on doing so, unless a view is given a length that is
greater:  this is how a program would get to see what was not filled (`ViewOp.Discreet`).
-/

namespace Tandem

open Memory (Twins)

namespace Workspace

variable {α β ρ : Type} [Holder α β]

/-- The same handles in twins. -/
structure Same (gs : List Glimpse) (w w' : Workspace α) : Prop where
  slots_eq : w'.slots = w.slots
  twins : Twins (w.held.map View.whole ++ gs) w.memory w'.memory

/-- The same answer, and the same handles in twins. -/
def SameReply (gs : List Glimpse) (r r' : ρ × Workspace α) : Prop :=
  r'.1 = r.1 ∧ Same gs r.2 r'.2

variable {gs : List Glimpse} {m m' : Memory} {slots : Table String α} {k : String} {a : α}
  {r r' : α × Memory} {drop : α → Memory → Memory}

theorem Same.hold (h : Same gs ⟨m, slots⟩ ⟨m', slots⟩) (hk : slots.get? k = some a) :
    Twins ((Holder.view a).whole :: ((beside ⟨m, slots⟩ k).map View.whole ++ gs)) m m' := by
  have hperm := (held_perm (w := ⟨m, slots⟩) hk).map View.whole
  exact h.twins.perm (hperm.append_right gs)

theorem Same.bytes_eq (h : Same gs ⟨m, slots⟩ ⟨m', slots⟩) (hk : slots.get? k = some a) :
    (Holder.view a).bytes m' = (Holder.view a).bytes m :=
  (h.hold hk).bytes_eq List.mem_cons_self

theorem Same.canCreate_eq (h : Same gs ⟨m, slots⟩ ⟨m', slots⟩) (n : Nat) :
    m'.canCreate n = m.canCreate n := h.twins.alike.canCreate_eq n

/-! ### Steps -/

theorem same_update (hr : Memory.Same ((beside ⟨m, slots⟩ k).map View.whole ++ gs) r r') :
    Same gs (update ⟨m, slots⟩ k r.1 r.2) (update ⟨m', slots⟩ k r'.1 r'.2) := by
  refine ⟨?_, hr.twins⟩
  simp only [update, hr.value_eq]

theorem same_assign (hr : Memory.Same ((held ⟨m, slots⟩).map View.whole ++ gs) r r')
    (hdrop : ∀ a m, drop a m = (Holder.view a).drop m) :
    Same gs (assign ⟨m, slots⟩ drop k r.1 r.2) (assign ⟨m', slots⟩ drop k r'.1 r'.2) := by
  cases hold : slots.get? k with
  | none =>
    rw [← beside_of_none (k := k) hold] at hr
    have hput : Same gs (update ⟨m, slots⟩ k r.1 r.2) (update ⟨m', slots⟩ k r'.1 r'.2) :=
      same_update hr
    simp only [assign, hold]
    exact hput
  | some old =>
    -- what was there goes last
    have hperm := (((held_perm (w := ⟨m, slots⟩) hold).map View.whole).append_right gs).cons
      (Holder.view r.1).whole
    have htwins := Twins.drop (hr.twins.perm (hperm.trans (.swap _ _ _)))
    have hput : Same gs (update ⟨m, slots⟩ k r.1 ((Holder.view old).drop r.2))
        (update ⟨m', slots⟩ k r.1 ((Holder.view old).drop r'.2)) :=
      same_update (.of_twins r.1 htwins)
    simp only [assign, hold, hdrop, hr.value_eq]
    exact hput

theorem Same.discard (h : Same gs ⟨m, slots⟩ ⟨m', slots⟩)
    (hdrop : ∀ a m, drop a m = (Holder.view a).drop m) :
    Same gs (Workspace.discard ⟨m, slots⟩ drop k) (Workspace.discard ⟨m', slots⟩ drop k) := by
  cases hold : slots.get? k with
  | none =>
    simp only [Workspace.discard, hold, Table.erase_of_get?_none hold]
    exact h
  | some old =>
    simp only [Workspace.discard, hold, hdrop]
    exact ⟨rfl, Twins.drop (h.hold hold)⟩

theorem Same.miss {w w' : Workspace α} (h : Same gs w w') : SameReply gs w.miss w'.miss :=
  ⟨rfl, h.slots_eq, h.twins.miss⟩

theorem Same.withSlot (h : Same gs ⟨m, slots⟩ ⟨m', slots⟩) (k : String)
    {f f' : α → Reply × Workspace α}
    (hf : ∀ a, slots.get? k = some a → SameReply gs (f a) (f' a)) :
    SameReply gs (Workspace.withSlot ⟨m, slots⟩ k f) (Workspace.withSlot ⟨m', slots⟩ k f') := by
  unfold Workspace.withSlot
  cases hk : slots.get? k with
  | none => exact ⟨rfl, h⟩
  | some a => exact hf a hk

end Workspace

/-! ### Views -/

namespace ViewOp

open Workspace

/-- No length is set that is greater than before. -/
def Discreet (slots : Table String View) : ViewOp → Prop
  | setLength name n => ∀ v, slots.get? name = some v → n ≤ v.length
  | _ => True

variable {gs : List Glimpse} {m m' : Memory} {slots : Table String View}

theorem demand_eq (h : Workspace.Same gs ⟨m, slots⟩ ⟨m', slots⟩) (op : ViewOp) :
    op.demand ⟨m', slots⟩ = op.demand ⟨m, slots⟩ := by
  cases op with
  | setLength | ensure | resize | set | own => simp only [demand, h.twins.alike.demand_eq]
  | _ => rfl

/-- **Operations on views** give the same answers in twins. -/
theorem same_run (h : Workspace.Same gs ⟨m, slots⟩ ⟨m', slots⟩) {op : ViewOp}
    (hop : op.Discreet slots) : SameReply gs (op.run ⟨m, slots⟩) (op.run ⟨m', slots⟩) := by
  cases op with
  | create name min => exact ⟨rfl, same_assign (h.twins.same_create min) fun _ _ => rfl⟩
  | ofBytes name bs => exact ⟨rfl, same_assign (h.twins.same_ofBytes bs) fun _ _ => rfl⟩
  | clone name source =>
    refine h.withSlot source fun v hk => ⟨rfl, ?_⟩
    have hmem : v.whole ∈ (held ⟨m, slots⟩).map View.whole ++ gs :=
      List.mem_append_left _ (List.mem_map_of_mem (view_mem_held (w := ⟨m, slots⟩) hk))
    exact same_assign (.of_twins v (h.twins.clone_self hmem)) fun _ _ => rfl
  | drop name => exact ⟨rfl, h.discard fun _ _ => rfl⟩
  | advance name n =>
    refine h.withSlot name fun v hk => ?_
    cases hv : v.advance n with
    | error e => exact ⟨rfl, h⟩
    | ok u =>
      obtain ⟨hn, rfl⟩ := View.advance_eq_ok_iff.1 hv
      exact ⟨rfl, same_update (.of_twins _ ((h.hold hk).skip hn))⟩
  | truncate name n =>
    refine h.withSlot name fun v hk => ?_
    exact ⟨rfl, same_update (.of_twins _ ((h.hold hk).truncate n))⟩
  | setLength name n =>
    refine h.withSlot name fun v hk => ⟨rfl, ?_⟩
    exact same_update ((h.hold hk).same_setLength (hop v hk))
  | ensure name n =>
    exact h.withSlot name fun v hk => ⟨rfl, same_update ((h.hold hk).same_ensure n)⟩
  | resize name n fill =>
    exact h.withSlot name fun v hk => ⟨rfl, same_update ((h.hold hk).same_resize n fill)⟩
  | set name i b =>
    refine h.withSlot name fun v hk => ?_
    have hv : Twins (v.whole :: _) m m' := h.hold hk
    have hown := hv.same_own
    have hlen : (v.own m).1.length = v.length := (View.continues_own hv.holds).1.length_eq
    by_cases hi : i < v.length
    · have hw : Memory.Same _ (v.write i [b] m) (v.write i [b] m') := hv.same_write hi
      simp only [View.write, hown.value_eq] at hw
      simp only [hown.value_eq, hlen, hi, ↓reduceIte]
      exact ⟨rfl, same_update hw⟩
    · simp only [hown.value_eq, hlen, hi, ↓reduceIte]
      exact ⟨rfl, same_update (.of_twins _ hown.twins)⟩
  | own name =>
    refine h.withSlot name fun v hk => ?_
    have hv : Twins (v.whole :: _) m m' := h.hold hk
    have hown := hv.same_own
    refine ⟨?_, same_update hown⟩
    simp only [hown.value_eq, hown.twins.alike.capacity_eq]
  | equal name other =>
    refine h.withSlot name fun v hk => h.withSlot other fun u hk' => ⟨?_, h⟩
    have hv : v.bytes m' = v.bytes m := h.bytes_eq hk
    have hu : u.bytes m' = u.bytes m := h.bytes_eq hk'
    simp only [hv, hu]
  | shares name other => exact h.withSlot name fun v hk => h.withSlot other fun u hk' => ⟨rfl, h⟩
  | isEmpty name => exact h.withSlot name fun v hk => ⟨rfl, h⟩
  | contents name =>
    exact h.withSlot name fun v hk => ⟨congrArg Reply.bytes (h.bytes_eq hk), h⟩
  | describe name =>
    exact h.withSlot name fun v hk =>
      ⟨congrArg (fun bs => Reply.text (View.describe bs)) (h.bytes_eq hk), h⟩

theorem same_attempt (h : Workspace.Same gs ⟨m, slots⟩ ⟨m', slots⟩) {op : ViewOp}
    (hop : op.Discreet slots) : SameReply gs (op.attempt ⟨m, slots⟩) (op.attempt ⟨m', slots⟩) := by
  have hcan : m'.canCreate = m.canCreate := funext h.canCreate_eq
  simp only [attempt, demand_eq h, hcan]
  split_ifs
  · exact same_run h hop
  · exact h.miss

end ViewOp

/-! ### Writers -/

namespace WriterOp

open Workspace

/-- Values of application types are composed. -/
def Composed : WriterOp → Prop
  | perform _ op _ => op.Composed
  | _ => True

variable {gs : List Glimpse} {m m' : Memory} {slots : Table String Writer}

/-- **Operations on writers** give the same answers in twins. -/
theorem same_run (h : Workspace.Same gs ⟨m, slots⟩ ⟨m', slots⟩) (hc : Cursors slots) {op : WriterOp}
    (hop : op.Composed) :
    SameReply gs (op.run ⟨m, slots⟩) (op.run ⟨m', slots⟩) ∧
      Cursors (op.run ⟨m, slots⟩).2.slots := by
  cases op with
  | create name room e =>
    simp only [run, Draft.make, h.canCreate_eq]
    split_ifs
    · have hstart := Writer.same_create h.twins room e
      refine ⟨⟨rfl, same_assign ⟨hstart.value_eq, hstart.twins⟩ fun _ _ => rfl⟩, ?_⟩
      exact hc.set hstart.position_le
    · exact ⟨h.miss, hc⟩
  | perform name op hw =>
    simp only [run, withSlot]
    cases hk : slots.get? name with
    | none => exact ⟨⟨rfl, h⟩, hc⟩
    | some x =>
      have hx : Writer.Same ((beside ⟨m, slots⟩ name).map View.whole ++ gs) (x, m) (x, m') :=
        ⟨rfl, h.hold hk, hc name x hk⟩
      obtain ⟨hr, hd⟩ := (Composition.same_draft hx).perform hop
      have hshared : (Draft.perform ⟨x, m, []⟩ op).2.handed = [] := by
        rw [Draft.handed, Draft.shared_perform hw]
        rfl
      have htwins := hd.twins
      rw [hshared] at htwins
      have hput : Memory.Same _ (_, _) (_, _) := ⟨hd.writer_eq, htwins⟩
      exact ⟨⟨hr, same_update hput⟩, hc.set hd.position_le⟩
  | drop name => exact ⟨⟨rfl, h.discard fun _ _ => rfl⟩, hc.erase name⟩

end WriterOp

/-! ### Readers -/

namespace Reader

variable {gs : List Glimpse} {m m' : Memory} {r : Reader}

theorem cursor_eq (h : Twins gs m m') (hv : r.view.whole ∈ gs) : r.cursor m' = r.cursor m := by
  rw [cursor, rest, h.bytes_eq hv, cursor, rest]

/-- **Any read** gives the same and leaves the reader in the same place. -/
theorem read_eq {α : Type} (h : Twins gs m m') (hv : r.view.whole ∈ gs) (p : Read α) :
    r.read p m' = r.read p m := by
  rw [read, cursor_eq h hv, read]

theorem readInto_eq {α : Type} [Serializable α] (h : Twins gs m m') (hv : r.view.whole ∈ gs)
    (a : α) : r.readInto a m' = r.readInto a m := by
  rw [readInto, cursor_eq h hv, readInto]

end Reader

namespace ReaderOp

open Workspace

variable {gs : List Glimpse} {m m' : Memory} {slots : Table String Reader}

theorem same_move (h : Workspace.Same gs ⟨m, slots⟩ ⟨m', slots⟩) {name : String} {r : Reader}
    (hk : slots.get? name = some r) {moved : Except Misuse Reader}
    (hm : ∀ r', moved = .ok r' → r'.view = r.view) :
    SameReply gs (move ⟨m, slots⟩ name moved) (move ⟨m', slots⟩ name moved) := by
  cases moved with
  | error e => exact ⟨rfl, h⟩
  | ok r' =>
    refine ⟨rfl, same_update (.of_twins r' ?_)⟩
    have hview : Holder.view r' = Holder.view r := hm r' rfl
    rw [hview]
    exact h.hold hk

/-- **Operations on readers** give the same answers in twins. -/
theorem same_run (h : Workspace.Same gs ⟨m, slots⟩ ⟨m', slots⟩) (op : ReaderOp) :
    SameReply gs (op.run ⟨m, slots⟩) (op.run ⟨m', slots⟩) := by
  cases op with
  | read name p =>
    refine h.withSlot name fun r hk => ?_
    rw [Reader.read_eq (h.hold hk) List.mem_cons_self]
    exact same_move h hk fun r' he => Except.ok.inj he ▸ rfl
  | setPosition name p =>
    refine h.withSlot name fun r hk => same_move h hk fun r' he => ?_
    unfold Reader.setPosition at he
    split_ifs at he
    exact Except.ok.inj he ▸ rfl
  | skip name n =>
    refine h.withSlot name fun r hk => same_move h hk fun r' he => ?_
    unfold Reader.skip at he
    split_ifs at he
    exact Except.ok.inj he ▸ rfl
  | setEncoding name e =>
    exact h.withSlot name fun r hk => same_move h hk fun r' he => Except.ok.inj he ▸ rfl
  | drop name => exact ⟨rfl, h.discard fun _ _ => rfl⟩

end ReaderOp

end Tandem
