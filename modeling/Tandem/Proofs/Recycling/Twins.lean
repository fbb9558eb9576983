import Tandem.Proofs.Sharing.Views
import Tandem.Proofs.Recycling.Alike

/-!
# What two memories have in common

A block is not cleared when it is handed out, so that behind what a view has filled there is
whatever an earlier owner left there.  A `Glimpse` is a view with the number of its first bytes that
were filled since.  Two memories are `Twins` in a list of glimpses that are alike and have these
bytes in common, and whatever else they hold may differ.  Every operation on a view finds the same
arrays, gives the same view and leaves twins, as long as no more comes to be seen than was filled:
`Twins.write` adds to what is filled, `Twins.restrict` forgets some of it.
-/

namespace Tandem

open Memory (HeldBy Keeps Alike)

/-- A view, with the number of bytes from its start on that were filled. -/
structure Glimpse where
  view : View
  filled : Nat

/-- All that a view shows. -/
def View.whole (v : View) : Glimpse := ⟨v, v.length⟩

namespace Memory

/-- Both memories hold the same where glimpses look. -/
def Agree (gs : List Glimpse) (m m' : Memory) : Prop :=
  ∀ g ∈ gs, (g.view.room m').take g.filled = (g.view.room m).take g.filled

/-- Two memories that are alike, and hold the same where glimpses look; their views are all that
holds their arrays. -/
structure Twins (gs : List Glimpse) (m m' : Memory) : Prop where
  alike : Alike m m'
  held : m.HeldBy (gs.map Glimpse.view)
  agree : Agree gs m m'

/-- Two results with the same value in it and twins, in which what it shows is in order beside the
rest. -/
structure Same {α β : Type} [Holder α β] (gs : List Glimpse) (r r' : α × Memory) : Prop where
  value_eq : r'.1 = r.1
  twins : Twins ((Holder.view r.1).whole :: gs) r.2 r'.2

variable {m m' m₁ m₁' : Memory} {g : Glimpse} {gs hs : List Glimpse} {vs : List View} {v u : View}
  {k j n p : Nat} {bs : Bytes}

theorem Same.of_twins {α β : Type} [Holder α β] (a : α)
    (h : Twins ((Holder.view a).whole :: gs) m m') : Same gs (a, m) (a, m') := ⟨rfl, h⟩

theorem HeldBy.of_alike (h : m.HeldBy vs) (ha : Alike m m') : m'.HeldBy vs where
  wellFormed := ha.wellFormed h.wellFormed
  handles_eq v hv := by rw [ha.handles_eq, h.handles_eq v hv]
  inBounds v hv := by
    rw [ha.length_block_eq]
    exact h.inBounds v hv

theorem Keeps.room_eq (h : Keeps vs m m') (hv : v ∈ vs) : v.room m' = v.room m := by
  simp only [View.room, h v hv]

namespace Alike

/-! ### The arrays that views move to -/

theorem capacity_eq (h : Alike m m') (v : View) : v.capacity m' = v.capacity m := by
  rw [View.capacity, h.length_block_eq, View.capacity]

theorem relocate (h : Alike m m') (v : View) (n : Nat) :
    (v.relocate n m').1 = (v.relocate n m).1 ∧ Alike (v.relocate n m).2 (v.relocate n m').2 := by
  obtain ⟨ha, hc⟩ := h.create n
  refine ⟨congrArg (fun a => (⟨a, 0, v.length⟩ : View)) ha, ?_⟩
  simp only [View.relocate]
  rw [ha]
  exact (hc.overwrite _ _ _ _ _).release _

theorem own (h : Alike m m') (v : View) :
    (v.own m').1 = (v.own m).1 ∧ Alike (v.own m).2 (v.own m').2 := by
  unfold View.own View.handles
  rw [h.handles_eq, h.capacity_eq]
  split_ifs
  · exact ⟨rfl, h⟩
  · exact h.relocate v _

theorem ensure (h : Alike m m') (v : View) (n : Nat) :
    (v.ensure n m').1 = (v.ensure n m).1 ∧ Alike (v.ensure n m).2 (v.ensure n m').2 := by
  unfold View.ensure
  rw [h.capacity_eq]
  split_ifs
  · exact ⟨rfl, h⟩
  · exact h.relocate v _

theorem write (h : Alike m m') (v : View) (p : Nat) (bs : Bytes) :
    (v.write p bs m').1 = (v.write p bs m).1 ∧ Alike (v.write p bs m).2 (v.write p bs m').2 := by
  obtain ⟨hv, ho⟩ := h.own v
  refine ⟨hv, ?_⟩
  simp only [View.write, hv]
  exact ho.overwrite _ _ _ _ _

theorem demand_eq (h : Alike m m') (v : View) (n : Nat) (written : Bool) :
    v.demand n written m' = v.demand n written m := by
  unfold View.demand View.handles
  rw [h.capacity_eq, h.handles_eq]

end Alike

/-! ### Agreeing -/

theorem Agree.of_cons (h : Agree (g :: gs) m m') : Agree gs m m' :=
  fun g' hg => h g' (List.mem_cons_of_mem g hg)

theorem Agree.of_keeps (h : Agree gs m m') (hk : Keeps (gs.map Glimpse.view) m m₁)
    (hk' : Keeps (gs.map Glimpse.view) m' m₁') : Agree gs m₁ m₁' := by
  intro g hg
  have hv := List.mem_map_of_mem (f := Glimpse.view) hg
  rw [hk.room_eq hv, hk'.room_eq hv]
  exact h g hg

namespace Twins

theorem refl (h : m.HeldBy (gs.map Glimpse.view)) : Twins gs m m :=
  ⟨.refl m, h, fun _ _ => rfl⟩

theorem held' (h : Twins gs m m') : m'.HeldBy (gs.map Glimpse.view) := h.held.of_alike h.alike

theorem holds (h : Twins (v.whole :: gs) m m') : m.HeldBy (v :: gs.map Glimpse.view) := h.held

theorem perm (h : Twins gs m m') (hp : gs.Perm hs) : Twins hs m m' where
  alike := h.alike
  held := h.held.perm (hp.map Glimpse.view)
  agree g hg := h.agree g (hp.mem_iff.2 hg)

theorem bytes_eq (h : Twins gs m m') (hv : v.whole ∈ gs) : v.bytes m' = v.bytes m := by
  rw [View.bytes_eq_take_room, View.bytes_eq_take_room]
  exact h.agree v.whole hv

theorem handles_eq (h : Twins gs m m') (v : View) : v.handles m' = v.handles m :=
  h.alike.handles_eq v.array

theorem cons (ha : Alike m₁ m₁') (hh : m₁.HeldBy (g.view :: gs.map Glimpse.view))
    (hgs : Agree gs m m') (hk : Keeps (gs.map Glimpse.view) m m₁)
    (hk' : Keeps (gs.map Glimpse.view) m' m₁')
    (hg : (g.view.room m₁').take g.filled = (g.view.room m₁).take g.filled) :
    Twins (g :: gs) m₁ m₁' where
  alike := ha
  held := hh
  agree g' hg' := by
    rcases List.mem_cons.1 hg' with rfl | hg'
    · exact hg
    · exact hgs.of_keeps hk hk' g' hg'

theorem of_keeps (h : Twins gs m m') (ha : Alike m₁ m₁')
    (hh : m₁.HeldBy (gs.map Glimpse.view) ∧ Keeps (gs.map Glimpse.view) m m₁)
    (hk' : Keeps (gs.map Glimpse.view) m' m₁') : Twins gs m₁ m₁' :=
  ⟨ha, hh.1, h.agree.of_keeps hh.2 hk'⟩

theorem of_cells (h : Twins gs m m') (ha : Alike m₁ m₁') (hw : m₁.WellFormed)
    (hc : m₁.cells = m.cells) (hc' : m₁'.cells = m'.cells) : Twins gs m₁ m₁' := by
  have hblock : ∀ {m₁ m : Memory}, m₁.cells = m.cells → ∀ a, m₁.block a = m.block a :=
    fun hc a => by rw [block, block, hc]
  refine h.of_keeps ha ⟨⟨hw, fun v hv => ?_, fun v hv => ?_⟩, fun v _ => hblock hc _⟩
    fun v _ => hblock hc' _
  · rw [handles, hc]
    exact h.held.handles_eq v hv
  · rw [hblock hc]
    exact h.held.inBounds v hv

/-! ### Looking at less -/

/-- **Looking at another stretch** of what was filled. -/
theorem restrict (h : Twins (⟨v, k⟩ :: gs) m m') (ha : u.array = v.array)
    (ho : v.offset ≤ u.offset) (hj : u.offset + j ≤ v.offset + k)
    (hb : u.offset + u.length ≤ (m.block v.array).length) : Twins (⟨u, j⟩ :: gs) m m' := by
  refine cons h.alike (h.held.restrict ha hb) h.agree.of_cons (.refl _ _) (.refl _ _) ?_
  have hroom : ∀ m : Memory, (u.room m).take j =
      ((v.room m).take k |>.drop (u.offset - v.offset)).take j := by
    intro m
    rw [View.room, View.room, ha, List.drop_take, List.drop_drop, List.take_take,
      Nat.add_sub_cancel' ho, Nat.min_eq_left (by omega)]
  simp only [hroom]
  rw [h.agree _ List.mem_cons_self]

theorem filled_le (h : Twins (⟨v, k⟩ :: gs) m m') (hj : j ≤ k) : Twins (⟨v, j⟩ :: gs) m m' :=
  h.restrict rfl (Nat.le_refl _) (by omega) (h.held.inBounds v List.mem_cons_self)

/-- **Setting the length** within what was filled. -/
theorem withLength (h : Twins (⟨v, k⟩ :: gs) m m') (hn : n ≤ k) (hc : n ≤ v.capacity m) :
    Twins (View.whole { v with length := n } :: gs) m m' := by
  have hb := h.held.inBounds v List.mem_cons_self
  refine h.restrict rfl (Nat.le_refl _) ?_ ?_
  · exact Nat.add_le_add_left hn _
  · unfold View.capacity at hc
    simp only
    omega

theorem truncate (h : Twins (v.whole :: gs) m m') (n : Nat) :
    Twins ((v.truncate n).whole :: gs) m m' := by
  refine h.restrict rfl (Nat.le_refl _) ?_ ?_
  · exact Nat.add_le_add_left (Nat.min_le_left _ _) _
  · exact (View.held_truncate h.holds n).inBounds _ List.mem_cons_self

theorem skip (h : Twins (v.whole :: gs) m m') (hn : n ≤ v.length) :
    Twins (View.whole { v with offset := v.offset + n, length := v.length - n } :: gs) m m' := by
  refine h.restrict rfl (Nat.le_add_right _ _) ?_ ?_
  · show v.offset + n + (v.length - n) ≤ v.offset + v.length
    omega
  · exact (View.held_skip h.holds hn).inBounds _ List.mem_cons_self

/-! ### Making views and letting go of them -/

theorem same_create (h : Twins gs m m') (n : Nat) :
    Same gs (View.create n m) (View.create n m') := by
  obtain ⟨ha, hc⟩ := h.alike.create n
  obtain ⟨hh, hk⟩ := View.held_create h.held n
  obtain ⟨-, hk'⟩ := View.held_create h.held' n
  refine ⟨congrArg (fun a => (⟨a, 0, 0⟩ : View)) ha, ?_⟩
  exact cons hc hh h.agree hk hk' rfl

theorem same_ofBytes (h : Twins gs m m') (bs : Bytes) :
    Same gs (View.ofBytes bs m) (View.ofBytes bs m') := by
  obtain ⟨ha, hc⟩ := h.alike.create bs.length
  obtain ⟨hh, hk⟩ := View.held_ofBytes h.held bs
  obtain ⟨-, hk'⟩ := View.held_ofBytes h.held' bs
  have hv : (View.ofBytes bs m').1 = (View.ofBytes bs m).1 :=
    congrArg (fun a => (⟨a, 0, bs.length⟩ : View)) ha
  refine ⟨hv, cons ?_ hh h.agree hk hk' ?_⟩
  · simp only [View.ofBytes, ha]
    exact hc.overwrite _ _ _ _ _
  · have hb := View.bytes_ofBytes h.held bs
    have hb' := View.bytes_ofBytes h.held' bs
    rw [hv] at hb'
    rw [View.bytes_eq_take_room] at hb hb'
    exact hb'.trans hb.symm

/-- **Cloning** a view, or a part of it. -/
theorem clone (h : Twins gs m m') (hv : v.whole ∈ gs) (ha : u.array = v.array)
    (ho : v.offset ≤ u.offset) (hb : u.offset + u.length ≤ v.offset + v.length) :
    Twins (u.whole :: gs) (v.clone m) (v.clone m') := by
  have hmem : v ∈ gs.map Glimpse.view := List.mem_map_of_mem (f := Glimpse.view) hv
  obtain ⟨hh, hk⟩ := View.held_clone_of_mem h.held hmem ha hb
  obtain ⟨-, hk'⟩ := View.held_clone_of_mem h.held' hmem ha hb
  refine cons (h.alike.retain _) hh h.agree hk hk' ?_
  have hroom : ∀ m, (u.room m).take u.length =
      ((v.bytes m).drop (u.offset - v.offset)).take u.length := by
    intro m
    rw [View.bytes_eq_take_room, View.room, View.room, ha, List.drop_take, List.drop_drop,
      List.take_take, Nat.add_sub_cancel' ho, Nat.min_eq_left (by omega)]
  have hbytes := h.bytes_eq hv
  rw [← hk.bytes_eq hmem, ← hk'.bytes_eq hmem] at hbytes
  show (u.room _).take u.length = (u.room _).take u.length
  rw [hroom, hroom, hbytes]

theorem clone_self (h : Twins gs m m') (hv : v.whole ∈ gs) :
    Twins (v.whole :: gs) (v.clone m) (v.clone m') :=
  h.clone hv rfl (Nat.le_refl _) (Nat.le_refl _)

theorem drop (h : Twins (g :: gs) m m') : Twins gs (g.view.drop m) (g.view.drop m') := by
  obtain ⟨hh, hk⟩ := View.held_drop h.held
  obtain ⟨-, hk'⟩ := View.held_drop h.held'
  exact ⟨h.alike.release _, hh, h.agree.of_cons.of_keeps hk hk'⟩

theorem miss (h : Twins gs m m') : Twins gs m.miss m'.miss :=
  h.of_keeps h.alike.miss h.held.miss h.held'.miss.2

/-! ### Settings and threads -/

theorem fixSettings (h : Twins gs m m') (s : Settings) :
    Twins gs (m.fixSettings s).2 (m'.fixSettings s).2 := by
  have hcells : ∀ m : Memory, (m.fixSettings s).2.cells = m.cells ∧
      (m.fixSettings s).2.caches = m.caches ∧ (m.fixSettings s).2.arrays = m.arrays := by
    intro m
    unfold Memory.fixSettings
    split <;> exact ⟨rfl, rfl, rfl⟩
  obtain ⟨hc, hk, ha⟩ := hcells m
  refine h.of_cells (h.alike.fixSettings s).2 ⟨?_, ?_, ?_⟩ hc (hcells m').1
  · rw [hk]
    exact h.held.wellFormed.sound
  · rw [hc, ha]
    exact h.held.wellFormed.fresh
  · rw [hc]
    exact h.held.wellFormed.held

theorem onThread (h : Twins gs m m') (t : ThreadId) : Twins gs (m.onThread t) (m'.onThread t) :=
  have hw := h.held.wellFormed
  h.of_cells (h.alike.onThread t) ⟨hw.sound, hw.fresh, hw.held⟩ rfl rfl

theorem startThread (h : Twins gs m m') : Twins gs m.startThread m'.startThread :=
  have hw := h.held.wellFormed
  h.of_cells h.alike.startThread ⟨hw.sound, hw.fresh, hw.held⟩ rfl rfl

theorem endThread (h : Twins gs m m') (t : ThreadId) :
    Twins gs (m.endThread t) (m'.endThread t) := by
  have hw := h.held.wellFormed
  refine h.of_cells (h.alike.endThread t) ⟨fun u c hc => ?_, hw.fresh, hw.held⟩ rfl rfl
  simp only [Memory.endThread, Table.get?_erase] at hc
  split_ifs at hc
  exact hw.sound u c hc

/-! ### Moving the bytes of a view -/

/-- What is filled and shown is moved, and nothing else. -/
theorem of_continues (h : Twins (⟨v, k⟩ :: gs) m m') (ha : Alike m₁ m₁')
    (hc : View.Continues (gs.map Glimpse.view) v m u m₁)
    (hc' : View.Continues (gs.map Glimpse.view) v m' u m₁') (hk : k ≤ v.length) :
    Twins (⟨u, k⟩ :: gs) m₁ m₁' := by
  refine cons ha hc.held h.agree.of_cons hc.keeps hc'.keeps ?_
  have hroom : ∀ {m m₁ : Memory}, u.bytes m₁ = v.bytes m →
      (u.room m₁).take k = (v.room m).take k := by
    intro m m₁ hb
    have htake := congrArg (List.take k) hb
    rw [View.bytes_eq_take_room, View.bytes_eq_take_room, List.take_take, List.take_take,
      hc.length_eq, Nat.min_eq_left hk] at htake
    exact htake
  rw [hroom hc.bytes_eq, hroom hc'.bytes_eq]
  exact h.agree _ List.mem_cons_self

theorem own (h : Twins (⟨v, k⟩ :: gs) m m') (hk : k ≤ v.length) :
    Twins (⟨(v.own m).1, k⟩ :: gs) (v.own m).2 (v.own m').2 := by
  obtain ⟨hv, ha⟩ := h.alike.own v
  obtain ⟨hc, -⟩ := View.continues_own h.held
  obtain ⟨hc', -⟩ := View.continues_own h.held'
  rw [hv] at hc'
  exact h.of_continues ha hc hc' hk

theorem ensure (h : Twins (⟨v, k⟩ :: gs) m m') (hk : k ≤ v.length) (n : Nat) :
    Twins (⟨(v.ensure n m).1, k⟩ :: gs) (v.ensure n m).2 (v.ensure n m').2 := by
  obtain ⟨hv, ha⟩ := h.alike.ensure v n
  obtain ⟨hc, -⟩ := View.continues_ensure h.held n
  obtain ⟨hc', -⟩ := View.continues_ensure h.held' n
  rw [hv] at hc'
  exact h.of_continues ha hc hc' hk

/-- **Writing** within or right behind what was filled. -/
theorem write (h : Twins (⟨v, k⟩ :: gs) m m') (hk : k ≤ v.length) (hp : p ≤ k)
    (hfit : p + bs.length ≤ v.capacity m) :
    Twins (⟨(v.write p bs m).1, max k (p + bs.length)⟩ :: gs) (v.write p bs m).2
      (v.write p bs m').2 := by
  obtain ⟨hv, ha⟩ := h.alike.write v p bs
  obtain ⟨hh, hkeep⟩ := View.held_write h.held p bs
  obtain ⟨-, hkeep'⟩ := View.held_write h.held' p bs
  have hown := Nat.le_trans hfit (View.le_capacity_own h.held)
  have hown' : p + bs.length ≤ (v.own m').1.capacity (v.own m').2 := by
    rw [← h.alike.capacity_eq] at hfit
    exact Nat.le_trans hfit (View.le_capacity_own h.held')
  have hle : v.length ≤ (v.own m).1.capacity (v.own m).2 :=
    Nat.le_trans (h.held.le_capacity List.mem_cons_self) (View.le_capacity_own h.held)
  have hle' : v.length ≤ (v.own m').1.capacity (v.own m').2 :=
    Nat.le_trans (h.held'.le_capacity List.mem_cons_self) (View.le_capacity_own h.held')
  have hroom := View.room_write h.held hown
  have hroom' := View.room_write h.held' hown'
  rw [hv] at hroom'
  refine cons ha hh h.agree.of_cons hkeep hkeep' ?_
  simp only
  rw [← View.length_room] at hle hle'
  rw [hroom, hroom', Bytes.take_splice_max hp (Nat.le_trans hk hle),
    Bytes.take_splice_max hp (Nat.le_trans hk hle')]
  -- in front of what is written there is what was filled before
  have howned := (h.own hk).agree _ List.mem_cons_self
  rw [(h.alike.own v).1]
  exact congrArg (fun before => Bytes.splice before p bs) howned

/-! ### The same of all that a view shows -/

theorem same_own (h : Twins (v.whole :: gs) m m') : Same gs (v.own m) (v.own m') := by
  have hlen := (View.continues_own h.holds).1.length_eq
  refine ⟨(h.alike.own v).1, ?_⟩
  have ho := h.own (Nat.le_refl _)
  rw [← hlen] at ho
  exact ho

theorem same_ensure (h : Twins (v.whole :: gs) m m') (n : Nat) :
    Same gs (v.ensure n m) (v.ensure n m') := by
  have hlen := (View.continues_ensure h.holds n).1.length_eq
  refine ⟨(h.alike.ensure v n).1, ?_⟩
  have he := h.ensure (Nat.le_refl _) n
  rw [← hlen] at he
  exact he

theorem same_write (h : Twins (v.whole :: gs) m m') (hp : p + bs.length ≤ v.length) :
    Same gs (v.write p bs m) (v.write p bs m') := by
  have hle := h.holds.le_capacity List.mem_cons_self
  have hlen := View.length_write h.holds p bs
  refine ⟨(h.alike.write v p bs).1, ?_⟩
  have hw := h.write (Nat.le_refl _) (Nat.le_trans (Nat.le_add_right _ _) hp)
    (Nat.le_trans hp hle)
  rw [Nat.max_eq_left hp, ← hlen] at hw
  exact hw

/-- **Setting the length**: a view that gets longer shows bytes that were not filled yet. -/
theorem setLength (h : Twins (v.whole :: gs) m m') (n : Nat) :
    (v.setLength n m').1 = (v.setLength n m).1 ∧
      Twins (⟨(v.setLength n m).1, min v.length n⟩ :: gs) (v.setLength n m).2
        (v.setLength n m').2 := by
  have hs := h.same_ensure n
  obtain ⟨hc, -⟩ := View.continues_ensure h.holds n
  refine ⟨congrArg (fun v => { v with length := n }) hs.value_eq, ?_⟩
  refine Twins.restrict hs.twins rfl (Nat.le_refl _) ?_ ?_
  · have hlen := hc.length_eq
    show (v.ensure n m).1.offset + min v.length n ≤
      (v.ensure n m).1.offset + (v.ensure n m).1.length
    omega
  · exact (View.held_setLength h.holds n).1.inBounds _ List.mem_cons_self

theorem same_setLength (h : Twins (v.whole :: gs) m m') (hn : n ≤ v.length) :
    Same gs (v.setLength n m) (v.setLength n m') := by
  obtain ⟨hv, hs⟩ := h.setLength n
  rw [Nat.min_eq_right hn] at hs
  exact ⟨hv, hs⟩

/-- **Resizing** fills what comes to be shown. -/
theorem same_resize (h : Twins (v.whole :: gs) m m') (n : Nat) (fill : UInt8) :
    Same gs (v.resize n fill m) (v.resize n fill m') := by
  obtain ⟨hv, hs⟩ := h.setLength n
  have hcap := hs.held.le_capacity List.mem_cons_self
  unfold View.resize
  simp only [hv]
  split_ifs with hlt
  · rw [Nat.min_eq_left (Nat.le_of_lt hlt)] at hs
    have hend : v.length + (List.replicate (n - v.length) fill).length = n := by
      rw [List.length_replicate]
      omega
    have hfit : v.length + (List.replicate (n - v.length) fill).length ≤
        (v.setLength n m).1.capacity (v.setLength n m).2 := by
      rw [hend]
      exact hcap
    have hw := hs.write (Nat.le_of_lt hlt) (Nat.le_refl _) hfit
    rw [hend, Nat.max_eq_right (Nat.le_of_lt hlt)] at hw
    have hlen := View.length_write hs.held v.length (List.replicate (n - v.length) fill)
    refine ⟨(hs.alike.write _ _ _).1, ?_⟩
    rw [View.length_setLength] at hlen
    simp only [Holder.view, View.whole, hlen]
    exact hw
  · rw [Nat.min_eq_right (Nat.le_of_not_lt hlt)] at hs
    exact ⟨rfl, hs⟩

end Twins

end Memory

end Tandem
