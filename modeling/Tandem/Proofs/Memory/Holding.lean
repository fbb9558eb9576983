import Tandem.View
import Tandem.Proofs.Bytes
import Tandem.Proofs.Memory.Arrays

/-!
# Views of arrays that nobody else holds

`Memory.HeldBy m vs` says that the views `vs` are all that holds their arrays, each within its
bounds: the handle count of each of the arrays is the number of the views on it.  Every operation on
a view is described by what it makes of a list `v :: vs`: the new list holds its arrays again, the
arrays of `vs` keep their blocks (`Memory.Keeps`), and the bytes of `v` change as if it had them for
itself.  The list `vs` may hold anything, so that a law about one view is a law about every
collection that the view is part of.

The law that all others rest on is `HeldBy.own`: a view that is the only one of its array, be it so
already or only after its bytes were moved, can be overwritten without any other view seeing it.
-/

namespace Tandem

/-- The number of views on an array. -/
def View.holders (vs : List View) (a : ArrayId) : Nat := (vs.map View.array).count a

namespace Memory

/-- The views are all that holds their arrays, and each lies within its array. -/
structure HeldBy (m : Memory) (vs : List View) : Prop where
  wellFormed : m.WellFormed
  handles_eq : ∀ v ∈ vs, m.handles v.array = View.holders vs v.array
  inBounds : ∀ v ∈ vs, v.offset + v.length ≤ (m.block v.array).length

/-- The arrays of the views hold the same as before. -/
def Keeps (vs : List View) (m m' : Memory) : Prop := ∀ v ∈ vs, m'.block v.array = m.block v.array

end Memory

namespace View

/-- What an array holds from the start of a view on. -/
def room (v : View) (m : Memory) : Bytes := (m.block v.array).bytes.drop v.offset

theorem length_room (v : View) (m : Memory) : (v.room m).length = v.capacity m := by
  simp [room, capacity]

theorem bytes_eq_take_room (v : View) (m : Memory) : v.bytes m = (v.room m).take v.length := by
  rw [bytes, Memory.Block.slice_eq]
  rfl

theorem holders_cons (v : View) (vs : List View) (a : ArrayId) :
    holders (v :: vs) a = holders vs a + if v.array = a then 1 else 0 := by
  simp [holders, List.count_cons]

theorem holders_perm {vs us : List View} (h : vs.Perm us) (a : ArrayId) :
    holders vs a = holders us a :=
  (h.map View.array).count_eq a

theorem holders_pos {v : View} {vs : List View} (h : v ∈ vs) : 0 < holders vs v.array :=
  List.count_pos_iff.2 (List.mem_map_of_mem h)

theorem holders_eq_zero {vs : List View} {a : ArrayId} :
    holders vs a = 0 ↔ ∀ v ∈ vs, v.array ≠ a := by
  simp [holders, List.count_eq_zero]

end View

namespace Memory

variable {m m' m'' : Memory} {v u : View} {vs us : List View} {n : Nat}

open View (holders holders_cons holders_perm holders_pos holders_eq_zero)

/-! ### Keeping -/

theorem Keeps.refl (vs : List View) (m : Memory) : Keeps vs m m := fun _ _ => rfl

theorem Keeps.trans (h : Keeps vs m m') (h' : Keeps vs m' m'') : Keeps vs m m'' :=
  fun v hv => (h' v hv).trans (h v hv)

theorem Keeps.mono (h : Keeps vs m m') (hs : us ⊆ vs) : Keeps us m m' := fun v hv => h v (hs hv)

theorem Keeps.of_cons (h : Keeps (v :: vs) m m') : Keeps vs m m' :=
  h.mono (List.subset_cons_self v vs)

theorem keeps_append : Keeps (vs ++ us) m m' ↔ Keeps vs m m' ∧ Keeps us m m' :=
  List.forall_mem_append

theorem Keeps.bytes_eq (h : Keeps vs m m') (hv : v ∈ vs) : v.bytes m' = v.bytes m := by
  simp [View.bytes, h v hv]

theorem Keeps.capacity_eq (h : Keeps vs m m') (hv : v ∈ vs) : v.capacity m' = v.capacity m := by
  simp [View.capacity, h v hv]

/-! ### Holding -/

theorem WellFormed.heldBy_nil (h : m.WellFormed) : m.HeldBy [] :=
  ⟨h, by simp, by simp⟩

theorem HeldBy.perm (h : m.HeldBy vs) (hp : vs.Perm us) : m.HeldBy us where
  wellFormed := h.wellFormed
  handles_eq v hv := by rw [h.handles_eq v (hp.mem_iff.2 hv), holders_perm hp]
  inBounds v hv := h.inBounds v (hp.mem_iff.2 hv)

theorem HeldBy.handles_pos (h : m.HeldBy vs) (hv : v ∈ vs) : 0 < m.handles v.array := by
  rw [h.handles_eq v hv]
  exact holders_pos hv

theorem HeldBy.lt_arrays (h : m.HeldBy vs) (hv : v ∈ vs) : v.array < m.arrays :=
  h.wellFormed.lt_arrays (h.handles_pos hv)

theorem HeldBy.ne_arrays (h : m.HeldBy vs) (hv : v ∈ vs) : v.array ≠ m.arrays :=
  Nat.ne_of_lt (h.lt_arrays hv)

theorem HeldBy.le_capacity (h : m.HeldBy vs) (hv : v ∈ vs) : v.length ≤ v.capacity m := by
  have := h.inBounds v hv
  unfold View.capacity
  omega

theorem HeldBy.length_bytes (h : m.HeldBy vs) (hv : v ∈ vs) : (v.bytes m).length = v.length := by
  rw [View.bytes_eq_take_room, List.length_take, View.length_room,
    Nat.min_eq_left (h.le_capacity hv)]

/-- A view with the only handle on its array is the only view on it. -/
theorem HeldBy.ne_of_handles (h : m.HeldBy (v :: vs)) (h1 : v.handles m = 1) :
    ∀ u ∈ vs, u.array ≠ v.array := by
  have hc := h.handles_eq v List.mem_cons_self
  rw [View.handles] at h1
  rw [h1, holders_cons, if_pos rfl] at hc
  exact holders_eq_zero.1 (by omega)

theorem HeldBy.restrict (h : m.HeldBy (v :: vs)) (ha : u.array = v.array)
    (hb : u.offset + u.length ≤ (m.block v.array).length) : m.HeldBy (u :: vs) where
  wellFormed := h.wellFormed
  handles_eq w hw := by
    have hcount : ∀ a, holders (u :: vs) a = holders (v :: vs) a := fun a => by
      rw [holders_cons, holders_cons, ha]
    rw [hcount]
    rcases List.mem_cons.1 hw with rfl | hw
    · rw [ha]; exact h.handles_eq v List.mem_cons_self
    · exact h.handles_eq w (List.mem_cons_of_mem v hw)
  inBounds w hw := by
    rcases List.mem_cons.1 hw with rfl | hw
    · rw [ha]; exact hb
    · exact h.inBounds w (List.mem_cons_of_mem v hw)

/-! ### The four steps on arrays -/

theorem HeldBy.create (h : m.HeldBy vs) {k : Nat} (hk : k ≤ n) :
    (m.create n).2.HeldBy (⟨m.arrays, 0, k⟩ :: vs) ∧ Keeps vs m (m.create n).2 := by
  have hkeep : Keeps vs m (m.create n).2 := fun v hv => block_create_of_ne n (h.ne_arrays hv)
  have hzero : holders vs m.arrays = 0 := holders_eq_zero.2 fun v hv => h.ne_arrays hv
  refine ⟨⟨h.wellFormed.create n, fun v hv => ?_, fun v hv => ?_⟩, hkeep⟩
  · rw [handles_create, holders_cons]
    rcases List.mem_cons.1 hv with rfl | hv
    · simp [hzero]
    · rw [if_neg (h.ne_arrays hv), if_neg (h.ne_arrays hv).symm, h.handles_eq v hv]
      rfl
  · rcases List.mem_cons.1 hv with rfl | hv
    · have := h.wellFormed.le_length_create n
      simp only
      omega
    · rw [hkeep v hv]
      exact h.inBounds v hv

theorem HeldBy.miss (h : m.HeldBy vs) : m.miss.HeldBy vs ∧ Keeps vs m m.miss :=
  ⟨⟨h.wellFormed.miss, h.handles_eq, h.inBounds⟩, fun _ _ => rfl⟩

theorem HeldBy.retain (h : m.HeldBy (v :: vs)) (ha : u.array = v.array)
    (hb : u.offset + u.length ≤ (m.block v.array).length) :
    (m.retain v.array).HeldBy (u :: v :: vs) ∧ Keeps (v :: vs) m (m.retain v.array) := by
  have hpos := h.handles_pos (v := v) List.mem_cons_self
  refine ⟨⟨h.wellFormed.retain _, fun w hw => ?_, fun w hw => ?_⟩, fun w _ => block_retain _ _ _⟩
  · rw [handles_retain hpos, holders_cons, ha]
    have hw' : w.array = v.array ∨ w ∈ v :: vs := by
      rcases List.mem_cons.1 hw with rfl | hw
      · exact .inl ha
      · exact .inr hw
    by_cases hwv : w.array = v.array
    · rw [hwv, if_pos rfl, if_pos rfl, h.handles_eq v List.mem_cons_self]
    · rw [if_neg hwv, if_neg (Ne.symm hwv), h.handles_eq w (hw'.resolve_left hwv)]
      rfl
  · rw [block_retain]
    rcases List.mem_cons.1 hw with rfl | hw
    · rw [ha]; exact hb
    · exact h.inBounds w hw

theorem HeldBy.release (h : m.HeldBy (v :: vs)) :
    (m.release v.array).HeldBy vs ∧ Keeps vs m (m.release v.array) := by
  have hv := h.handles_eq v List.mem_cons_self
  rw [holders_cons, if_pos rfl] at hv
  have hkeep : Keeps vs m (m.release v.array) := fun u hu => block_release fun hua => by
    have := holders_pos hu
    rw [hua] at this
    omega
  refine ⟨⟨h.wellFormed.release _, fun u hu => ?_, fun u hu => ?_⟩, hkeep⟩
  · have hc := h.handles_eq u (List.mem_cons_of_mem v hu)
    rw [holders_cons] at hc
    rw [handles_release]
    by_cases hua : u.array = v.array
    · rw [if_pos hua, hua]; omega
    · rw [if_neg hua, hc, if_neg (Ne.symm hua)]
      rfl
  · rw [hkeep u hu]
    exact h.inBounds u (List.mem_cons_of_mem v hu)

/-- Overwriting an array disturbs only the views on it. -/
theorem HeldBy.overwrite (h : m.HeldBy (v :: vs)) (hne : ∀ u ∈ vs, u.array ≠ v.array) (p : Nat)
    (bs : Bytes) :
    (m.overwrite v.array p bs).HeldBy (v :: vs) ∧ Keeps vs m (m.overwrite v.array p bs) := by
  have hpos := h.handles_pos (v := v) List.mem_cons_self
  have hkeep : Keeps vs m (m.overwrite v.array p bs) := fun u hu => by
    rw [block_overwrite hpos, if_neg (hne u hu)]
  refine ⟨⟨h.wellFormed.overwrite _ _ _, fun u hu => ?_, fun u hu => ?_⟩, hkeep⟩
  · rw [handles_overwrite]
    exact h.handles_eq u hu
  · have := h.inBounds u hu
    rw [block_overwrite hpos]
    split_ifs with hua
    · rwa [Block.length_overwrite, ← hua]
    · exact this

/-- What a view has room for after its array was overwritten within that room. -/
theorem HeldBy.room_overwrite (h : m.HeldBy (v :: vs)) (p : Nat) (bs : Bytes)
    (hp : p + bs.length ≤ v.capacity m) :
    v.room (m.overwrite v.array (v.offset + p) bs) = (v.room m).splice p bs := by
  have hpos := h.handles_pos (v := v) List.mem_cons_self
  have hb := h.inBounds v List.mem_cons_self
  have hl : v.offset + p + bs.length ≤ (m.block v.array).length := by
    unfold View.capacity at hp
    omega
  rw [View.room, block_overwrite hpos, if_pos rfl, Block.bytes_overwrite hl, View.room]
  exact Bytes.drop_splice (by rw [Block.length_bytes]; omega)

end Memory

end Tandem
