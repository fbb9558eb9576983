import Tandem.Proofs.Memory.Holding

/-!
# Operations on views

The laws of the operations, each for a list `v :: vs` of views that hold their arrays.  An operation
that moves the bytes of a view to another array, or may do so, leaves a view that `Continues` the
old one: it shows the same bytes, has at least the same room, and nothing of it can be seen through
`vs`.  The operations that change bytes are described on top of that.
-/

namespace Tandem

open Memory (HeldBy Keeps)

namespace View

/-- `v'` in `m'` goes on as `v` in `m` did, and the views beside it see nothing of it. -/
structure Continues (vs : List View) (v : View) (m : Memory) (v' : View) (m' : Memory) : Prop where
  held : m'.HeldBy (v' :: vs)
  keeps : Keeps vs m m'
  length_eq : v'.length = v.length
  bytes_eq : v'.bytes m' = v.bytes m
  le_capacity : v.capacity m ≤ v'.capacity m'

variable {m : Memory} {v : View} {vs : List View} {n p : Nat} {bs : Bytes}

theorem Continues.refl (h : m.HeldBy (v :: vs)) : Continues vs v m v m :=
  ⟨h, .refl vs m, rfl, rfl, Nat.le_refl _⟩

/-! ### Making and letting go of views -/

theorem held_create (h : m.HeldBy vs) (n : Nat) :
    (create n m).2.HeldBy ((create n m).1 :: vs) ∧ Keeps vs m (create n m).2 :=
  h.create (Nat.zero_le n)

theorem bytes_create (n : Nat) (m : Memory) : (create n m).1.bytes (create n m).2 = [] := by
  rw [bytes_eq_take_room]
  rfl

theorem held_fill (h : m.HeldBy vs) (bs : Bytes) (hn : bs.length ≤ n) :
    ((m.create n).2.overwrite m.arrays 0 bs).HeldBy (⟨m.arrays, 0, bs.length⟩ :: vs) ∧
      Keeps vs m ((m.create n).2.overwrite m.arrays 0 bs) ∧
      View.bytes ⟨m.arrays, 0, bs.length⟩ ((m.create n).2.overwrite m.arrays 0 bs) = bs ∧
      n ≤ View.capacity ⟨m.arrays, 0, bs.length⟩ ((m.create n).2.overwrite m.arrays 0 bs) := by
  obtain ⟨h₁, k₁⟩ := h.create hn
  obtain ⟨h₂, k₂⟩ := h₁.overwrite (fun u hu => h.ne_arrays hu) 0 bs
  have hlen : n ≤ View.capacity ⟨m.arrays, 0, bs.length⟩ (m.create n).2 :=
    h.wellFormed.le_length_create n
  have hroom := h₁.room_overwrite 0 bs (by omega)
  simp only [Nat.add_zero] at hroom
  refine ⟨h₂, k₁.trans k₂, ?_, ?_⟩
  · rw [bytes_eq_take_room, hroom]
    simp [Bytes.splice]
  · rw [← length_room, hroom, Bytes.length_splice_eq_max (Nat.zero_le _), length_room]
    omega

theorem held_ofBytes (h : m.HeldBy vs) (bs : Bytes) :
    (ofBytes bs m).2.HeldBy ((ofBytes bs m).1 :: vs) ∧ Keeps vs m (ofBytes bs m).2 :=
  let h' := held_fill h bs (Nat.le_refl _)
  ⟨h'.1, h'.2.1⟩

theorem bytes_ofBytes (h : m.HeldBy vs) (bs : Bytes) :
    (ofBytes bs m).1.bytes (ofBytes bs m).2 = bs :=
  (held_fill h bs (Nat.le_refl _)).2.2.1

theorem held_clone (h : m.HeldBy (v :: vs)) {u : View} (ha : u.array = v.array)
    (hb : u.offset + u.length ≤ v.offset + v.length) :
    (v.clone m).HeldBy (u :: v :: vs) ∧ Keeps (v :: vs) m (v.clone m) :=
  h.retain ha (Nat.le_trans hb (h.inBounds v List.mem_cons_self))

theorem held_clone_of_mem (h : m.HeldBy vs) (hv : v ∈ vs) {u : View} (ha : u.array = v.array)
    (hb : u.offset + u.length ≤ v.offset + v.length) :
    (v.clone m).HeldBy (u :: vs) ∧ Keeps vs m (v.clone m) := by
  have hperm := List.perm_cons_erase hv
  obtain ⟨hh, keep⟩ := held_clone (h.perm hperm) ha hb
  exact ⟨hh.perm (hperm.symm.cons u), keep.mono hperm.subset⟩

theorem held_drop (h : m.HeldBy (v :: vs)) : (v.drop m).HeldBy vs ∧ Keeps vs m (v.drop m) :=
  h.release

/-! ### Moving the bytes of a view -/

/-- **Moving** the bytes of a view to a longer array.  The view is the only one of the new array. -/
theorem continues_relocate (h : m.HeldBy (v :: vs)) (hn : v.capacity m ≤ n) :
    Continues vs v m (v.relocate n m).1 (v.relocate n m).2 ∧
      (v.relocate n m).1.handles (v.relocate n m).2 = 1 ∧
      n ≤ (v.relocate n m).1.capacity (v.relocate n m).2 := by
  have hlen := h.length_bytes List.mem_cons_self
  have hle := h.le_capacity List.mem_cons_self
  obtain ⟨h₁, k₁, b₁, c₁⟩ := held_fill h (v.bytes m) (n := n) (by omega)
  rw [hlen] at h₁ b₁ c₁
  obtain ⟨h₂, k₂⟩ := (h₁.perm (.swap _ _ _)).release
  have hmem : (⟨m.arrays, 0, v.length⟩ : View) ∈ ⟨m.arrays, 0, v.length⟩ :: vs :=
    List.mem_cons_self
  have hcap := k₂.capacity_eq hmem
  refine ⟨⟨h₂, k₁.of_cons.trans k₂.of_cons, rfl, (k₂.bytes_eq hmem).trans b₁, ?_⟩, ?_, ?_⟩
  · exact Nat.le_trans (Nat.le_trans hn c₁) (Nat.le_of_eq hcap.symm)
  · -- the new array has a name that no view had
    have hz : holders vs m.arrays = 0 :=
      holders_eq_zero.2 fun u hu => h.ne_arrays (List.mem_cons_of_mem v hu)
    have hh := h₂.handles_eq _ List.mem_cons_self
    rw [holders_cons, if_pos rfl, hz] at hh
    exact hh
  · exact Nat.le_trans c₁ (Nat.le_of_eq hcap.symm)

/-- **Owning.**  After it the view is the only one of its array. -/
theorem continues_own (h : m.HeldBy (v :: vs)) :
    Continues vs v m (v.own m).1 (v.own m).2 ∧ (v.own m).1.handles (v.own m).2 = 1 := by
  unfold own
  split_ifs with h1
  · exact ⟨.refl h, h1⟩
  · obtain ⟨hc, h1, -⟩ := continues_relocate h (Nat.le_refl (v.capacity m))
    exact ⟨hc, h1⟩

/-- **Making room.** -/
theorem continues_ensure (h : m.HeldBy (v :: vs)) (n : Nat) :
    Continues vs v m (v.ensure n m).1 (v.ensure n m).2 ∧
      n ≤ (v.ensure n m).1.capacity (v.ensure n m).2 := by
  unfold ensure
  split_ifs with hn
  · exact ⟨.refl h, hn⟩
  · obtain ⟨hc, -, hle⟩ := continues_relocate h (n := n) (by omega)
    exact ⟨hc, hle⟩

/-! ### Cutting views -/

theorem held_setLength (h : m.HeldBy (v :: vs)) (n : Nat) :
    (v.setLength n m).2.HeldBy ((v.setLength n m).1 :: vs) ∧
      Keeps vs m (v.setLength n m).2 := by
  obtain ⟨hc, hn⟩ := continues_ensure h n
  refine ⟨hc.held.restrict rfl ?_, hc.keeps⟩
  have := hc.held.inBounds _ List.mem_cons_self
  unfold capacity at hn
  show (v.ensure n m).1.offset + n ≤ _
  omega

@[simp] theorem length_setLength (v : View) (n : Nat) (m : Memory) :
    (v.setLength n m).1.length = n := rfl

/-- **Setting the length** keeps what the old and the new bytes have in common. -/
theorem take_bytes_setLength (h : m.HeldBy (v :: vs)) (n : Nat) :
    ((v.setLength n m).1.bytes (v.setLength n m).2).take v.length = (v.bytes m).take n := by
  obtain ⟨hc, -⟩ := continues_ensure h n
  rw [← hc.bytes_eq, ← hc.length_eq, bytes_eq_take_room, bytes_eq_take_room, List.take_take,
    List.take_take, Nat.min_comm]
  rfl

theorem setLength_of_le (hn : n ≤ v.capacity m) :
    v.setLength n m = ({ v with length := n }, m) := by
  simp [setLength, ensure, hn]

theorem held_truncate (h : m.HeldBy (v :: vs)) (n : Nat) : m.HeldBy (v.truncate n :: vs) := by
  refine h.restrict rfl ?_
  have := h.inBounds v List.mem_cons_self
  simp only [truncate]
  omega

theorem bytes_truncate (v : View) (n : Nat) (m : Memory) :
    (v.truncate n).bytes m = (v.bytes m).take n := by
  rw [bytes_eq_take_room, bytes_eq_take_room, List.take_take, Nat.min_comm]
  rfl

theorem advance_eq_ok_iff {v' : View} :
    v.advance n = .ok v' ↔
      n ≤ v.length ∧ v' = { v with offset := v.offset + n, length := v.length - n } := by
  unfold advance
  split_ifs with hn
  · simp [hn, eq_comm]
  · simp [hn]

theorem held_skip (h : m.HeldBy (v :: vs)) (hn : n ≤ v.length) :
    m.HeldBy ({ v with offset := v.offset + n, length := v.length - n } :: vs) := by
  refine h.restrict rfl ?_
  have := h.inBounds v List.mem_cons_self
  simp only
  omega

theorem bytes_skip (v : View) (n : Nat) (m : Memory) :
    ({ v with offset := v.offset + n, length := v.length - n } : View).bytes m =
      (v.bytes m).drop n := by
  rw [bytes_eq_take_room, bytes_eq_take_room, List.drop_take, room, room, List.drop_drop]

/-! ### Writing -/

theorem held_write (h : m.HeldBy (v :: vs)) (p : Nat) (bs : Bytes) :
    (v.write p bs m).2.HeldBy ((v.write p bs m).1 :: vs) ∧ Keeps vs m (v.write p bs m).2 := by
  obtain ⟨hc, h1⟩ := continues_own h
  obtain ⟨hh, hk⟩ := hc.held.overwrite (hc.held.ne_of_handles h1) ((v.own m).1.offset + p) bs
  exact ⟨hh, hc.keeps.trans hk⟩

theorem length_write (h : m.HeldBy (v :: vs)) (p : Nat) (bs : Bytes) :
    (v.write p bs m).1.length = v.length :=
  (continues_own h).1.length_eq

theorem le_capacity_own (h : m.HeldBy (v :: vs)) :
    v.capacity m ≤ (v.own m).1.capacity (v.own m).2 :=
  (continues_own h).1.le_capacity

/-- **Writing** overwrites what there is room for, whether it can be seen or not. -/
theorem room_write (h : m.HeldBy (v :: vs))
    (hp : p + bs.length ≤ (v.own m).1.capacity (v.own m).2) :
    (v.write p bs m).1.room (v.write p bs m).2 =
      ((v.own m).1.room (v.own m).2).splice p bs :=
  (continues_own h).1.held.room_overwrite p bs hp

theorem le_capacity_write (h : m.HeldBy (v :: vs))
    (hp : p + bs.length ≤ (v.own m).1.capacity (v.own m).2) :
    v.capacity m ≤ (v.write p bs m).1.capacity (v.write p bs m).2 := by
  have hle := le_capacity_own h
  rw [← length_room (v.write p bs m).1, room_write h hp,
    Bytes.length_splice_eq_max (by rw [length_room]; omega), length_room]
  omega

theorem bytes_write (h : m.HeldBy (v :: vs))
    (hp : p + bs.length ≤ (v.own m).1.capacity (v.own m).2) :
    (v.write p bs m).1.bytes (v.write p bs m).2 = ((v.bytes m).splice p bs).take v.length := by
  obtain ⟨hc, -⟩ := continues_own h
  have hle := h.le_capacity List.mem_cons_self
  rw [bytes_eq_take_room, length_write h, room_write h hp, Bytes.take_splice, ← hc.bytes_eq,
    bytes_eq_take_room, hc.length_eq]
  exact Nat.le_trans (Nat.le_trans hle hc.le_capacity) (Nat.le_of_eq (length_room _ _).symm)

theorem take_room_write (h : m.HeldBy (v :: vs))
    (hp : p + bs.length ≤ (v.own m).1.capacity (v.own m).2) (hv : p ≤ v.length) :
    ((v.write p bs m).1.room (v.write p bs m).2).take (max v.length (p + bs.length)) =
      (v.bytes m).splice p bs := by
  obtain ⟨hc, -⟩ := continues_own h
  have hle := h.le_capacity List.mem_cons_self
  rw [room_write h hp, Bytes.take_splice_max hv, ← hc.bytes_eq, bytes_eq_take_room, hc.length_eq]
  exact Nat.le_trans (Nat.le_trans hle hc.le_capacity) (Nat.le_of_eq (length_room _ _).symm)

/-! ### Resizing -/

theorem held_resize (h : m.HeldBy (v :: vs)) (n : Nat) (fill : UInt8) :
    (v.resize n fill m).2.HeldBy ((v.resize n fill m).1 :: vs) ∧
      Keeps vs m (v.resize n fill m).2 := by
  obtain ⟨hs, ks⟩ := held_setLength h n
  unfold resize
  simp only
  split_ifs
  · obtain ⟨hw, kw⟩ := held_write hs v.length (List.replicate (n - v.length) fill)
    exact ⟨hw, ks.trans kw⟩
  · exact ⟨hs, ks⟩

/-- **Resizing** cuts the bytes of a view or fills the new ones. -/
theorem bytes_resize (h : m.HeldBy (v :: vs)) (n : Nat) (fill : UInt8) :
    (v.resize n fill m).1.bytes (v.resize n fill m).2 =
      (v.bytes m).take n ++ List.replicate (n - v.length) fill := by
  have hlen := h.length_bytes List.mem_cons_self
  obtain ⟨hs, -⟩ := held_setLength h n
  have hlen' := hs.length_bytes List.mem_cons_self
  have htake := take_bytes_setLength h n
  have hroom := hs.le_capacity List.mem_cons_self
  rw [length_setLength] at hlen' hroom
  unfold resize
  simp only
  split_ifs with hlt
  · have hfit : v.length + (List.replicate (n - v.length) fill).length ≤
        (v.setLength n m).1.capacity (v.setLength n m).2 := by
      rw [List.length_replicate]; omega
    rw [bytes_write hs (Nat.le_trans hfit (le_capacity_own hs)), length_setLength, Bytes.splice,
      htake, List.drop_of_length_le (by rw [List.length_replicate]; omega), List.append_nil,
      List.take_of_length_le]
    simp only [List.length_append, List.length_take, List.length_replicate]
    omega
  · rw [show n - v.length = 0 by omega, List.replicate_zero, List.append_nil, ← htake,
      List.take_of_length_le (by omega)]

end View

end Tandem
