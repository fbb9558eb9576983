import Tandem.Memory.Basic
import Tandem.Proofs.Memory.Pool
import Mathlib.Tactic.ByContra

/-!
# What becomes of the arrays

Making an array, adding and taking away a handle and overwriting bytes each change the block or the
handle count of one array.  The laws below say so in terms of `Memory.block` and `Memory.handles`;
later modules use nothing else of these operations.  `Memory.WellFormed` holds of the memory of a
process at all times.
-/

namespace Tandem

namespace Memory

/-- The pools of all threads are sound, a name that was not given out yet is not in use, and every
array in use has a handle on it. -/
structure WellFormed (m : Memory) : Prop where
  sound : ∀ t c, m.caches.get? t = some c → c.pool.Sound
  fresh : ∀ a, m.arrays ≤ a → m.cells.get? a = none
  held : ∀ a c, m.cells.get? a = some c → 0 < c.handles

variable {m : Memory} {a b : ArrayId}

theorem wellFormed_initial : initial.WellFormed where
  sound t c h := by simp [initial] at h
  fresh a _ := rfl
  held a c h := by simp [initial] at h

/-! ### Lookups -/

theorem cells_create (m : Memory) (n : Nat) (b : ArrayId) :
    (m.create n).2.cells.get? b =
      if b = m.arrays then some ⟨(m.cache.pool.acquire n).1, 1⟩ else m.cells.get? b := by
  simp only [create, Table.get?_set]

theorem cells_retain (m : Memory) (a b : ArrayId) :
    (m.retain a).cells.get? b =
      if b = a then (m.cells.get? a).map fun c => { c with handles := c.handles + 1 }
      else m.cells.get? b := by
  unfold retain
  split
  · next h => split_ifs with hb <;> simp_all
  · next c h => simp only [Table.get?_set, h, Option.map_some]

theorem cells_release (m : Memory) (a b : ArrayId) :
    (m.release a).cells.get? b =
      if b = a then
        (m.cells.get? a).bind fun c =>
          if c.handles ≤ 1 then none else some { c with handles := c.handles - 1 }
      else m.cells.get? b := by
  unfold release
  split
  · next h => split_ifs with hb <;> simp_all
  · next c h =>
    by_cases hc : c.handles ≤ 1
    · simp only [hc, ↓reduceIte, Table.get?_erase, h, Option.bind_some]
    · simp only [hc, ↓reduceIte, Table.get?_set, h, Option.bind_some]

theorem cells_overwrite (m : Memory) (a b : ArrayId) (p : Nat) (bs : Bytes) :
    (m.overwrite a p bs).cells.get? b =
      if b = a then (m.cells.get? a).map fun c => { c with block := c.block.overwrite p bs }
      else m.cells.get? b := by
  unfold overwrite
  split
  · next h => split_ifs with hb <;> simp_all
  · next c h => simp only [Table.get?_set, h, Option.map_some]

theorem exists_cell (h : 0 < m.handles a) :
    ∃ c, m.cells.get? a = some c ∧ m.block a = c.block ∧ m.handles a = c.handles := by
  cases hc : m.cells.get? a with
  | none => simp [handles, hc] at h
  | some c => exact ⟨c, rfl, by simp [block, hc], by simp [handles, hc]⟩

theorem WellFormed.lt_arrays (hm : m.WellFormed) (h : 0 < m.handles a) : a < m.arrays := by
  obtain ⟨c, hc, -⟩ := exists_cell h
  by_contra hlt
  rw [hm.fresh a (Nat.le_of_not_lt hlt)] at hc
  cases hc

theorem WellFormed.cache_sound (hm : m.WellFormed) : m.cache.pool.Sound := by
  unfold cache
  cases hc : m.caches.get? m.thread with
  | none => exact BlockPool.sound_empty _
  | some c => exact hm.sound _ c hc

/-! ### Handles -/

theorem handles_create (m : Memory) (n : Nat) (b : ArrayId) :
    (m.create n).2.handles b = if b = m.arrays then 1 else m.handles b := by
  rw [handles, cells_create]
  split_ifs <;> rfl

theorem handles_retain (h : 0 < m.handles a) (b : ArrayId) :
    (m.retain a).handles b = if b = a then m.handles a + 1 else m.handles b := by
  obtain ⟨c, hc, -, hh⟩ := exists_cell h
  rw [handles, cells_retain, hc, hh]
  split_ifs <;> rfl

theorem handles_release (m : Memory) (a b : ArrayId) :
    (m.release a).handles b = if b = a then m.handles a - 1 else m.handles b := by
  rw [handles, cells_release]
  split_ifs with hb
  · cases hc : m.cells.get? a with
    | none => simp [handles, hc]
    | some c =>
      by_cases h1 : c.handles ≤ 1
      · simp only [Option.bind_some, h1, ↓reduceIte, Option.map_none, Option.getD_none, handles, hc,
          Option.map_some, Option.getD_some]
        omega
      · simp [handles, hc, h1]
  · rfl

@[simp] theorem handles_overwrite (m : Memory) (a b : ArrayId) (p : Nat) (bs : Bytes) :
    (m.overwrite a p bs).handles b = m.handles b := by
  rw [handles, cells_overwrite, handles]
  split_ifs with hb
  · subst hb
    cases m.cells.get? b <;> rfl
  · rfl

/-! ### Blocks -/

theorem block_create_of_ne (n : Nat) (h : b ≠ m.arrays) :
    (m.create n).2.block b = m.block b := by
  simp [block, cells_create, h]

/-- **A new array** is at least as long as was asked for. -/
theorem WellFormed.le_length_create (hm : m.WellFormed) (n : Nat) :
    n ≤ ((m.create n).2.block m.arrays).length := by
  simpa [block, cells_create] using BlockPool.le_length_acquire hm.cache_sound n

@[simp] theorem block_retain (m : Memory) (a b : ArrayId) : (m.retain a).block b = m.block b := by
  rw [block, cells_retain, block]
  split_ifs with hb
  · subst hb
    cases m.cells.get? b <;> rfl
  · rfl

theorem block_release (h : b = a → 1 < m.handles a) : (m.release a).block b = m.block b := by
  rw [block, cells_release]
  split_ifs with hb
  · have h2 := h hb
    obtain ⟨c, hc, hbl, hh⟩ := exists_cell (m := m) (a := a) (by omega)
    have h1 : ¬ c.handles ≤ 1 := by omega
    simp [hb, hc, h1, hbl]
  · rfl

theorem block_overwrite (h : 0 < m.handles a) (b : ArrayId) (p : Nat) (bs : Bytes) :
    (m.overwrite a p bs).block b = if b = a then (m.block a).overwrite p bs else m.block b := by
  obtain ⟨c, hc, hbl, -⟩ := exists_cell h
  rw [block, cells_overwrite, hc, hbl]
  split_ifs <;> rfl

/-! ### Well-formed memory stays so -/

theorem sound_setCache {c : Cache} (hm : m.WellFormed) (hc : c.pool.Sound) (t : ThreadId)
    (d : Cache) (hd : (m.setCache c).caches.get? t = some d) : d.pool.Sound := by
  simp only [setCache, Table.get?_set] at hd
  split_ifs at hd with ht
  · cases hd; exact hc
  · exact hm.sound t d hd

theorem WellFormed.create (hm : m.WellFormed) (n : Nat) : (m.create n).2.WellFormed where
  sound := sound_setCache hm (BlockPool.sound_acquire hm.cache_sound n)
  fresh a ha := by
    have hlt : m.arrays < a := ha
    rw [cells_create, if_neg (Nat.ne_of_gt hlt)]
    exact hm.fresh a (Nat.le_of_lt hlt)
  held a c hc := by
    rw [cells_create] at hc
    split_ifs at hc
    · cases hc; exact Nat.zero_lt_one
    · exact hm.held a c hc

theorem WellFormed.miss (hm : m.WellFormed) : m.miss.WellFormed where
  sound := sound_setCache hm hm.cache_sound
  fresh := hm.fresh
  held := hm.held

theorem WellFormed.retain (hm : m.WellFormed) (a : ArrayId) : (m.retain a).WellFormed where
  sound := by
    have h : (m.retain a).caches = m.caches := by unfold Memory.retain; split <;> rfl
    rw [h]
    exact hm.sound
  fresh b hb := by
    have h : (m.retain a).arrays = m.arrays := by unfold Memory.retain; split <;> rfl
    rw [h] at hb
    rw [cells_retain, hm.fresh b hb]
    split_ifs with hab
    · rw [← hab, hm.fresh b hb]; rfl
    · rfl
  held b c hc := by
    rw [cells_retain] at hc
    split_ifs at hc
    · obtain ⟨d, -, rfl⟩ := Option.map_eq_some_iff.1 hc
      exact Nat.succ_pos _
    · exact hm.held b c hc

theorem WellFormed.release (hm : m.WellFormed) (a : ArrayId) : (m.release a).WellFormed where
  sound := by
    unfold Memory.release
    split
    · exact hm.sound
    · split
      · exact sound_setCache hm (BlockPool.sound_release hm.cache_sound _)
      · exact hm.sound
  fresh b hb := by
    have h : (m.release a).arrays = m.arrays := by
      unfold Memory.release; split
      · rfl
      · split <;> rfl
    rw [h] at hb
    rw [cells_release, hm.fresh b hb]
    split_ifs with hab
    · rw [← hab, hm.fresh b hb]; rfl
    · rfl
  held b c hc := by
    rw [cells_release] at hc
    split_ifs at hc
    · obtain ⟨d, -, hd⟩ := Option.bind_eq_some_iff.1 hc
      split_ifs at hd with h1
      cases hd
      exact Nat.sub_pos_of_lt (Nat.lt_of_not_le h1)
    · exact hm.held b c hc

theorem WellFormed.overwrite (hm : m.WellFormed) (a : ArrayId) (p : Nat) (bs : Bytes) :
    (m.overwrite a p bs).WellFormed where
  sound := by
    have h : (m.overwrite a p bs).caches = m.caches := by
      unfold Memory.overwrite; split <;> rfl
    rw [h]
    exact hm.sound
  fresh b hb := by
    have h : (m.overwrite a p bs).arrays = m.arrays := by
      unfold Memory.overwrite; split <;> rfl
    rw [h] at hb
    rw [cells_overwrite, hm.fresh b hb]
    split_ifs with hab
    · rw [← hab, hm.fresh b hb]; rfl
    · rfl
  held b c hc := by
    rw [cells_overwrite] at hc
    split_ifs at hc
    · obtain ⟨d, hd, rfl⟩ := Option.map_eq_some_iff.1 hc
      exact hm.held a d hd
    · exact hm.held b c hc

end Memory

end Tandem
