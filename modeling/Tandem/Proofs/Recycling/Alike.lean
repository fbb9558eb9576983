import Tandem.Memory.Basic
import Tandem.Proofs.Memory.Arrays

/-!
# Memories that differ in bytes only

Where a block comes from, how long it is and where it goes back to never depends on what it holds.
`blank` forgets what blocks hold, and taking a block, offering one and giving it back commute with
it (`BlockPool.acquire_blank`, `BlockPool.release_blank`).  Two memories are `Alike` that have the
same arrays with the same handles, and the same unused blocks, as far as lengths go.  They stay
alike under every operation, even if different bytes are written to the one and to the other.
-/

namespace Tandem.Memory

/-! ### Blank blocks -/

/-- A zeroed block of the same length. -/
def Block.blank (b : Block) : Block := .zeros b.length

@[simp] theorem Block.length_blank (b : Block) : b.blank.length = b.length := rfl

theorem Block.blank_eq_iff {b b' : Block} : b'.blank = b.blank ↔ b'.length = b.length := by
  constructor
  · intro h
    have hl := congrArg Block.length h
    exact hl
  · intro h
    rw [blank, blank, h]

/-- The blocks of a class, all of them zeroed. -/
def ClassPool.blank (c : ClassPool) : ClassPool :=
  ⟨c.blockSize, ⟨c.blocks.capacity, c.blocks.items.map Block.blank⟩⟩

namespace BlockPool

/-- A pool with all its blocks zeroed. -/
def blank (p : BlockPool) : BlockPool := ⟨p.classes.map ClassPool.blank, p.stats⟩

/-- What is found when all blocks are zeroed. -/
def Found.blank : Found → Found
  | .reused b => .reused b.blank
  | .exhausted n => .exhausted n
  | .tooLong => .tooLong

theorem find_blank (min : Nat) (cs : List ClassPool) :
    find min (cs.map ClassPool.blank) =
      ((find min cs).1.blank, (find min cs).2.map ClassPool.blank) := by
  induction cs with
  | nil => rfl
  | cons c cs ih =>
    obtain ⟨size, capacity, items⟩ := c
    by_cases hle : min ≤ size
    · cases items with
      | nil => simp [find, ClassPool.blank, Pool.take, Found.blank, hle]
      | cons b bs => simp [find, ClassPool.blank, Pool.take, Found.blank, hle]
    · simp only [List.map_cons, find, ClassPool.blank, hle, ↓reduceIte]
      rw [ih]

/-- **Taking** a block does not depend on what blocks hold. -/
theorem acquire_blank (p : BlockPool) (min : Nat) :
    p.blank.acquire min = ((p.acquire min).1.blank, (p.acquire min).2.blank) := by
  simp only [acquire, blank, find_blank]
  rcases find min p.classes with ⟨found, cs⟩
  cases found with
  | reused b => rfl
  | exhausted n => rfl
  | tooLong => rfl

theorem canAcquire_blank (p : BlockPool) (min : Nat) :
    p.blank.canAcquire min = p.canAcquire min := by
  rw [canAcquire, acquire_blank, Block.length_blank, canAcquire]

theorem offer_blank (b : Block) (cs : List ClassPool) :
    offer b.blank (cs.map ClassPool.blank) =
      ((offer b cs).1, (offer b cs).2.map ClassPool.blank) := by
  induction cs with
  | nil => rfl
  | cons c cs ih =>
    simp only [List.map_cons, offer, ih]
    rcases offer b cs with ⟨kept, ds⟩
    cases kept with
    | some kept => rfl
    | none =>
      obtain ⟨size, capacity, items⟩ := c
      by_cases hle : size ≤ b.length
      · by_cases hlt : items.length < capacity
        · simp [ClassPool.blank, Pool.put, Pool.size, hle, hlt]
        · simp [ClassPool.blank, Pool.put, Pool.size, hle, hlt]
      · simp [ClassPool.blank, hle]

theorem release_blank (p : BlockPool) (b : Block) :
    p.blank.release b.blank = (p.release b).blank := by
  simp only [release, blank, offer_blank]
  rcases offer b p.classes with ⟨kept, cs⟩
  match kept with
  | none => rfl
  | some false => rfl
  | some true => rfl

variable {p p' : BlockPool} {b b' : Block}

/-- Pools that differ in bytes only give blocks that differ in bytes only. -/
theorem acquire_congr (h : p'.blank = p.blank) (min : Nat) :
    (p'.acquire min).1.blank = (p.acquire min).1.blank ∧
      (p'.acquire min).2.blank = (p.acquire min).2.blank := by
  have heq := congrArg (fun q => q.acquire min) h
  simp only [acquire_blank, Prod.mk.injEq] at heq
  exact heq

theorem release_congr (h : p'.blank = p.blank) (hb : b'.blank = b.blank) :
    (p'.release b').blank = (p.release b).blank := by
  rw [← release_blank, ← release_blank, h, hb]

theorem sound_of_blank (h : p'.blank = p.blank) (hp : p.Sound) : p'.Sound := by
  have hsound : ∀ q : BlockPool, q.blank.Sound ↔ q.Sound := by
    intro q
    simp [Sound, SoundClasses, blank, ClassPool.blank]
  rw [← hsound, h, hsound]
  exact hp

theorem canAcquire_congr (h : p'.blank = p.blank) (min : Nat) :
    p'.canAcquire min = p.canAcquire min := by
  rw [← canAcquire_blank p', ← canAcquire_blank p, h]

end BlockPool

/-! ### Alike -/

/-- A cache with all its blocks zeroed. -/
def Cache.blank (c : Cache) : Cache := { c with pool := c.pool.blank }

theorem Cache.blank_eq_iff {c c' : Cache} :
    c'.blank = c.blank ↔
      c'.pool.blank = c.pool.blank ∧ c'.created = c.created ∧ c'.recycled = c.recycled := by
  simp only [blank, mk.injEq]

/-- An array with its block zeroed. -/
def Cell.blank (c : Cell) : Cell := { c with block := c.block.blank }

theorem Cell.blank_eq_iff {c c' : Cell} :
    c'.blank = c.blank ↔ c'.block.length = c.block.length ∧ c'.handles = c.handles := by
  simp only [blank, mk.injEq, Block.blank_eq_iff]

/-- Two memories that differ only in what blocks hold. -/
structure Alike (m m' : Memory) : Prop where
  settings_eq : m'.settings = m.settings
  thread_eq : m'.thread = m.thread
  threads_eq : m'.threads = m.threads
  arrays_eq : m'.arrays = m.arrays
  live_eq : m'.live = m.live
  caches (t : ThreadId) : (m'.caches.get? t).map Cache.blank = (m.caches.get? t).map Cache.blank
  cells (a : ArrayId) : (m'.cells.get? a).map Cell.blank = (m.cells.get? a).map Cell.blank

variable {m m' m'' : Memory} {a : ArrayId} {n p p' : Nat} {bs bs' : Bytes}

namespace Alike

theorem refl (m : Memory) : Alike m m :=
  ⟨rfl, rfl, rfl, rfl, rfl, fun _ => rfl, fun _ => rfl⟩

/-! ### What can be said without looking at bytes -/

theorem cell_cases (h : Alike m m') (a : ArrayId) :
    (m.cells.get? a = none ∧ m'.cells.get? a = none) ∨
      ∃ c c', m.cells.get? a = some c ∧ m'.cells.get? a = some c' ∧
        c'.block.length = c.block.length ∧ c'.handles = c.handles := by
  have hcell := h.cells a
  cases hc : m.cells.get? a with
  | none =>
    rw [hc, Option.map_none, Option.map_eq_none_iff] at hcell
    exact .inl ⟨rfl, hcell⟩
  | some c =>
    rw [hc, Option.map_some, Option.map_eq_some_iff] at hcell
    obtain ⟨c', hc', heq⟩ := hcell
    exact .inr ⟨c, c', rfl, hc', Cell.blank_eq_iff.1 heq⟩

theorem handles_eq (h : Alike m m') (a : ArrayId) : m'.handles a = m.handles a := by
  rcases h.cell_cases a with ⟨hc, hc'⟩ | ⟨c, c', hc, hc', -, hh⟩
  · simp only [handles, hc, hc']
  · simp only [handles, hc, hc', Option.map_some, Option.getD_some, hh]

theorem length_block_eq (h : Alike m m') (a : ArrayId) :
    (m'.block a).length = (m.block a).length := by
  rcases h.cell_cases a with ⟨hc, hc'⟩ | ⟨c, c', hc, hc', hl, -⟩
  · simp only [block, hc, hc']
  · simp only [block, hc, hc', Option.map_some, Option.getD_some, hl]

theorem effectiveSettings_eq (h : Alike m m') :
    m'.effectiveSettings = m.effectiveSettings := by
  rw [effectiveSettings, h.settings_eq, effectiveSettings]

theorem cache (h : Alike m m') : m'.cache.blank = m.cache.blank := by
  have hc := h.caches m.thread
  rw [Memory.cache, Memory.cache, h.thread_eq, h.effectiveSettings_eq]
  cases hm : m.caches.get? m.thread with
  | none =>
    rw [hm, Option.map_none, Option.map_eq_none_iff] at hc
    rw [hc]
  | some c =>
    rw [hm, Option.map_some, Option.map_eq_some_iff] at hc
    obtain ⟨c', hc', heq⟩ := hc
    rw [hc']
    exact heq

theorem canCreate_eq (h : Alike m m') (n : Nat) : m'.canCreate n = m.canCreate n :=
  BlockPool.canAcquire_congr (Cache.blank_eq_iff.1 h.cache).1 n

theorem wellFormed (h : Alike m m') (hm : m.WellFormed) : m'.WellFormed where
  sound t c' hc' := by
    have hc := h.caches t
    rw [hc', Option.map_some, eq_comm, Option.map_eq_some_iff] at hc
    obtain ⟨c, hc, heq⟩ := hc
    exact BlockPool.sound_of_blank (Cache.blank_eq_iff.1 heq).1.symm (hm.sound t c hc)
  fresh a ha := by
    rw [h.arrays_eq] at ha
    rcases h.cell_cases a with ⟨-, hc'⟩ | ⟨c, -, hc, -⟩
    · exact hc'
    · rw [hm.fresh a ha] at hc
      cases hc
  held a c' hc' := by
    rcases h.cell_cases a with ⟨-, hnone⟩ | ⟨c, d, hc, hd, -, hh⟩
    · rw [hnone] at hc'
      cases hc'
    · rw [hd] at hc'
      cases hc'
      rw [hh]
      exact hm.held a c hc

/-! ### Operations -/

theorem caches_setCache (h : Alike m m') {c c' : Cache} (hc : c'.blank = c.blank) (t : ThreadId) :
    ((m'.setCache c').caches.get? t).map Cache.blank =
      ((m.setCache c).caches.get? t).map Cache.blank := by
  simp only [setCache, Table.get?_set, h.thread_eq]
  split_ifs
  · simp only [Option.map_some, hc]
  · exact h.caches t

/-- **Making** an array: both memories make the same one. -/
theorem create (h : Alike m m') (n : Nat) :
    (m'.create n).1 = (m.create n).1 ∧ Alike (m.create n).2 (m'.create n).2 := by
  obtain ⟨hpool, hcreated, hrecycled⟩ := Cache.blank_eq_iff.1 h.cache
  obtain ⟨hblock, hpool⟩ := BlockPool.acquire_congr hpool n
  refine ⟨h.arrays_eq, h.settings_eq, h.thread_eq, h.threads_eq, ?_, ?_, ?_, ?_⟩
  · simp only [Memory.create, h.arrays_eq]
  · simp only [Memory.create, h.live_eq]
  · exact h.caches_setCache (Cache.blank_eq_iff.2 ⟨hpool, congrArg (· + 1) hcreated, hrecycled⟩)
  · intro b
    rw [cells_create, cells_create, h.arrays_eq]
    split_ifs
    · simp only [Option.map_some, Cell.blank, hblock]
    · exact h.cells b

theorem miss (h : Alike m m') : Alike m.miss m'.miss := by
  obtain ⟨hpool, hcreated, hrecycled⟩ := Cache.blank_eq_iff.1 h.cache
  refine ⟨h.settings_eq, h.thread_eq, h.threads_eq, h.arrays_eq, ?_, ?_, h.cells⟩
  · simp only [Memory.miss, h.live_eq]
  · refine h.caches_setCache (Cache.blank_eq_iff.2 ⟨?_, congrArg (· + 1) hcreated, hrecycled⟩)
    exact congrArg BlockPool.miss hpool

theorem set_cell (h : Alike m m') (a : ArrayId) {c c' : Cell} (hc : c'.blank = c.blank) :
    Alike { m with cells := m.cells.set a c } { m' with cells := m'.cells.set a c' } := by
  refine ⟨h.settings_eq, h.thread_eq, h.threads_eq, h.arrays_eq, h.live_eq, h.caches, ?_⟩
  intro b
  simp only [Table.get?_set]
  split_ifs
  · simp only [Option.map_some, hc]
  · exact h.cells b

theorem retain (h : Alike m m') (a : ArrayId) : Alike (m.retain a) (m'.retain a) := by
  rcases h.cell_cases a with ⟨hc, hc'⟩ | ⟨c, c', hc, hc', hl, hh⟩
  · simpa only [Memory.retain, hc, hc'] using h
  · simp only [Memory.retain, hc, hc']
    exact h.set_cell a (Cell.blank_eq_iff.2 ⟨hl, congrArg (· + 1) hh⟩)

theorem overwrite (h : Alike m m') (a : ArrayId) (p p' : Nat) (bs bs' : Bytes) :
    Alike (m.overwrite a p bs) (m'.overwrite a p' bs') := by
  rcases h.cell_cases a with ⟨hc, hc'⟩ | ⟨c, c', hc, hc', hl, hh⟩
  · simpa only [Memory.overwrite, hc, hc'] using h
  · simp only [Memory.overwrite, hc, hc']
    refine h.set_cell a (Cell.blank_eq_iff.2 ⟨?_, hh⟩)
    simp only [Block.length_overwrite, hl]

/-- **Releasing** an array: both memories recycle it, into the same class, or none does. -/
theorem release (h : Alike m m') (a : ArrayId) : Alike (m.release a) (m'.release a) := by
  rcases h.cell_cases a with ⟨hc, hc'⟩ | ⟨c, c', hc, hc', hl, hh⟩
  · simpa only [Memory.release, hc, hc'] using h
  · simp only [Memory.release, hc, hc', hh]
    split_ifs
    · obtain ⟨hpool, hcreated, hrecycled⟩ := Cache.blank_eq_iff.1 h.cache
      have hreleased := BlockPool.release_congr hpool (Block.blank_eq_iff.2 hl)
      refine ⟨h.settings_eq, h.thread_eq, h.threads_eq, h.arrays_eq, ?_, ?_, ?_⟩
      · simp only [h.live_eq]
      · exact h.caches_setCache
          (Cache.blank_eq_iff.2 ⟨hreleased, hcreated, congrArg (· + 1) hrecycled⟩)
      · intro b
        simp only [Table.get?_erase]
        split_ifs
        · rfl
        · exact h.cells b
    · exact h.set_cell a (Cell.blank_eq_iff.2 ⟨hl, rfl⟩)

/-! ### Settings and threads -/

theorem fixSettings (h : Alike m m') (s : Settings) :
    (m'.fixSettings s).1 = (m.fixSettings s).1 ∧
      Alike (m.fixSettings s).2 (m'.fixSettings s).2 := by
  simp only [Memory.fixSettings, h.settings_eq]
  cases m.settings with
  | none =>
    exact ⟨rfl, rfl, h.thread_eq, h.threads_eq, h.arrays_eq, h.live_eq, h.caches, h.cells⟩
  | some t => exact ⟨rfl, h⟩

theorem onThread (h : Alike m m') (t : ThreadId) : Alike (m.onThread t) (m'.onThread t) :=
  ⟨h.settings_eq, rfl, h.threads_eq, h.arrays_eq, h.live_eq, h.caches, h.cells⟩

theorem startThread (h : Alike m m') : Alike m.startThread m'.startThread :=
  ⟨h.settings_eq, h.threads_eq, congrArg (· + 1) h.threads_eq, h.arrays_eq, h.live_eq, h.caches,
    h.cells⟩

theorem endThread (h : Alike m m') (t : ThreadId) : Alike (m.endThread t) (m'.endThread t) := by
  refine ⟨h.settings_eq, rfl, h.threads_eq, h.arrays_eq, h.live_eq, fun u => ?_, h.cells⟩
  simp only [Memory.endThread, Table.get?_erase, h.thread_eq]
  split_ifs
  · rfl
  · exact h.caches u

end Alike

end Tandem.Memory
