import Mathlib.Data.Finset.Card
import Tandem.Proofs.Memory.Arrays

/-!
# Who holds an array, and where its block goes

Threads make arrays, clone and drop handles on them, and overwrite them, in any order and in turn
(`Memory.Act`).  An operation may take several acts, with those of other threads in between.  The
books (`Memory.Books`) keep every handle that there is and every array that was made or recycled,
with the thread that did it; they say what should be counted, and the memory counts it on its own.
`Books.balanced_run` says that the two agree at any time, and `Books.Sound.serves` that the block of
an array goes to the pool of the thread that drops the last handle, when it does, and that nothing
else is given to a pool.
-/

namespace Tandem.Memory

/-! ### Counting in a pool -/

theorem stats_acquire (p : BlockPool) (min : Nat) :
    (p.acquire min).2.stats.acquired = p.stats.acquired + 1 ∧
      (p.acquire min).2.stats.returned = p.stats.returned ∧
      (p.acquire min).2.stats.discarded = p.stats.discarded := by
  unfold BlockPool.acquire
  split <;> exact ⟨rfl, rfl, rfl⟩

theorem stats_release (p : BlockPool) (block : Block) :
    (p.release block).stats.acquired = p.stats.acquired ∧
      (p.release block).stats.returned + (p.release block).stats.discarded =
        p.stats.returned + p.stats.discarded + 1 := by
  unfold BlockPool.release
  split
  · exact ⟨rfl, Nat.add_right_comm _ _ _⟩
  · exact ⟨rfl, rfl⟩

/-- The counters of a cache on which a number of arrays was made, was missed and was recycled. -/
structure Cache.Counts (c : Cache) (made missed recycled : Nat) : Prop where
  created_eq : c.created = made + missed
  acquired_eq : c.pool.stats.acquired = c.created
  recycled_eq : c.recycled = recycled
  returned_eq : c.pool.stats.returned + c.pool.stats.discarded = c.recycled

variable {m : Memory} {c : Cache} {a : ArrayId} {made missed recycled : Nat}

theorem counts_empty (s : Settings) : (Cache.empty s).Counts 0 0 0 := ⟨rfl, rfl, rfl, rfl⟩

theorem Cache.Counts.create (h : c.Counts made missed recycled) (min : Nat) :
    Counts { c with pool := (c.pool.acquire min).2, created := c.created + 1 } (made + 1) missed
      recycled := by
  obtain ⟨hacquired, hreturned, hdiscarded⟩ := stats_acquire c.pool min
  refine ⟨?_, ?_, h.recycled_eq, ?_⟩
  · rw [h.created_eq, Nat.add_right_comm]
  · rw [hacquired, h.acquired_eq]
  · rw [hreturned, hdiscarded, h.returned_eq]

theorem Cache.Counts.miss (h : c.Counts made missed recycled) :
    Counts { c with pool := c.pool.miss, created := c.created + 1 } made (missed + 1) recycled :=
  ⟨congrArg (· + 1) h.created_eq, congrArg (· + 1) h.acquired_eq, h.recycled_eq, h.returned_eq⟩

theorem Cache.Counts.recycle (h : c.Counts made missed recycled) (block : Block) :
    Counts { c with pool := c.pool.release block, recycled := c.recycled + 1 } made missed
      (recycled + 1) := by
  obtain ⟨hacquired, hreturned⟩ := stats_release c.pool block
  refine ⟨h.created_eq, ?_, congrArg (· + 1) h.recycled_eq, ?_⟩
  · rw [hacquired, h.acquired_eq]
  · rw [hreturned, h.returned_eq]

/-! ### What else the steps on arrays change -/

theorem retain_eq (m : Memory) (a : ArrayId) : ∃ cells, m.retain a = { m with cells } := by
  unfold retain
  split
  · exact ⟨m.cells, rfl⟩
  · exact ⟨_, rfl⟩

theorem overwrite_eq (m : Memory) (a : ArrayId) (p : Nat) (bs : Bytes) :
    ∃ cells, m.overwrite a p bs = { m with cells } := by
  unfold overwrite
  split
  · exact ⟨m.cells, rfl⟩
  · exact ⟨_, rfl⟩

theorem release_eq_of_more (h : 1 < m.handles a) : ∃ cells, m.release a = { m with cells } := by
  obtain ⟨cell, hcell, -, hhandles⟩ := exists_cell (Nat.zero_lt_of_lt h)
  have hmore : ¬ cell.handles ≤ 1 := by omega
  simp only [release, hcell, hmore, if_false]
  exact ⟨_, rfl⟩

/-- What a cache is after it was given the block of an array. -/
def recycling (m : Memory) (a : ArrayId) : Cache :=
  { m.cache with
    pool := m.cache.pool.release (m.block a)
    recycled := m.cache.recycled + 1 }

theorem release_eq_of_last (h : m.handles a = 1) :
    ∃ cells, m.release a =
      { m with
        caches := m.caches.set m.thread (m.recycling a)
        cells
        live := m.live - 1 } := by
  obtain ⟨cell, hcell, hblock, hhandles⟩ := exists_cell (h ▸ Nat.zero_lt_one)
  have hlast : cell.handles ≤ 1 := by omega
  simp only [release, hcell, hlast, if_true, recycling, hblock]
  exact ⟨_, rfl⟩

theorem cache_of_eq (m' : Memory) (hcaches : m'.caches = m.caches)
    (hsettings : m'.settings = m.settings) (t : ThreadId) :
    (m'.onThread t).cache = (m.onThread t).cache := by
  simp only [onThread, cache, effectiveSettings, hcaches, hsettings]

theorem cache_of_set (m' : Memory) (hcaches : m'.caches = m.caches.set m.thread c)
    (hsettings : m'.settings = m.settings) (t : ThreadId) :
    (m'.onThread t).cache = if t = m.thread then c else (m.onThread t).cache := by
  simp only [onThread, cache, effectiveSettings, hcaches, hsettings, Table.get?_set]
  split_ifs <;> rfl

/-! ### The books -/

/-- What a thread does in one go. -/
inductive Act where
  | create (min : Nat)
  /-- an array is asked for that there cannot be -/
  | miss
  /-- a handle is cloned -/
  | retain (a : ArrayId)
  /-- a handle is dropped -/
  | release (a : ArrayId)
  | overwrite (a : ArrayId) (p : Nat) (bs : Bytes)
  | fix (s : Settings)
  | touch
  /-- another thread has its turn -/
  | switch (t : ThreadId)
  | start
  /-- the thread ends and another one has its turn -/
  | exit (t : ThreadId)
  deriving Repr

/-- A memory with all handles on its arrays, and a record of what happened. -/
structure Books where
  memory : Memory
  /-- the array of each handle -/
  held : Multiset ArrayId
  /-- the arrays made, each with the thread that made it -/
  made : List (ThreadId × ArrayId)
  /-- the threads that asked for an array that there cannot be -/
  missed : List ThreadId
  /-- the arrays whose last handle was dropped, each with the thread that dropped it -/
  recycled : List (ThreadId × ArrayId)
  /-- the threads that have ended -/
  ended : List ThreadId

namespace Books

/-- Nothing has happened. -/
def opening : Books := ⟨.initial, 0, [], [], [], []⟩

/-- Whether a thread was started and has not ended. -/
def isAlive (b : Books) (t : ThreadId) : Bool := t < b.memory.threads && !b.ended.contains t

/-- What becomes of a memory and its books.  Handles are cloned and dropped only if there are any,
and only threads that are alive have turns. -/
def step (b : Books) : Act → Books
  | .create min =>
    { b with
      memory := (b.memory.create min).2
      held := b.memory.arrays ::ₘ b.held
      made := b.made ++ [(b.memory.thread, b.memory.arrays)] }
  | .miss => { b with memory := b.memory.miss, missed := b.missed ++ [b.memory.thread] }
  | .retain a =>
    if a ∈ b.held then { b with memory := b.memory.retain a, held := a ::ₘ b.held } else b
  | .release a =>
    if a ∈ b.held then
      { b with
        memory := b.memory.release a
        held := b.held.erase a
        recycled :=
          if b.held.count a = 1 then b.recycled ++ [(b.memory.thread, a)] else b.recycled }
    else b
  | .overwrite a p bs => { b with memory := b.memory.overwrite a p bs }
  | .fix s => { b with memory := (b.memory.fixSettings s).2 }
  | .touch => { b with memory := b.memory.touch }
  | .switch t => if b.isAlive t then { b with memory := b.memory.onThread t } else b
  | .start => { b with memory := b.memory.startThread }
  | .exit t =>
    if b.isAlive t && t ≠ b.memory.thread then
      { b with memory := b.memory.endThread t, ended := b.memory.thread :: b.ended }
    else b

/-- What becomes of a memory and its books by acts, one after the other. -/
def run (b : Books) (acts : List Act) : Books := acts.foldl step b

/-- **What is counted is what there is.** -/
structure Balanced (b : Books) : Prop where
  /-- the count of an array is the number of handles on it -/
  handles_eq : ∀ a, b.memory.handles a = b.held.count a
  /-- every handle is on an array that was made -/
  made_of_held : ∀ a ∈ b.held, a ∈ b.made.map Prod.snd
  made_once : (b.made.map Prod.snd).Nodup
  /-- an array is recycled when there are no more handles on it, and not before -/
  recycled_iff : ∀ a, a ∈ b.recycled.map Prod.snd ↔ a ∈ b.made.map Prod.snd ∧ a ∉ b.held
  recycled_once : (b.recycled.map Prod.snd).Nodup
  /-- the arrays with a handle are alive, and those that could not be made are counted with them -/
  live_eq : b.memory.live = b.held.toFinset.card + b.missed.length
  /-- each thread counts what was made and recycled on it -/
  counts : ∀ t, t ∉ b.ended → (b.memory.onThread t).cache.Counts ((b.made.map Prod.fst).count t)
    (b.missed.count t) ((b.recycled.map Prod.fst).count t)

/-- Balanced books of a well-formed memory. -/
structure Sound (b : Books) : Prop extends Balanced b where
  wellFormed : b.memory.WellFormed
  made_lt : ∀ a ∈ b.made.map Prod.snd, a < b.memory.arrays
  alive : b.isAlive b.memory.thread = true
  started : ∀ t ∈ b.ended, t < b.memory.threads

theorem sound_opening : opening.Sound where
  handles_eq _ := rfl
  made_of_held _ h := absurd h (Multiset.notMem_zero _)
  made_once := List.nodup_nil
  recycled_iff _ := ⟨fun h => (List.not_mem_nil h).elim, fun h => (List.not_mem_nil h.1).elim⟩
  recycled_once := List.nodup_nil
  live_eq := rfl
  counts _ _ := counts_empty _
  wellFormed := wellFormed_initial
  made_lt _ h := (List.not_mem_nil h).elim
  alive := rfl
  started _ h := (List.not_mem_nil h).elim

variable {b : Books}

theorem count_append_entry (entries : List (ThreadId × ArrayId)) (e : ThreadId × ArrayId)
    (t : ThreadId) : ((entries ++ [e]).map Prod.fst).count t =
      (entries.map Prod.fst).count t + if t = e.1 then 1 else 0 := by
  rw [List.map_append, List.count_append, List.map_singleton, List.count_singleton]
  by_cases ht : t = e.1
  · rw [ht, if_pos rfl, if_pos (beq_self_eq_true _)]
  · rw [if_neg ht, if_neg fun h => ht (eq_of_beq h).symm]

theorem isAlive_iff {t : ThreadId} :
    b.isAlive t = true ↔ t < b.memory.threads ∧ t ∉ b.ended := by
  rw [isAlive, Bool.and_eq_true, decide_eq_true_eq, Bool.not_eq_true', ← Bool.not_eq_true,
    List.contains_iff_mem]

theorem Sound.not_held (h : b.Sound) : b.memory.arrays ∉ b.held := fun hmem =>
  Nat.lt_irrefl _ (h.made_lt _ (h.made_of_held _ hmem))

theorem Sound.counts_thread (h : b.Sound) :
    b.memory.cache.Counts ((b.made.map Prod.fst).count b.memory.thread)
      (b.missed.count b.memory.thread) ((b.recycled.map Prod.fst).count b.memory.thread) :=
  h.counts b.memory.thread (isAlive_iff.1 h.alive).2

/-- **A new array** has a name that no array had. -/
theorem Sound.create (h : b.Sound) (min : Nat) : (b.step (.create min)).Sound where
  handles_eq a := by
    -- no handle is on an array that is yet to be made
    have hzero : b.held.count b.memory.arrays = 0 := Multiset.count_eq_zero.2 h.not_held
    simp only [step, handles_create, Multiset.count_cons]
    split_ifs with ha
    · rw [ha, hzero]
    · exact h.handles_eq a
  made_of_held a ha := by
    simp only [step, List.map_append, List.mem_append]
    rcases Multiset.mem_cons.1 ha with rfl | ha
    · exact .inr (List.mem_singleton_self _)
    · exact .inl (h.made_of_held a ha)
  made_once := by
    simp only [step, List.map_append]
    refine List.nodup_append.2 ⟨h.made_once, List.nodup_singleton _, fun a ha a' ha' => ?_⟩
    rw [List.mem_singleton.1 ha']
    exact Nat.ne_of_lt (h.made_lt a ha)
  recycled_iff a := by
    simp only [step, List.map_append, List.mem_append, Multiset.mem_cons, h.recycled_iff]
    constructor
    · rintro ⟨hmade, hnot⟩
      refine ⟨.inl hmade, fun hor => hor.elim (fun heq => ?_) hnot⟩
      exact Nat.ne_of_lt (h.made_lt a hmade) heq
    · rintro ⟨hmade | hnew, hnot⟩
      · exact ⟨hmade, fun hmem => hnot (.inr hmem)⟩
      · exact absurd (.inl (List.mem_singleton.1 hnew)) hnot
  recycled_once := h.recycled_once
  live_eq := by
    have hnot : b.memory.arrays ∉ b.held.toFinset := fun hmem =>
      h.not_held (Multiset.mem_toFinset.1 hmem)
    have hlive := h.live_eq
    simp only [step, Multiset.toFinset_cons, Finset.card_insert_of_notMem hnot]
    show b.memory.live + 1 = _
    omega
  counts t ht := by
    have hcache := cache_of_set (b.memory.create min).2 rfl rfl t
    simp only [step, count_append_entry, hcache]
    by_cases hthread : t = b.memory.thread
    · rw [if_pos hthread, if_pos hthread, hthread]
      exact h.counts_thread.create min
    · rw [if_neg hthread, if_neg hthread]
      exact h.counts t ht
  wellFormed := h.wellFormed.create min
  made_lt a ha := by
    simp only [step, List.map_append, List.mem_append] at ha
    rcases ha with ha | ha
    · exact Nat.lt_succ_of_lt (h.made_lt a ha)
    · rw [List.mem_singleton.1 ha]
      exact Nat.lt_succ_self _
  alive := h.alive
  started := h.started

theorem Sound.miss (h : b.Sound) : (b.step .miss).Sound where
  handles_eq := h.handles_eq
  made_of_held := h.made_of_held
  made_once := h.made_once
  recycled_iff := h.recycled_iff
  recycled_once := h.recycled_once
  live_eq := by
    have hlive := h.live_eq
    simp only [step, List.length_append, List.length_singleton]
    show b.memory.live + 1 = _
    omega
  counts t ht := by
    have hcache := cache_of_set b.memory.miss rfl rfl t
    simp only [step, hcache, List.count_append, List.count_singleton]
    by_cases hthread : t = b.memory.thread
    · rw [if_pos hthread, hthread, if_pos (beq_self_eq_true _)]
      exact h.counts_thread.miss
    · rw [if_neg hthread, if_neg fun heq => hthread (eq_of_beq heq).symm]
      exact h.counts t ht
  wellFormed := h.wellFormed.miss
  made_lt := h.made_lt
  alive := h.alive
  started := h.started

theorem Sound.retain (h : b.Sound) (a : ArrayId) : (b.step (.retain a)).Sound := by
  by_cases ha : a ∈ b.held
  · have hpos : 0 < b.memory.handles a := h.handles_eq a ▸ Multiset.count_pos.2 ha
    obtain ⟨cells, heq⟩ := b.memory.retain_eq a
    have hstep : b.step (.retain a) =
        { b with memory := { b.memory with cells }, held := a ::ₘ b.held } := by
      rw [step, if_pos ha, heq]
    rw [hstep]
    have hmem : ∀ x, x ∈ a ::ₘ b.held ↔ x ∈ b.held := fun x =>
      Multiset.mem_cons.trans ⟨fun hor => hor.elim (fun hx => hx ▸ ha) id, .inr⟩
    refine ⟨⟨fun x => ?_, fun x hx => h.made_of_held x ((hmem x).1 hx), h.made_once, fun x => ?_,
      h.recycled_once, ?_, h.counts⟩, ?_, h.made_lt, h.alive, h.started⟩
    · rw [← heq, handles_retain hpos, Multiset.count_cons]
      split_ifs with hx
      · rw [hx, h.handles_eq]
      · exact h.handles_eq x
    · rw [h.recycled_iff, hmem]
    · rw [Multiset.toFinset_cons, Finset.insert_eq_of_mem (Multiset.mem_toFinset.2 ha)]
      exact h.live_eq
    · rw [← heq]
      exact h.wellFormed.retain a
  · rw [step, if_neg ha]
    exact h

theorem Sound.handles_release (h : b.Sound) (a x : ArrayId) :
    (b.memory.release a).handles x = (b.held.erase a).count x := by
  rw [Memory.handles_release, h.handles_eq, h.handles_eq]
  split_ifs with hx
  · rw [hx, Multiset.count_erase_self]
  · rw [Multiset.count_erase_of_ne hx]

theorem Sound.release_of_more (h : b.Sound) {a : ArrayId} (hmore : 1 < b.held.count a) :
    (b.step (.release a)).Sound := by
  have ha : a ∈ b.held := Multiset.one_le_count_iff_mem.1 (Nat.le_of_lt hmore)
  have hmem : a ∈ b.held.erase a := by
    rw [← Multiset.one_le_count_iff_mem, Multiset.count_erase_self]
    omega
  have hiff : ∀ x, x ∈ b.held.erase a ↔ x ∈ b.held := fun x => by
    by_cases hx : x = a
    · rw [hx]
      exact ⟨fun _ => ha, fun _ => hmem⟩
    · exact Multiset.mem_erase_of_ne hx
  obtain ⟨cells, heq⟩ := release_eq_of_more ((h.handles_eq a).symm ▸ hmore)
  have hstep : b.step (.release a) =
      { b with memory := { b.memory with cells }, held := b.held.erase a } := by
    rw [step, if_pos ha, if_neg (Nat.ne_of_gt hmore), heq]
  rw [hstep]
  refine ⟨⟨fun x => ?_, fun x hx => h.made_of_held x ((hiff x).1 hx), h.made_once, fun x => ?_,
    h.recycled_once, ?_, h.counts⟩, ?_, h.made_lt, h.alive, h.started⟩
  · rw [← heq]
    exact h.handles_release a x
  · rw [h.recycled_iff, hiff]
  · have hsame : (b.held.erase a).toFinset = b.held.toFinset :=
      Finset.ext fun x => by rw [Multiset.mem_toFinset, Multiset.mem_toFinset, hiff]
    rw [hsame]
    exact h.live_eq
  · rw [← heq]
    exact h.wellFormed.release a

/-- **Dropping the last handle** recycles the array. -/
theorem Sound.release_of_last (h : b.Sound) {a : ArrayId} (hlast : b.held.count a = 1) :
    (b.step (.release a)).Sound := by
  have ha : a ∈ b.held := Multiset.one_le_count_iff_mem.1 (Nat.le_of_eq hlast.symm)
  have hgone : a ∉ b.held.erase a := by
    rw [← Multiset.count_eq_zero, Multiset.count_erase_self, hlast]
  obtain ⟨cells, heq⟩ := release_eq_of_last ((h.handles_eq a).trans hlast)
  have hstep : b.step (.release a) =
      { b with
        memory := b.memory.release a
        held := b.held.erase a
        recycled := b.recycled ++ [(b.memory.thread, a)] } := by
    rw [step, if_pos ha, if_pos hlast]
  rw [hstep]
  refine ⟨⟨h.handles_release a, fun x hx => h.made_of_held x (Multiset.mem_of_mem_erase hx),
    h.made_once, fun x => ?_, ?_, ?_, fun t ht => ?_⟩, h.wellFormed.release a, ?_, ?_, ?_⟩
  · rw [List.map_append, List.mem_append, h.recycled_iff]
    by_cases hx : x = a
    · rw [hx]
      exact ⟨fun _ => ⟨h.made_of_held a ha, hgone⟩, fun _ => .inr (List.mem_singleton_self _)⟩
    · rw [Multiset.mem_erase_of_ne hx]
      exact ⟨fun hor => hor.resolve_right fun hmem => hx (List.mem_singleton.1 hmem), .inl⟩
  · rw [List.map_append]
    refine List.nodup_append.2 ⟨h.recycled_once, List.nodup_singleton _, fun x hx y hy => ?_⟩
    rw [List.mem_singleton.1 hy]
    rintro rfl
    -- what was recycled before had no handle any more
    exact ((h.recycled_iff x).1 hx).2 ha
  · -- one array with a handle less, and one that is alive
    have hcard : b.held.toFinset.card = (b.held.erase a).toFinset.card + 1 := by
      rw [← Finset.card_insert_of_notMem fun hmem => hgone (Multiset.mem_toFinset.1 hmem),
        ← Multiset.toFinset_cons, Multiset.cons_erase ha]
    have hlive := h.live_eq
    rw [heq]
    show b.memory.live - 1 = ((b.held.erase a).toFinset.card : Int) + b.missed.length
    omega
  · have hcache := cache_of_set (b.memory.release a) (by rw [heq]) (by rw [heq]) t
    rw [hcache, count_append_entry]
    by_cases hthread : t = b.memory.thread
    · rw [if_pos hthread, if_pos hthread, hthread]
      exact h.counts_thread.recycle _
    · rw [if_neg hthread, if_neg hthread]
      exact h.counts t ht
  · rw [heq]
    exact h.made_lt
  · rw [heq]
    exact h.alive
  · rw [heq]
    exact h.started

theorem Sound.withMemory (h : b.Sound) (hhandles : ∀ a, m.handles a = b.memory.handles a)
    (hlive : m.live = b.memory.live) (harrays : m.arrays = b.memory.arrays)
    (hcounts : ∀ t made missed recycled, (b.memory.onThread t).cache.Counts made missed recycled →
      (m.onThread t).cache.Counts made missed recycled)
    (hwellFormed : m.WellFormed) (halive : isAlive { b with memory := m } m.thread = true)
    (hthreads : b.memory.threads ≤ m.threads) : Sound { b with memory := m } where
  handles_eq a := (hhandles a).trans (h.handles_eq a)
  made_of_held := h.made_of_held
  made_once := h.made_once
  recycled_iff := h.recycled_iff
  recycled_once := h.recycled_once
  live_eq := hlive.trans h.live_eq
  counts t ht := hcounts t _ _ _ (h.counts t ht)
  wellFormed := hwellFormed
  made_lt a ha := harrays ▸ h.made_lt a ha
  alive := halive
  started t ht := Nat.lt_of_lt_of_le (h.started t ht) hthreads

theorem Sound.fix (h : b.Sound) (s : Settings) : (b.step (.fix s)).Sound := by
  cases hsettings : b.memory.settings with
  | some old =>
    have hstep : b.step (.fix s) = b := by simp only [step, fixSettings, hsettings]
    rw [hstep]
    exact h
  | none =>
    have hstep : b.step (.fix s) = { b with memory := { b.memory with settings := some s } } := by
      simp only [step, fixSettings, hsettings]
    rw [hstep]
    refine h.withMemory (fun _ => rfl) rfl rfl (fun t made missed recycled hcounts => ?_)
      ⟨h.wellFormed.sound, h.wellFormed.fresh, h.wellFormed.held⟩ h.alive (Nat.le_refl _)
    -- the settings matter to a thread without a cache only, which has not counted anything
    cases hcache : b.memory.caches.get? t with
    | some c =>
      simp only [onThread, cache, hcache] at hcounts ⊢
      exact hcounts
    | none =>
      simp only [onThread, cache, hcache] at hcounts ⊢
      exact ⟨hcounts.created_eq, rfl, hcounts.recycled_eq, rfl⟩

/-- The counters of a thread that ends are lost, and those of the others stay. -/
theorem Sound.exit (h : b.Sound) {t : ThreadId} (halive : b.isAlive t = true)
    (hne : t ≠ b.memory.thread) :
    Sound { b with memory := b.memory.endThread t, ended := b.memory.thread :: b.ended } where
  handles_eq := h.handles_eq
  made_of_held := h.made_of_held
  made_once := h.made_once
  recycled_iff := h.recycled_iff
  recycled_once := h.recycled_once
  live_eq := h.live_eq
  counts u hu := by
    obtain ⟨hthread, hended⟩ := not_or.1 fun hor => hu (List.mem_cons.2 hor)
    have hcache : ((b.memory.endThread t).onThread u).cache = (b.memory.onThread u).cache := by
      simp only [endThread, onThread, cache, effectiveSettings, Table.get?_erase, if_neg hthread]
    rw [hcache]
    exact h.counts u hended
  wellFormed := by
    refine ⟨fun u c hc => ?_, h.wellFormed.fresh, h.wellFormed.held⟩
    simp only [endThread, Table.get?_erase] at hc
    split_ifs at hc
    exact h.wellFormed.sound u c hc
  made_lt := h.made_lt
  alive := by
    obtain ⟨hlt, hended⟩ := isAlive_iff.1 halive
    exact isAlive_iff.2 ⟨hlt, fun hmem => (List.mem_cons.1 hmem).elim hne hended⟩
  started u hu := by
    rcases List.mem_cons.1 hu with rfl | hu
    · exact (isAlive_iff.1 h.alive).1
    · exact h.started u hu

/-- **Every act** keeps the books balanced. -/
theorem Sound.step (h : b.Sound) (act : Act) : (b.step act).Sound := by
  cases act with
  | create min => exact h.create min
  | miss => exact h.miss
  | retain a => exact h.retain a
  | release a =>
    by_cases ha : a ∈ b.held
    · rcases Nat.eq_or_lt_of_le (Multiset.one_le_count_iff_mem.2 ha) with hlast | hmore
      · exact h.release_of_last hlast.symm
      · exact h.release_of_more hmore
    · rw [Books.step, if_neg ha]
      exact h
  | fix s => exact h.fix s
  | overwrite a p bs =>
    obtain ⟨cells, heq⟩ := b.memory.overwrite_eq a p bs
    have hcaches := cache_of_eq (b.memory.overwrite a p bs) (by rw [heq]) (by rw [heq])
    refine h.withMemory (fun x => handles_overwrite _ _ _ _ _) ?_ ?_ (fun t _ _ _ hcounts => ?_)
      (h.wellFormed.overwrite a p bs) ?_ ?_
    · rw [heq]
    · rw [heq]
    · rw [hcaches]
      exact hcounts
    · rw [heq]
      exact h.alive
    · rw [heq]
  | touch =>
    refine h.withMemory (fun _ => rfl) rfl rfl (fun t _ _ _ hcounts => ?_)
      ⟨sound_setCache h.wellFormed h.wellFormed.cache_sound, h.wellFormed.fresh,
        h.wellFormed.held⟩ h.alive (Nat.le_refl _)
    rw [cache_of_set b.memory.touch rfl rfl t]
    split_ifs with ht
    · rw [ht] at hcounts
      exact hcounts
    · exact hcounts
  | switch t =>
    rw [Books.step]
    split_ifs with halive
    · exact h.withMemory (fun _ => rfl) rfl rfl (fun _ _ _ _ => id)
        ⟨h.wellFormed.sound, h.wellFormed.fresh, h.wellFormed.held⟩ halive (Nat.le_refl _)
    · exact h
  | start =>
    refine h.withMemory (fun _ => rfl) rfl rfl (fun _ _ _ _ => id)
      ⟨h.wellFormed.sound, h.wellFormed.fresh, h.wellFormed.held⟩ ?_ (Nat.le_succ _)
    refine isAlive_iff.2 ⟨Nat.lt_succ_self _, fun hmem => ?_⟩
    -- no thread has ended that is yet to be started
    exact Nat.lt_irrefl _ (h.started _ hmem)
  | exit t =>
    rw [Books.step]
    split_ifs with hexit
    · rw [Bool.and_eq_true, decide_eq_true_eq] at hexit
      exact h.exit hexit.1 hexit.2
    · exact h

theorem Sound.run (h : b.Sound) (acts : List Act) : (b.run acts).Sound := by
  induction acts generalizing b with
  | nil => exact h
  | cons act acts ih => exact ih (h.step act)

/-- What an act makes of the cache of the thread that has its turn.  A block is given to it with the
last handle on an array and at no other time. -/
def served (b : Books) : Act → Cache
  | .create min =>
    { b.memory.cache with
      pool := (b.memory.cache.pool.acquire min).2
      created := b.memory.cache.created + 1 }
  | .miss =>
    { b.memory.cache with
      pool := b.memory.cache.pool.miss
      created := b.memory.cache.created + 1 }
  | .release a => if b.held.count a = 1 then b.memory.recycling a else b.memory.cache
  | _ => b.memory.cache

/-- An act leaves every thread that is alive with the cache that it had, except that it serves the
one that has its turn. -/
def Serves (b : Books) (act : Act) : Prop :=
  ∀ t, t ∉ (b.step act).ended → ((b.step act).memory.onThread t).cache =
    if t = b.memory.thread then b.served act else (b.memory.onThread t).cache

/-- The thread that has its turn changes its own cache, if it changes one; unless it ends. -/
theorem Sound.caches_step (h : b.Sound) {act : Act} (hexit : ∀ t, act ≠ .exit t) :
    (b.step act).memory.caches = b.memory.caches.set b.memory.thread (b.served act) ∨
      (b.step act).memory.caches = b.memory.caches ∧ b.served act = b.memory.cache := by
  cases act with
  | create min | miss | touch => exact .inl rfl
  | start => exact .inr ⟨rfl, rfl⟩
  | exit t => exact absurd rfl (hexit t)
  | fix s =>
    refine .inr ⟨?_, rfl⟩
    simp only [Books.step, fixSettings]
    cases b.memory.settings <;> rfl
  | switch t =>
    refine .inr ⟨?_, rfl⟩
    rw [Books.step]
    split_ifs <;> rfl
  | overwrite a p bs =>
    obtain ⟨cells, heq⟩ := b.memory.overwrite_eq a p bs
    refine .inr ⟨?_, rfl⟩
    simp only [Books.step, heq]
  | retain a =>
    obtain ⟨cells, heq⟩ := b.memory.retain_eq a
    refine .inr ⟨?_, rfl⟩
    simp only [Books.step, heq]
    split_ifs <;> rfl
  | release a =>
    by_cases ha : a ∈ b.held
    · have hstep : (b.step (.release a)).memory = b.memory.release a := by
        simp only [Books.step, if_pos ha]
      rw [hstep]
      rcases Nat.eq_or_lt_of_le (Multiset.one_le_count_iff_mem.2 ha) with hlast | hmore
      · obtain ⟨cells, heq⟩ := release_eq_of_last ((h.handles_eq a).trans hlast.symm)
        refine .inl ?_
        rw [served, if_pos hlast.symm, heq]
      · obtain ⟨cells, heq⟩ := release_eq_of_more ((h.handles_eq a).symm ▸ hmore)
        refine .inr ⟨?_, if_neg (Nat.ne_of_gt hmore)⟩
        rw [heq]
    · have hzero : b.held.count a ≠ 1 := by
        rw [Multiset.count_eq_zero.2 ha]
        exact Nat.zero_ne_one
      refine .inr ⟨?_, if_neg hzero⟩
      rw [Books.step, if_neg ha]

theorem settings_release (m : Memory) (a : ArrayId) : (m.release a).settings = m.settings := by
  unfold Memory.release
  split
  · rfl
  · split_ifs <;> rfl

theorem settings_step {act : Act} (hfix : ∀ s, act ≠ .fix s) :
    (b.step act).memory.settings = b.memory.settings := by
  cases act with
  | create min | miss | touch | start => rfl
  | fix s => exact absurd rfl (hfix s)
  | retain a =>
    obtain ⟨cells, heq⟩ := b.memory.retain_eq a
    simp only [step, heq]
    split_ifs <;> rfl
  | release a =>
    by_cases ha : a ∈ b.held
    · simp only [step, if_pos ha, settings_release]
    · simp only [step, if_neg ha]
  | overwrite a p bs =>
    obtain ⟨cells, heq⟩ := b.memory.overwrite_eq a p bs
    simp only [step, heq]
  | switch t | exit t =>
    rw [step]
    split_ifs <;> rfl

/-- **Blocks** are taken from and given to the cache of the thread that has its turn; the other
threads keep theirs. -/
theorem Sound.serves (h : b.Sound) {act : Act} (hfix : ∀ s, act ≠ .fix s) : b.Serves act := by
  intro t ht
  have hsettings := b.settings_step hfix
  have hthread : ∀ c, c = b.memory.cache → (b.memory.onThread t).cache =
      if t = b.memory.thread then c else (b.memory.onThread t).cache := fun c hc => by
    split_ifs with heq
    · rw [heq, hc]
      rfl
    · rfl
  by_cases hexit : ∀ u, act ≠ .exit u
  · rcases h.caches_step hexit with hset | ⟨hkeep, hserved⟩
    · exact cache_of_set _ hset hsettings t
    · rw [cache_of_eq _ hkeep hsettings]
      exact hthread _ hserved
  · obtain ⟨u, rfl⟩ := not_forall_not.1 hexit
    by_cases hguard : (b.isAlive u && decide (u ≠ b.memory.thread)) = true
    · simp only [Books.step, if_pos hguard, List.mem_cons, not_or] at ht ⊢
      rw [if_neg ht.1]
      simp only [endThread, onThread, cache, effectiveSettings, Table.get?_erase, if_neg ht.1]
    · simp only [Books.step, if_neg hguard]
      exact hthread _ rfl

/-- **At any time** what is counted is what there is. -/
theorem balanced_run (acts : List Act) : (opening.run acts).Balanced :=
  (sound_opening.run acts).toBalanced

end Books

end Tandem.Memory
