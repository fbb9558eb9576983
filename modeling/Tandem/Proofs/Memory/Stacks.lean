import Tandem.Proofs.Memory.Conservation

/-!
# Which block a request gets

With settings that pass the check, the unused blocks of each class are a stack that can be read off
what was done to the pool (`Settings.stack`).  The smallest class that is long enough for a request
hands out the block on top, and a block that comes back goes on top of the biggest class that is not
longer than it, unless that is full (`BlockPool.Orderly`).  Together with what holds for settings of
all kinds this is `BlockPool.Run.serves_and_conserves`.
-/

namespace Tandem.Memory

namespace Settings

/-- The smallest class whose blocks have at least `min` bytes. -/
def Serves (s : Settings) (min : Nat) (k : SizeClass) : Prop :=
  k ∈ s.classes ∧ min ≤ k.blockSize ∧
    ∀ k' ∈ s.classes, min ≤ k'.blockSize → k.blockSize ≤ k'.blockSize

/-- The biggest class whose blocks have at most `n` bytes. -/
def Keeps (s : Settings) (n : Nat) (k : SizeClass) : Prop :=
  k ∈ s.classes ∧ k.blockSize ≤ n ∧
    ∀ k' ∈ s.classes, k'.blockSize ≤ n → k'.blockSize ≤ k.blockSize

instance (s : Settings) (min : Nat) (k : SizeClass) : Decidable (s.Serves min k) :=
  inferInstanceAs (Decidable (_ ∧ _ ∧ _))

instance (s : Settings) (n : Nat) (k : SizeClass) : Decidable (s.Keeps n k) :=
  inferInstanceAs (Decidable (_ ∧ _ ∧ _))

/-- What an operation does to the unused blocks of a class. -/
def restack (s : Settings) (k : SizeClass) (blocks : List Block) : PoolEvent → List Block
  | (.acquire min, some _) => if s.Serves min k then blocks.tail else blocks
  | (.acquire _, none) => blocks
  | (.release b, _) =>
    if s.Keeps b.length k ∧ blocks.length < k.maxBlocks then b :: blocks else blocks

/-- The unused blocks of a class after operations on a new pool, the one that came back last
first. -/
def stack (s : Settings) (k : SizeClass) (done : List PoolEvent) : List Block :=
  done.foldl (s.restack k) []

theorem stack_concat (s : Settings) (k : SizeClass) (done : List PoolEvent) (e : PoolEvent) :
    s.stack k (done ++ [e]) = s.restack k (s.stack k done) e := by
  rw [stack, List.foldl_append, List.foldl_cons, List.foldl_nil, stack]

/-- Later classes have longer blocks. -/
def Ascending (ks : List SizeClass) : Prop := ks.Pairwise fun k k' => k.blockSize < k'.blockSize

theorem ascending_of_check {s : Settings} (h : s.check = .ok ()) : Ascending s.classes :=
  List.pairwise_map.1 (List.pairwise_cons.1 ((check_eq_ok_iff s).1 h)).2

variable {k c : SizeClass} {ks : List SizeClass} {min n : Nat}

theorem serves_cons_of_le (h : Ascending (c :: ks)) (hle : min ≤ c.blockSize) :
    Serves ⟨c :: ks⟩ min k ↔ k = c := by
  have hinc := (List.pairwise_cons.1 h).1
  constructor
  · rintro ⟨hk, -, hfirst⟩
    rcases List.mem_cons.1 hk with rfl | hk
    · rfl
    · exact absurd (hfirst c List.mem_cons_self hle) (Nat.not_le.2 (hinc k hk))
  · rintro rfl
    refine ⟨List.mem_cons_self, hle, ?_⟩
    intro k' hk' _
    rcases List.mem_cons.1 hk' with rfl | hk'
    · exact Nat.le_refl _
    · exact Nat.le_of_lt (hinc k' hk')

theorem serves_cons_of_lt (hlt : c.blockSize < min) :
    Serves ⟨c :: ks⟩ min k ↔ Serves ⟨ks⟩ min k := by
  constructor
  · rintro ⟨hk, hle, hfirst⟩
    refine ⟨?_, hle, fun k' hk' => hfirst k' (List.mem_cons_of_mem c hk')⟩
    rcases List.mem_cons.1 hk with rfl | hk
    · omega
    · exact hk
  · rintro ⟨hk, hle, hfirst⟩
    refine ⟨List.mem_cons_of_mem c hk, hle, ?_⟩
    intro k' hk' hle'
    rcases List.mem_cons.1 hk' with rfl | hk'
    · omega
    · exact hfirst k' hk' hle'

theorem exists_serves (h : Ascending ks) (min : Nat) :
    (∃ k, Serves ⟨ks⟩ min k) ∨ ∀ k ∈ ks, k.blockSize < min := by
  induction ks with
  | nil => exact .inr (List.forall_mem_nil _)
  | cons c ks ih =>
    rcases Nat.lt_or_ge c.blockSize min with hlt | hle
    · rcases ih (List.pairwise_cons.1 h).2 with ⟨k, hk⟩ | hall
      · exact .inl ⟨k, (serves_cons_of_lt hlt).2 hk⟩
      · exact .inr (List.forall_mem_cons.2 ⟨hlt, hall⟩)
    · exact .inl ⟨c, (serves_cons_of_le h hle).2 rfl⟩

theorem keeps_cons_of_long (h : Ascending (c :: ks)) (hlong : ∃ k' ∈ ks, k'.blockSize ≤ n) :
    Keeps ⟨c :: ks⟩ n k ↔ Keeps ⟨ks⟩ n k := by
  have hinc := (List.pairwise_cons.1 h).1
  obtain ⟨l, hl, hln⟩ := hlong
  constructor
  · rintro ⟨hk, hle, hlast⟩
    refine ⟨?_, hle, fun k' hk' => hlast k' (List.mem_cons_of_mem c hk')⟩
    rcases List.mem_cons.1 hk with rfl | hk
    · exact absurd (hlast l (List.mem_cons_of_mem k hl) hln) (Nat.not_le.2 (hinc l hl))
    · exact hk
  · rintro ⟨hk, hle, hlast⟩
    refine ⟨List.mem_cons_of_mem c hk, hle, ?_⟩
    intro k' hk' hle'
    rcases List.mem_cons.1 hk' with rfl | hk'
    · exact Nat.le_of_lt (hinc k hk)
    · exact hlast k' hk' hle'

theorem keeps_cons_of_short (hshort : ∀ k' ∈ ks, n < k'.blockSize) :
    Keeps ⟨c :: ks⟩ n k ↔ k = c ∧ c.blockSize ≤ n := by
  constructor
  · rintro ⟨hk, hle, -⟩
    rcases List.mem_cons.1 hk with rfl | hk
    · exact ⟨rfl, hle⟩
    · exact absurd hle (Nat.not_le.2 (hshort k hk))
  · rintro ⟨rfl, hle⟩
    refine ⟨List.mem_cons_self, hle, ?_⟩
    intro k' hk' hle'
    rcases List.mem_cons.1 hk' with rfl | hk'
    · exact Nat.le_refl _
    · exact absurd hle' (Nat.not_le.2 (hshort k' hk'))

end Settings

namespace ClassPool

/-- A class with the given unused blocks. -/
def ofBlocks (k : SizeClass) (blocks : List Block) : ClassPool := ⟨k.blockSize, k.maxBlocks, blocks⟩

end ClassPool

namespace BlockPool

open Settings (Serves Keeps)
open ClassPool (ofBlocks)

variable {s : Settings} {done : List PoolEvent} {p : BlockPool} {k c : SizeClass}
  {ks : List SizeClass} {b : Block} {min : Nat}

variable {bs : List Block} {cs : List ClassPool}

/-! ### Looking for a block -/

theorem find_cons_of_le (hle : min ≤ c.blockSize) :
    find min (ofBlocks c bs :: cs) =
      ((bs.head?.map Found.reused).getD (.exhausted c.blockSize), ofBlocks c bs.tail :: cs) := by
  rw [find, if_pos (show min ≤ (ofBlocks c bs).blockSize from hle)]
  cases bs <;> rfl

theorem find_cons_of_lt (hlt : c.blockSize < min) :
    find min (ofBlocks c bs :: cs) = ((find min cs).1, ofBlocks c bs :: (find min cs).2) :=
  if_neg (Nat.not_le.2 hlt)

/-- **What is found** is on top of the stack of the smallest class that is long enough. -/
theorem find_ofBlocks (h : Settings.Ascending ks) (g : SizeClass → List Block) (min : Nat) :
    (∀ k, Serves ⟨ks⟩ min k → (find min (ks.map fun k => ofBlocks k (g k))).1 =
      ((g k).head?.map Found.reused).getD (.exhausted k.blockSize)) ∧
    (find min (ks.map fun k => ofBlocks k (g k))).2 =
      ks.map fun k => ofBlocks k (if Serves ⟨ks⟩ min k then (g k).tail else g k) := by
  induction ks with
  | nil => exact ⟨fun k hk => absurd hk.1 List.not_mem_nil, rfl⟩
  | cons c ks ih =>
    obtain ⟨hinc, hks⟩ := List.pairwise_cons.1 h
    obtain ⟨hfound, hrest⟩ := ih hks
    rw [List.map_cons, List.map_cons]
    rcases Nat.lt_or_ge c.blockSize min with hlt | hle
    · rw [find_cons_of_lt hlt, hrest]
      simp only [Settings.serves_cons_of_lt hlt]
      refine ⟨hfound, ?_⟩
      have hc : ¬ Serves ⟨ks⟩ min c := fun hs => absurd hs.2.1 (Nat.not_le.2 hlt)
      rw [if_neg hc]
    · rw [find_cons_of_le hle]
      simp only [Settings.serves_cons_of_le h hle]
      refine ⟨fun k hk => hk ▸ rfl, ?_⟩
      rw [if_pos trivial]
      -- no later class serves the request
      refine congrArg _ (List.map_congr_left ?_)
      intro k hk
      rw [if_neg]
      rintro rfl
      exact absurd (hinc k hk) (Nat.lt_irrefl _)

/-! ### Offering a block -/

theorem offer_cons_of_some {kept : Bool} (h : (offer b cs).1 = some kept) :
    (offer b (ofBlocks c bs :: cs)).2 = ofBlocks c bs :: (offer b cs).2 := by
  rw [offer, show offer b cs = (some kept, (offer b cs).2) from Prod.ext h rfl]

theorem offer_cons_of_none (h : offer b cs = (none, cs)) :
    (offer b (ofBlocks c bs :: cs)).2 =
      ofBlocks c
        (if c.blockSize ≤ b.length ∧ bs.length < c.maxBlocks then b :: bs else bs) :: cs := by
  rw [offer, h]
  by_cases hle : c.blockSize ≤ b.length
  · by_cases hlt : bs.length < c.maxBlocks <;>
      simp only [ofBlocks, hle, hlt, if_true, if_false, and_true, and_false, Pool.put, Pool.size]
  · simp only [ofBlocks, hle, if_false, false_and]

/-- **A block goes** on top of the stack of the biggest class that is not longer. -/
theorem offer_ofBlocks (h : Settings.Ascending ks) (g : SizeClass → List Block) (b : Block) :
    (offer b (ks.map fun k => ofBlocks k (g k))).2 = ks.map fun k => ofBlocks k
      (if Keeps ⟨ks⟩ b.length k ∧ (g k).length < k.maxBlocks then b :: g k else g k) := by
  induction ks with
  | nil => rfl
  | cons c ks ih =>
    obtain ⟨hinc, hks⟩ := List.pairwise_cons.1 h
    have hne : ∀ k ∈ ks, k ≠ c := by
      rintro k hk rfl
      exact absurd (hinc k hk) (Nat.lt_irrefl _)
    rw [List.map_cons, List.map_cons]
    by_cases hlong : ∃ k' ∈ ks, k'.blockSize ≤ b.length
    · obtain ⟨kept, hkept⟩ :
          ∃ kept, (offer b (ks.map fun k => ofBlocks k (g k))).1 = some kept := by
        obtain ⟨k', hk', hle⟩ := hlong
        exact offer_of_long ⟨_, List.mem_map_of_mem hk', hle⟩
      have hc : ¬ Keeps ⟨ks⟩ b.length c := fun hc => hne c hc.1 rfl
      rw [offer_cons_of_some hkept, ih hks]
      simp only [Settings.keeps_cons_of_long h hlong, hc, false_and, if_false]
    · have hshort : ∀ k' ∈ ks, b.length < k'.blockSize := by
        intro k' hk'
        exact Nat.lt_of_not_le fun hle => hlong ⟨k', hk', hle⟩
      rw [offer_cons_of_none (offer_of_short (List.forall_mem_map.2 hshort))]
      simp only [Settings.keeps_cons_of_short hshort, true_and]
      refine congrArg _ (List.map_congr_left ?_)
      intro k hk
      rw [if_neg fun hkept => hne k hk hkept.1.1]

/-! ### Runs -/

open PoolEvent (released)

/-- What can be said of a pool after operations on it, for settings that pass the check. -/
structure Orderly (s : Settings) (done : List PoolEvent) (p : BlockPool) : Prop where
  classes_eq : p.classes = s.classes.map fun k => ofBlocks k (s.stack k done)
  /-- the smallest class that is long enough gives the block that came back last, or a new one -/
  served : ∀ min k b, s.Serves min k → (p.perform (.acquire min)).1 = some b →
    b = (s.stack k done).head?.getD (.zeros k.blockSize)
  /-- no class is long enough -/
  oversize : ∀ min b, (∀ k ∈ s.classes, k.blockSize < min) →
    (p.perform (.acquire min)).1 = some b → b = .zeros min
  served_or_oversize : ∀ min, (∃ k, s.Serves min k) ∨ ∀ k ∈ s.classes, k.blockSize < min
  /-- the biggest class that is not longer keeps the block, if it is not full -/
  kept : ∀ b k, s.Keeps b.length k → (s.stack k done).length < k.maxBlocks →
    ofBlocks k (b :: s.stack k done) ∈ (p.perform (.release b)).2.classes

theorem classes_perform (hs : s.check = .ok ())
    (h : p.classes = s.classes.map fun k => ofBlocks k (s.stack k done)) (op : PoolOp) :
    (p.perform op).2.classes =
      s.classes.map fun k => ofBlocks k (s.stack k (done ++ [(op, (p.perform op).1)])) := by
  simp only [Settings.stack_concat]
  have hasc := Settings.ascending_of_check hs
  cases op with
  | acquire min =>
    rw [perform]
    split
    · rw [(acquire_eq p min).2, h, (find_ofBlocks hasc (fun k => s.stack k done) min).2]
      rfl
    · exact h
  | release b =>
    rw [perform, release_classes, h, offer_ofBlocks hasc fun k => s.stack k done]
    rfl

theorem Run.classes_eq (h : Run s done p) (hs : s.check = .ok ()) :
    p.classes = s.classes.map fun k => ofBlocks k (s.stack k done) := by
  induction h with
  | start => rfl
  | perform _ op ih => exact classes_perform hs ih op

theorem acquire_fst (p : BlockPool) (min : Nat) :
    (p.acquire min).1 =
      match (find min p.classes).1 with
      | .reused b => b
      | .exhausted n => .zeros n
      | .tooLong => .zeros min := by
  unfold acquire
  split <;> next heq => rw [heq]

theorem acquire_of_perform (h : (p.perform (.acquire min)).1 = some b) : (p.acquire min).1 = b := by
  rw [perform] at h
  split at h
  · exact Option.some.inj h
  · cases h

theorem Run.orderly (h : Run s done p) (hs : s.check = .ok ()) : Orderly s done p where
  classes_eq := h.classes_eq hs
  served min k b hk hb := by
    rw [← acquire_of_perform hb, acquire_fst, h.classes_eq hs,
      (find_ofBlocks (Settings.ascending_of_check hs) (fun k => s.stack k done) min).1 k hk]
    cases s.stack k done <;> rfl
  oversize min b hlong hb := by
    have hfind : find min p.classes = (.tooLong, p.classes) := find_of_long (by
      rw [h.classes_eq hs]
      exact List.forall_mem_map.2 hlong)
    rw [← acquire_of_perform hb, acquire_fst, hfind]
  served_or_oversize min := Settings.exists_serves (Settings.ascending_of_check hs) min
  kept b k hk hroom := by
    rw [(h.perform (.release b)).classes_eq hs]
    refine List.mem_map.2 ⟨k, hk.1, ?_⟩
    rw [Settings.stack_concat, Settings.restack, if_pos ⟨hk, hroom⟩]

theorem Run.length_acquire_le {n : Nat} (h : Run s done p) (hk : ∀ k ∈ s.classes, k.blockSize ≤ n)
    (hb : ∀ b ∈ released done, b.length ≤ n) (hmin : min ≤ n) : (p.acquire min).1.length ≤ n := by
  obtain ⟨reused, discarded, ha⟩ := h.accounts
  have hstep := stepsTo_acquire p min
  generalize (p.acquire min).1 = b, (p.acquire min).2 = p' at hstep
  cases hstep with
  | reuse hw =>
    refine hb b (ha.perm.mem_iff.2 ?_)
    refine List.mem_append_left _ (List.mem_append_left _ (hw.perm.mem_iff.2 ?_))
    exact List.mem_cons_self
  | make _ hlength =>
    rcases hlength with hlength | ⟨c, hc, hlength⟩
    · rw [hlength]
      exact hmin
    · rw [hlength]
      exact hk c.sizeClass (ha.sizeClasses_eq ▸ List.mem_map_of_mem hc)

/-- **Blocks fit, and none is lost or made up.**  Whatever the settings and whatever is done to a
pool, a request gets a block that is long enough, unless there cannot be one, and all blocks are
accounted for.  If the settings pass the check, requests and blocks go to the classes that are
theirs. -/
theorem Run.serves_and_conserves (h : Run s done p) :
    Conserves s done p ∧
    (∀ min b, (p.perform (.acquire min)).1 = some b → min ≤ b.length) ∧
    ((∀ k ∈ s.classes, k.blockSize ≤ maxLength) → (∀ b ∈ released done, b.length ≤ maxLength) →
      ∀ min ≤ maxLength, ∃ b, (p.perform (.acquire min)).1 = some b) ∧
    (s.check = .ok () → Orderly s done p) := by
  refine ⟨h.conserves, ?_, ?_, h.orderly⟩
  · intro min b hb
    rw [← acquire_of_perform hb]
    exact le_length_acquire h.sound min
  · intro hk hb min hmin
    have hcan : p.canAcquire min = true := decide_eq_true (h.length_acquire_le hk hb hmin)
    exact ⟨(p.acquire min).1, by rw [BlockPool.perform, if_pos hcan]⟩

/-- A block of 64 bytes comes back and is handed out again as it is. -/
theorem serves_and_conserves_reused :
    let b := (Block.zeros 64).overwrite 0 [99]
    let done : List PoolEvent := [(.acquire 50, some (.zeros 64)), (.release b, none)]
    let p := (((empty .server).perform (.acquire 50)).2.perform (.release b)).2
    Run .server done p ∧ Settings.server.check = .ok () ∧
      (p.perform (.acquire 33)).1 = some b ∧ b.bytes.head? = some 99 ∧
      p.pooled = [0, 1, 0, 0, 0] := by
  intro b done p
  have hrun : Run .server done p := (Run.start.perform (.acquire 50)).perform (.release b)
  obtain ⟨-, -, htotal, horderly⟩ := hrun.serves_and_conserves
  obtain ⟨b', hb'⟩ := htotal (by decide) (by decide) 33 (by decide)
  have hserved := (horderly rfl).served 33 ⟨64, 4⟩ b' (by decide) hb'
  have hstack : Settings.server.stack ⟨64, 4⟩ done = [b] := rfl
  rw [hstack] at hserved
  obtain rfl : b' = b := hserved
  exact ⟨hrun, rfl, hb', rfl, rfl⟩

end BlockPool

end Tandem.Memory
