import Tandem.Proofs.Memory.Pool
import Tandem.Proofs.Memory.Retention

/-!
# Where the blocks of a pool are

Blocks are asked for and given to a pool in any order, whatever their length and wherever they come
from (`BlockPool.Run`).  `BlockPool.Step` says everything that one operation can do.  No block is
lost or made up: those that were given to a pool are unused in it, were handed out again or were
thrown away, and the counters say how many (`BlockPool.Conserves`).
-/

namespace Tandem.Memory

/-- What is done to a pool. -/
inductive PoolOp where
  | acquire (min : Nat)
  | release (block : Block)
  deriving Repr

/-- An operation and the block that it handed out. -/
abbrev PoolEvent := PoolOp × Option Block

namespace PoolEvent

def isAcquire : PoolEvent → Bool
  | (.acquire _, _) => true
  | (.release _, _) => false

/-- The blocks that were given to the pool. -/
def released (done : List PoolEvent) : List Block :=
  done.filterMap fun
    | (.acquire _, _) => none
    | (.release b, _) => some b

/-- The blocks that were handed out. -/
def handedOut (done : List PoolEvent) : List Block := done.filterMap Prod.snd

end PoolEvent

namespace BlockPool

open PoolEvent (isAcquire released handedOut)

variable {s : Settings} {done : List PoolEvent} {p : BlockPool} {cs ds : List ClassPool} {b : Block}

/-- Carries out an operation; gives the block that it handed out.  A request for a block that there
cannot be is missed. -/
def perform (p : BlockPool) : PoolOp → Option Block × BlockPool
  | .acquire min =>
    if p.canAcquire min then (some (p.acquire min).1, (p.acquire min).2) else (none, p.miss)
  | .release b => (none, p.release b)

/-- A pool that was new for the settings, and what has been done to it. -/
inductive Run (s : Settings) : List PoolEvent → BlockPool → Prop
  | start : Run s [] (empty s)
  | perform {done : List PoolEvent} {p : BlockPool} (h : Run s done p) (op : PoolOp) :
      Run s (done ++ [(op, (p.perform op).1)]) (p.perform op).2

/-! ### One operation -/

/-- All unused blocks. -/
def unused (cs : List ClassPool) : List Block := cs.flatMap fun c => c.blocks.items

/-- `ds` is `cs` without an unused block `b`. -/
structure Without (b : Block) (cs ds : List ClassPool) : Prop where
  sizeClasses_eq : ds.map ClassPool.sizeClass = cs.map ClassPool.sizeClass
  perm : (unused cs).Perm (b :: unused ds)

theorem Without.cons (h : Without b cs ds) (c : ClassPool) : Without b (c :: cs) (c :: ds) where
  sizeClasses_eq := congrArg (c.sizeClass :: ·) h.sizeClasses_eq
  perm := (h.perm.append_left c.blocks.items).trans List.perm_middle

theorem without_of_items {c : ClassPool} {bs : List Block} (h : c.blocks.items = b :: bs)
    (cs : List ClassPool) :
    Without b (c :: cs) ({ c with blocks := { c.blocks with items := bs } } :: cs) where
  sizeClasses_eq := rfl
  perm := by
    rw [unused, List.flatMap_cons, h]
    exact List.Perm.refl _

/-- Looking for a block takes out the one that is found, and nothing else. -/
theorem find_without (min : Nat) (cs : List ClassPool) :
    (∃ b, (find min cs).1 = .reused b ∧ Without b cs (find min cs).2) ∨
      (∀ b, (find min cs).1 ≠ .reused b) ∧ (find min cs).2 = cs := by
  induction cs with
  | nil =>
    refine .inr ⟨?_, rfl⟩
    intro b h
    cases h
  | cons c cs ih =>
    rw [find]
    split
    · cases hitems : c.blocks.items with
      | nil =>
        simp only [Pool.take, hitems, List.head?_nil]
        refine .inr ⟨?_, trivial⟩
        intro b h
        cases h
      | cons b bs =>
        simp only [Pool.take, hitems, List.head?_cons, List.tail_cons]
        exact .inl ⟨b, rfl, without_of_items hitems cs⟩
    · rcases ih with ⟨b, hb, hw⟩ | ⟨hb, heq⟩
      · exact .inl ⟨b, hb, hw.cons c⟩
      · exact .inr ⟨hb, congrArg (c :: ·) heq⟩

theorem mem_of_exhausted {min n : Nat} (h : (find min cs).1 = .exhausted n) :
    ∃ c ∈ cs, n = c.blockSize := by
  induction cs with
  | nil => cases h
  | cons c cs ih =>
    rw [find] at h
    split at h
    · cases hitems : c.blocks.items with
      | nil =>
        simp only [Pool.take, hitems, List.head?_nil] at h
        cases h
        exact ⟨c, List.mem_cons_self, rfl⟩
      | cons b bs =>
        simp only [Pool.take, hitems, List.head?_cons] at h
        cases h
    · obtain ⟨d, hd, hn⟩ := ih h
      exact ⟨d, List.mem_cons_of_mem c hd, hn⟩

/-- Offering a block adds it if it is kept, and changes nothing if it is not. -/
theorem offer_without (b : Block) (cs : List ClassPool) :
    (offer b cs).1 = some true ∧ Without b (offer b cs).2 cs ∨
      (offer b cs).1 ≠ some true ∧ (offer b cs).2 = cs := by
  induction cs with
  | nil =>
    refine .inr ⟨?_, rfl⟩
    intro h
    cases h
  | cons c cs ih =>
    rw [offer]
    split
    · next kept ds heq =>
      rw [heq] at ih
      rcases ih with ⟨hkept, hw⟩ | ⟨hkept, rfl⟩
      · exact .inl ⟨hkept, hw.cons c⟩
      · exact .inr ⟨hkept, rfl⟩
    · next ds heq =>
      rw [heq] at ih
      obtain rfl : ds = cs := by
        rcases ih with ⟨h, -⟩ | ⟨-, h⟩
        · cases h
        · exact h
      split_ifs with hle
      · simp only [Pool.put]
        split
        · exact .inl ⟨rfl, without_of_items (c := { c with blocks := _ }) rfl ds⟩
        · refine .inr ⟨?_, rfl⟩
          intro h
          cases h
      · refine .inr ⟨?_, rfl⟩
        intro h
        cases h

/-- What an operation can do: the block that it hands out, and what it leaves. -/
inductive Step (p : BlockPool) : PoolOp → Option Block → BlockPool → Prop
  | reuse {min : Nat} {b : Block} {ds : List ClassPool} (h : Without b p.classes ds) :
      Step p (.acquire min) (some b)
        ⟨ds, { p.stats with acquired := p.stats.acquired + 1 }⟩
  /-- a new block -/
  | make {min : Nat} (b : Block) (h : b.length = min ∨ ∃ c ∈ p.classes, b.length = c.blockSize) :
      Step p (.acquire min) (some b) p.miss
  | miss (min : Nat) : Step p (.acquire min) none p.miss
  | keep {b : Block} {ds : List ClassPool} (h : Without b ds p.classes) :
      Step p (.release b) none ⟨ds, { p.stats with returned := p.stats.returned + 1 }⟩
  | discard (b : Block) :
      Step p (.release b) none
        { p with stats := { p.stats with discarded := p.stats.discarded + 1 } }

theorem stepsTo_acquire (p : BlockPool) (min : Nat) :
    Step p (.acquire min) (some (p.acquire min).1) (p.acquire min).2 := by
  have hfind := find_without min p.classes
  unfold acquire
  split
  · next b ds heq =>
    rw [heq] at hfind
    rcases hfind with ⟨b', hb, hw⟩ | ⟨hb, -⟩
    · cases hb
      exact .reuse hw
    · exact absurd rfl (hb b)
  · next n ds heq =>
    have hn := mem_of_exhausted (congrArg Prod.fst heq)
    rw [heq] at hfind
    rcases hfind with ⟨b', hb, -⟩ | ⟨-, rfl⟩
    · cases hb
    · exact .make (.zeros n) (.inr hn)
  · next ds heq =>
    rw [heq] at hfind
    rcases hfind with ⟨b', hb, -⟩ | ⟨-, rfl⟩
    · cases hb
    · exact .make (.zeros min) (.inl rfl)

theorem step_perform (p : BlockPool) (op : PoolOp) :
    Step p op (p.perform op).1 (p.perform op).2 := by
  cases op with
  | acquire min =>
    rw [perform]
    split
    · exact stepsTo_acquire p min
    · exact .miss min
  | release b =>
    rw [perform, release]
    rcases offer_without b p.classes with ⟨hkept, hw⟩ | ⟨hkept, heq⟩
    · rw [show offer b p.classes = (some true, (offer b p.classes).2) from Prod.ext hkept rfl]
      exact .keep hw
    · split
      · next ds h =>
        rw [h] at hkept
        exact absurd rfl hkept
      · next found ds _ h =>
        rw [h] at heq
        rw [show ds = p.classes from heq]
        exact .discard b

/-! ### Lengths and numbers of unused blocks -/

theorem sound_perform (h : p.Sound) (op : PoolOp) : (p.perform op).2.Sound := by
  cases op with
  | acquire min =>
    rw [perform]
    split
    · exact sound_acquire h min
    · exact h
  | release b => exact sound_release h b

/-- No class has more unused blocks than it keeps. -/
def Within (cs : List ClassPool) : Prop := ∀ c ∈ cs, c.blocks.size ≤ c.blocks.capacity

theorem within_find (min : Nat) (h : Within cs) : Within (find min cs).2 := by
  induction cs with
  | nil => exact h
  | cons c cs ih =>
    obtain ⟨hc, hcs⟩ := List.forall_mem_cons.1 h
    rw [find]
    split
    · split
      · next b blocks heq =>
        have hblocks : c.blocks.take.2 = blocks := congrArg Prod.snd heq
        refine List.forall_mem_cons.2 ⟨?_, hcs⟩
        rw [← hblocks]
        exact Nat.le_trans c.blocks.size_take_le hc
      · exact h
    · exact List.forall_mem_cons.2 ⟨hc, ih hcs⟩

theorem within_offer (b : Block) (h : Within cs) : Within (offer b cs).2 := by
  induction cs with
  | nil => exact h
  | cons c cs ih =>
    obtain ⟨hc, hcs⟩ := List.forall_mem_cons.1 h
    have hrest := ih hcs
    rw [offer]
    split
    · next kept ds heq =>
      rw [heq] at hrest
      exact List.forall_mem_cons.2 ⟨hc, hrest⟩
    · next ds heq =>
      rw [heq] at hrest
      split_ifs
      · exact List.forall_mem_cons.2 ⟨Pool.size_put_le hc b, hrest⟩
      · exact List.forall_mem_cons.2 ⟨hc, hrest⟩

theorem within_perform (h : Within p.classes) (op : PoolOp) :
    Within (p.perform op).2.classes := by
  cases op with
  | acquire min =>
    rw [perform]
    split
    · show Within (p.acquire min).2.classes
      rw [(acquire_eq p min).2]
      exact within_find min h
    · exact h
  | release b =>
    show Within (p.release b).classes
    rw [release_classes]
    exact within_offer b h

/-! ### All operations -/

/-- Where the blocks that were given to a pool are: unused in it, handed out again or thrown
away. -/
structure Accounts (s : Settings) (done : List PoolEvent) (p : BlockPool)
    (reused discarded : List Block) : Prop where
  sizeClasses_eq : p.classes.map ClassPool.sizeClass = s.classes
  perm : (released done).Perm (unused p.classes ++ reused ++ discarded)
  sublist : reused.Sublist (handedOut done)
  acquired_eq : p.stats.acquired = done.countP isAcquire
  allocated_eq : reused.length + p.stats.allocated = p.stats.acquired
  returned_eq : (unused p.classes).length + reused.length = p.stats.returned
  discarded_eq : discarded.length = p.stats.discarded

variable {reused discarded : List Block} {min : Nat}

theorem accounts_empty (s : Settings) : Accounts s [] (empty s) [] [] := by
  have hnone : unused (empty s).classes = [] := by
    simp [unused, empty, Pool.empty]
  constructor
  case sizeClasses_eq => exact sizeClasses_empty s
  case perm => rw [hnone]; exact List.Perm.refl _
  case returned_eq => rw [hnone]; rfl
  all_goals rfl

theorem released_acquire (done : List PoolEvent) (min : Nat) (out : Option Block) :
    released (done ++ [(.acquire min, out)]) = released done := by
  simp [released]

theorem released_release (done : List PoolEvent) (b : Block) (out : Option Block) :
    released (done ++ [(.release b, out)]) = released done ++ [b] := by
  simp [released]

theorem handedOut_concat (done : List PoolEvent) (op : PoolOp) (out : Option Block) :
    handedOut (done ++ [(op, out)]) = handedOut done ++ out.toList := by
  cases out <;> simp [handedOut]

theorem countP_acquire (done : List PoolEvent) (min : Nat) (out : Option Block) :
    (done ++ [(PoolOp.acquire min, out)]).countP isAcquire = done.countP isAcquire + 1 := by
  simp [isAcquire]

theorem countP_release (done : List PoolEvent) (b : Block) (out : Option Block) :
    (done ++ [(PoolOp.release b, out)]).countP isAcquire = done.countP isAcquire := by
  simp [isAcquire]

theorem Accounts.reuse (h : Accounts s done p reused discarded) (hw : Without b p.classes ds) :
    Accounts s (done ++ [(.acquire min, some b)])
      ⟨ds, { p.stats with acquired := p.stats.acquired + 1 }⟩ (reused ++ [b]) discarded where
  sizeClasses_eq := hw.sizeClasses_eq.trans h.sizeClasses_eq
  perm := by
    rw [released_acquire]
    refine h.perm.trans (List.Perm.append_right discarded ?_)
    refine (hw.perm.append_right reused).trans ?_
    rw [List.cons_append, ← List.append_assoc]
    exact (List.perm_append_singleton b _).symm
  sublist := by
    rw [handedOut_concat]
    exact h.sublist.append (List.Sublist.refl [b])
  acquired_eq := by rw [countP_acquire, h.acquired_eq]
  allocated_eq := by
    rw [List.length_append, List.length_singleton, Nat.add_right_comm]
    exact congrArg (· + 1) h.allocated_eq
  returned_eq := by
    have hlen := hw.perm.length_eq
    rw [List.length_cons] at hlen
    rw [List.length_append, List.length_singleton]
    calc (unused ds).length + (reused.length + 1)
        = (unused p.classes).length + reused.length := by omega
      _ = p.stats.returned := h.returned_eq
  discarded_eq := h.discarded_eq

theorem Accounts.miss (h : Accounts s done p reused discarded) (min : Nat) (out : Option Block) :
    Accounts s (done ++ [(.acquire min, out)]) p.miss reused discarded where
  sizeClasses_eq := h.sizeClasses_eq
  perm := by
    rw [released_acquire]
    exact h.perm
  sublist := by
    rw [handedOut_concat]
    exact h.sublist.trans (List.sublist_append_left _ _)
  acquired_eq := by rw [countP_acquire, ← h.acquired_eq]; rfl
  allocated_eq := congrArg (· + 1) h.allocated_eq
  returned_eq := h.returned_eq
  discarded_eq := h.discarded_eq

theorem Accounts.keep (h : Accounts s done p reused discarded) (hw : Without b ds p.classes) :
    Accounts s (done ++ [(.release b, none)])
      ⟨ds, { p.stats with returned := p.stats.returned + 1 }⟩ reused discarded where
  sizeClasses_eq := hw.sizeClasses_eq.symm.trans h.sizeClasses_eq
  perm := by
    rw [released_release]
    refine (List.perm_append_singleton b _).trans ((h.perm.cons b).trans ?_)
    exact ((hw.perm.append_right reused).append_right discarded).symm
  sublist := by
    rw [handedOut_concat]
    exact h.sublist.trans (List.sublist_append_left _ _)
  acquired_eq := by rw [countP_release, h.acquired_eq]
  allocated_eq := h.allocated_eq
  returned_eq := by
    have hlen := hw.perm.length_eq
    rw [List.length_cons] at hlen
    calc (unused ds).length + reused.length
        = (unused p.classes).length + reused.length + 1 := by omega
      _ = p.stats.returned + 1 := congrArg (· + 1) h.returned_eq
  discarded_eq := h.discarded_eq

theorem Accounts.discard (h : Accounts s done p reused discarded) (b : Block) :
    Accounts s (done ++ [(.release b, none)])
      { p with stats := { p.stats with discarded := p.stats.discarded + 1 } } reused
      (discarded ++ [b]) where
  sizeClasses_eq := h.sizeClasses_eq
  perm := by
    rw [released_release, ← List.append_assoc]
    exact h.perm.append_right [b]
  sublist := by
    rw [handedOut_concat]
    exact h.sublist.trans (List.sublist_append_left _ _)
  acquired_eq := by rw [countP_release, h.acquired_eq]
  allocated_eq := h.allocated_eq
  returned_eq := h.returned_eq
  discarded_eq := by rw [List.length_append, List.length_singleton, h.discarded_eq]

theorem Run.accounts (h : Run s done p) :
    ∃ reused discarded, Accounts s done p reused discarded := by
  induction h with
  | start => exact ⟨[], [], accounts_empty s⟩
  | @perform done p _ op ih =>
    obtain ⟨reused, discarded, ha⟩ := ih
    have hstep := step_perform p op
    generalize (p.perform op).1 = out, (p.perform op).2 = p' at hstep
    cases hstep with
    | reuse hw => exact ⟨_, _, ha.reuse hw⟩
    | make b _ => exact ⟨_, _, ha.miss _ _⟩
    | miss min => exact ⟨_, _, ha.miss _ _⟩
    | keep hw => exact ⟨_, _, ha.keep hw⟩
    | discard b => exact ⟨_, _, ha.discard b⟩

theorem Run.sound (h : Run s done p) : p.Sound := by
  induction h with
  | start => exact sound_empty s
  | perform _ op ih => exact sound_perform ih op

theorem Run.within (h : Run s done p) : Within p.classes := by
  induction h with
  | start =>
    intro c hc
    obtain ⟨k, -, rfl⟩ := List.mem_map.1 hc
    exact Nat.zero_le _
  | perform _ op ih => exact within_perform ih op

/-- What can be said of a pool after operations on it, for settings of all kinds. -/
structure Conserves (s : Settings) (done : List PoolEvent) (p : BlockPool) : Prop where
  /-- no unused block is shorter than its class says -/
  blockSize_le : ∀ c ∈ p.classes, ∀ b ∈ c.blocks.items, c.blockSize ≤ b.length
  sizeClasses_eq : p.classes.map ClassPool.sizeClass = s.classes
  size_le : ∀ c ∈ p.classes, c.blocks.size ≤ c.blocks.capacity
  acquired_eq : p.stats.acquired = done.countP isAcquire
  given_eq : p.stats.returned + p.stats.discarded = (released done).length
  allocated_le : p.stats.allocated ≤ p.stats.acquired
  pooled_eq : p.pooled.sum + (p.stats.acquired - p.stats.allocated) = p.stats.returned
  accounts : ∃ reused discarded, Accounts s done p reused discarded

theorem sum_pooled (p : BlockPool) : p.pooled.sum = (unused p.classes).length := by
  rw [pooled, unused, List.length_flatMap]
  rfl

/-- **No block is lost or made up**, whatever the settings. -/
theorem Run.conserves (h : Run s done p) : Conserves s done p := by
  obtain ⟨reused, discarded, ha⟩ := h.accounts
  have hgiven := ha.perm.length_eq
  have hallocated := ha.allocated_eq
  have hreturned := ha.returned_eq
  have hdiscarded := ha.discarded_eq
  rw [List.length_append, List.length_append] at hgiven
  refine ⟨h.sound, ha.sizeClasses_eq, h.within, ha.acquired_eq, ?_, ?_, ?_, reused, discarded, ha⟩
  · omega
  · omega
  · rw [sum_pooled]
    omega

end BlockPool

end Tandem.Memory
