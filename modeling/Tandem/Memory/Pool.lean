import Tandem.Memory.Block
import Tandem.Memory.Settings

/-!
# Pools of unused blocks

`Pool` keeps a bounded number of unused objects and hands out the one that came back last.
`BlockPool` has one such pool for each size class.  A block is taken from the first class whose
blocks are long enough, and goes back to the last class whose block size it reaches; the counters
say how often each of the four outcomes occurred.  A pool keeps a place for each object that it
may hold; `make` refuses a pool whose places would take too much.
-/

namespace Tandem.Memory

/-- A bounded stack of unused objects. -/
structure Pool (α : Type) where
  capacity : Nat
  /-- the unused objects, the one that came back last first -/
  items : List α
  deriving Repr, Inhabited

namespace Pool

variable {α : Type}

def empty (capacity : Nat) : Pool α := ⟨capacity, []⟩

/-- An empty pool whose places take `size` bytes each, if there can be that many. -/
def make (size capacity : Nat) : Except Misuse (Pool α) := allot [size * capacity] (empty capacity)

def size (p : Pool α) : Nat := p.items.length

def isEmpty (p : Pool α) : Bool := p.items.isEmpty

/-- The object that came back last, if there is one, and the pool without it. -/
def take (p : Pool α) : Option α × Pool α := (p.items.head?, { p with items := p.items.tail })

/-- Keeps an object unless the pool is full, and says whether it did. -/
def put (p : Pool α) (a : α) : Bool × Pool α :=
  if p.size < p.capacity then (true, { p with items := a :: p.items }) else (false, p)

theorem size_put_le {p : Pool α} (h : p.size ≤ p.capacity) (a : α) :
    (p.put a).2.size ≤ (p.put a).2.capacity := by
  unfold put
  split
  · next hlt => exact hlt
  · exact h

theorem size_take_le (p : Pool α) : p.take.2.size ≤ p.size := by
  simp [take, size]

end Pool

/-- The unused blocks of one size class. -/
structure ClassPool where
  blockSize : Nat
  blocks : Pool Block
  deriving Repr, Inhabited

/-- How often blocks were asked for, made anew, kept and thrown away. -/
structure PoolStats where
  acquired : Nat
  allocated : Nat
  returned : Nat
  discarded : Nat
  deriving DecidableEq, Repr, Inhabited

/-- The unused blocks of a thread. -/
structure BlockPool where
  classes : List ClassPool
  stats : PoolStats
  deriving Repr, Inhabited

namespace BlockPool

def empty (s : Settings) : BlockPool where
  classes := s.classes.map fun c => ⟨c.blockSize, .empty c.maxBlocks⟩
  stats := ⟨0, 0, 0, 0⟩

/-- What a place for a block takes. -/
def placeSize : Nat := 24

/-- The pools that settings ask for, if there can be that many places. -/
def make (s : Settings) : Except Misuse BlockPool :=
  allot (s.classes.map fun c => placeSize * c.maxBlocks) (empty s)

/-- The number of unused blocks in each class. -/
def pooled (p : BlockPool) : List Nat := p.classes.map fun c => c.blocks.size

/-- The outcome of looking for a class with long enough blocks. -/
inductive Found where
  /-- an unused block of the class -/
  | reused (block : Block)
  /-- the class has no unused block; its blocks have this length -/
  | exhausted (blockSize : Nat)
  /-- no class has blocks of that length -/
  | tooLong
  deriving DecidableEq, Repr

/-- Takes an unused block from the first class whose blocks have at least `min` bytes. -/
def find (min : Nat) : List ClassPool → Found × List ClassPool
  | [] => (.tooLong, [])
  | c :: cs =>
    if min ≤ c.blockSize then
      match c.blocks.take with
      | (some b, blocks) => (.reused b, { c with blocks } :: cs)
      | (none, _) => (.exhausted c.blockSize, c :: cs)
    else
      let (found, cs) := find min cs
      (found, c :: cs)

/-- A block of at least `min` bytes: an unused one of the first class that fits, else a zeroed one
of that class's length, else a zeroed one of exactly `min` bytes. -/
def acquire (p : BlockPool) (min : Nat) : Block × BlockPool :=
  let stats := { p.stats with acquired := p.stats.acquired + 1 }
  let fresh := { stats with allocated := stats.allocated + 1 }
  match find min p.classes with
  | (.reused b, classes) => (b, { classes, stats })
  | (.exhausted n, classes) => (.zeros n, { classes, stats := fresh })
  | (.tooLong, classes) => (.zeros min, { classes, stats := fresh })

/-- Whether there can be a block of at least `min` bytes. -/
def canAcquire (p : BlockPool) (min : Nat) : Bool := (p.acquire min).1.length ≤ maxLength

/-- A block was asked for that there cannot be.  It counts as made anew. -/
def miss (p : BlockPool) : BlockPool :=
  { p with stats := { p.stats with
    acquired := p.stats.acquired + 1, allocated := p.stats.allocated + 1 } }

/-- Offers a block to the last class whose block size it reaches; says whether it was kept. -/
def offer (block : Block) : List ClassPool → Option Bool × List ClassPool
  | [] => (none, [])
  | c :: cs =>
    -- later classes have the longer blocks and are asked first
    match offer block cs with
    | (some kept, cs) => (some kept, c :: cs)
    | (none, cs) =>
      if c.blockSize ≤ block.length then
        let (kept, blocks) := c.blocks.put block
        (some kept, { c with blocks } :: cs)
      else (none, c :: cs)

/-- Takes a block back.  It is thrown away if no class is short enough for it or the class is
full. -/
def release (p : BlockPool) (block : Block) : BlockPool :=
  match offer block p.classes with
  | (some true, classes) =>
    { classes, stats := { p.stats with returned := p.stats.returned + 1 } }
  | (_, classes) => { classes, stats := { p.stats with discarded := p.stats.discarded + 1 } }

end BlockPool

end Tandem.Memory
