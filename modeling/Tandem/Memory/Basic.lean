import Tandem.Table
import Tandem.Memory.Pool

/-!
# Shared memory

A process holds arrays, each a block of bytes with a count of the handles on it.  Every thread has
a cache of unused blocks of its own: a new array takes its block from the cache of the running
thread, and when the last handle on an array goes, its block goes to the cache of the thread that
let go of it.  The settings of the caches are fixed once for the process; a thread that needs its
cache before that uses the standard settings as long as it lives.
-/

namespace Tandem

/-- Names an array; no two arrays of a process have the same name. -/
abbrev ArrayId := Nat

/-- Names a thread; no two threads of a process have the same name. -/
abbrev ThreadId := Nat

namespace Memory

/-- An array in use. -/
structure Cell where
  block : Block
  /-- the number of handles on the array -/
  handles : Nat
  deriving Repr, Inhabited

/-- The block cache of a thread, with the number of arrays made and recycled on it. -/
structure Cache where
  pool : BlockPool
  created : Nat
  recycled : Nat
  deriving Repr, Inhabited

def Cache.empty (s : Settings) : Cache := ⟨.empty s, 0, 0⟩

end Memory

/-- The arrays and block caches of a process. -/
structure Memory where
  /-- the settings of caches, once they are fixed -/
  settings : Option Memory.Settings
  /-- the running thread -/
  thread : ThreadId
  /-- the number of threads started so far -/
  threads : Nat
  caches : Table ThreadId Memory.Cache
  cells : Table ArrayId Memory.Cell
  /-- the number of arrays made so far -/
  arrays : Nat
  /-- the number of arrays made and not yet recycled -/
  live : Int

namespace Memory

/-- One thread, nothing made yet. -/
def initial : Memory := ⟨none, 0, 1, .empty, .empty, 0, 0⟩

instance : Inhabited Memory := ⟨initial⟩

/-! ### Settings and threads -/

/-- The settings that a new cache gets. -/
def effectiveSettings (m : Memory) : Settings := m.settings.getD .server

/-- Fixes the settings; says whether they were not fixed before. -/
def fixSettings (m : Memory) (s : Settings) : Bool × Memory :=
  match m.settings with
  | none => (true, { m with settings := some s })
  | some _ => (false, m)

/-- The cache of the running thread. -/
def cache (m : Memory) : Cache := (m.caches.get? m.thread).getD (.empty m.effectiveSettings)

def setCache (m : Memory) (c : Cache) : Memory := { m with caches := m.caches.set m.thread c }

/-- Makes the cache of the running thread if it has none yet. -/
def touch (m : Memory) : Memory := m.setCache m.cache

/-- Whether the running thread has a cache or can make one. -/
def canTouch (m : Memory) : Bool :=
  m.caches.contains m.thread || (BlockPool.make m.effectiveSettings matches .ok _)

/-- Goes on as another thread. -/
def onThread (m : Memory) (t : ThreadId) : Memory := { m with thread := t }

/-- Goes on as a new thread. -/
def startThread (m : Memory) : Memory := { m with thread := m.threads, threads := m.threads + 1 }

/-- Ends the running thread, whose cache is lost, and goes on as `t`. -/
def endThread (m : Memory) (t : ThreadId) : Memory :=
  { m with caches := m.caches.erase m.thread, thread := t }

/-! ### Arrays -/

/-- The block of an array. -/
def block (m : Memory) (a : ArrayId) : Block := ((m.cells.get? a).map Cell.block).getD default

/-- The number of handles on an array. -/
def handles (m : Memory) (a : ArrayId) : Nat := ((m.cells.get? a).map Cell.handles).getD 0

/-- A new array of at least `min` bytes, with one handle on it. -/
def create (m : Memory) (min : Nat) : ArrayId × Memory :=
  let c := m.cache
  let (block, pool) := c.pool.acquire min
  (m.arrays,
    { m.setCache { c with pool, created := c.created + 1 } with
      cells := m.cells.set m.arrays ⟨block, 1⟩
      arrays := m.arrays + 1
      live := m.live + 1 })

/-- Whether there can be an array of at least `min` bytes. -/
def canCreate (m : Memory) (min : Nat) : Bool := m.cache.pool.canAcquire min

/-- An array was asked for that there cannot be.  It counts as made, and is never recycled. -/
def miss (m : Memory) : Memory :=
  let c := m.cache
  { m.setCache { c with pool := c.pool.miss, created := c.created + 1 } with live := m.live + 1 }

/-- One more handle on an array. -/
def retain (m : Memory) (a : ArrayId) : Memory :=
  match m.cells.get? a with
  | none => m
  | some cell => { m with cells := m.cells.set a { cell with handles := cell.handles + 1 } }

/-- One handle less on an array; with the last one the array is recycled. -/
def release (m : Memory) (a : ArrayId) : Memory :=
  match m.cells.get? a with
  | none => m
  | some cell =>
    if cell.handles ≤ 1 then
      -- the block goes to the thread that lets go last, whoever took it
      let c := m.cache
      { m.setCache { c with pool := c.pool.release cell.block, recycled := c.recycled + 1 } with
        cells := m.cells.erase a
        live := m.live - 1 }
    else { m with cells := m.cells.set a { cell with handles := cell.handles - 1 } }

/-- Overwrites the bytes of an array from position `p` on. -/
def overwrite (m : Memory) (a : ArrayId) (p : Nat) (bs : Bytes) : Memory :=
  match m.cells.get? a with
  | none => m
  | some cell => { m with cells := m.cells.set a { cell with block := cell.block.overwrite p bs } }

end Memory

end Tandem
