import Tandem.Memory.Pool
import Tandem.Table

/-!
# Blocks on lease

Blocks that were taken from a pool and have not gone back yet, under names.  Taking a block under a
name that is in use forgets the block that was there: it never goes back.  Operations that come one
after the other are carried out all together or, if one of them cannot be, not at all.
-/

namespace Tandem.Memory

/-- A pool and the blocks taken from it. -/
structure Leases where
  pool : BlockPool
  blocks : Table String Block

/-- Operations on a pool. -/
inductive LeaseOp where
  | acquire (name : String) (min : Nat)
  /-- overwrites the first byte of a block -/
  | mark (name : String) (byte : UInt8)
  | release (name : String)
  /-- gives a block to the pool that did not come from it -/
  | donate (length : Nat)
  deriving DecidableEq, Repr

namespace Leases

/-- Nothing taken yet. -/
def ofPool (p : BlockPool) : Leases := ⟨p, .empty⟩

/-- The block of a name, which must be in use. -/
def block (l : Leases) (name : String) : Except Misuse Block :=
  match l.blocks.get? name with
  | none => .error .outOfRange
  | some b => .ok b

/-- Carries out an operation; gives the block that it took, if it took one. -/
def perform (l : Leases) : LeaseOp → Except Misuse (Option Block × Leases)
  | .acquire name min =>
    if l.pool.canAcquire min then
      let (b, pool) := l.pool.acquire min
      .ok (some b, ⟨pool, l.blocks.set name b⟩)
    else .error .outOfRange
  | .mark name byte => do
    let b ← l.block name
    if b.length = 0 then .error .outOfRange
    else .ok (none, { l with blocks := l.blocks.set name (b.overwrite 0 [byte]) })
  | .release name => do
    let b ← l.block name
    .ok (none, ⟨l.pool.release b, l.blocks.erase name⟩)
  | .donate length => do
    let b ← allot [length] (Block.zeros length)
    .ok (none, { l with pool := l.pool.release b })

/-- Carries out operations, one after the other; gives the block that each took, and what it left.
An operation that cannot be carried out refuses the whole. -/
def performAll (l : Leases) : List LeaseOp → Except Misuse (List (Option Block × Leases))
  | [] => .ok []
  | op :: ops => do
    let (b, l) ← l.perform op
    let later ← l.performAll ops
    .ok ((b, l) :: later)

end Leases

end Tandem.Memory
