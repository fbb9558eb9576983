import Tandem.Misuse
import Tandem.Memory.Basic

/-!
# Views of shared memory

A view is a stretch of an array.  Cloning a view shares the array; writing to a view whose array
is shared first moves the view's bytes to an array of its own, so that no other view ever sees the
change.  An array never grows: a view that needs more room moves to a longer array.
-/

namespace Tandem

/-- A handle on an array, with the stretch of it that is seen. -/
structure View where
  array : ArrayId
  offset : Nat
  length : Nat
  deriving DecidableEq, Repr, Inhabited

namespace View

/-- The bytes that a view shows. -/
def bytes (v : View) (m : Memory) : Bytes := (m.block v.array).slice v.offset v.length

/-- The number of bytes from the start of a view to the end of its array. -/
def capacity (v : View) (m : Memory) : Nat := (m.block v.array).length - v.offset

/-- The number of handles on a view's array. -/
def handles (v : View) (m : Memory) : Nat := m.handles v.array

/-- Whether two views show the same array. -/
def shares (v w : View) : Bool := v.array = w.array

/-- An empty view with room for `min` bytes. -/
def create (min : Nat) (m : Memory) : View × Memory :=
  let (a, m) := m.create min
  (⟨a, 0, 0⟩, m)

/-- A view that shows the given bytes. -/
def ofBytes (bs : Bytes) (m : Memory) : View × Memory :=
  let (a, m) := m.create bs.length
  (⟨a, 0, bs.length⟩, m.overwrite a 0 bs)

/-- Makes another view equal to this one. -/
def clone (v : View) (m : Memory) : Memory := m.retain v.array

/-- Lets go of a view. -/
def drop (v : View) (m : Memory) : Memory := m.release v.array

/-- Moves the bytes of a view to a new array of at least `n` bytes. -/
def relocate (v : View) (n : Nat) (m : Memory) : View × Memory :=
  let bs := v.bytes m
  let (a, m) := m.create n
  -- the old array goes last: the new block cannot be the one that it gives back
  (⟨a, 0, v.length⟩, (m.overwrite a 0 bs).release v.array)

/-- Makes a view the only one of its array. -/
def own (v : View) (m : Memory) : View × Memory :=
  if v.handles m = 1 then (v, m) else v.relocate (v.capacity m) m

/-- Makes room for `n` bytes. -/
def ensure (v : View) (n : Nat) (m : Memory) : View × Memory :=
  if n ≤ v.capacity m then (v, m) else v.relocate n m

/-- Sets the length, making room if necessary. -/
def setLength (v : View) (n : Nat) (m : Memory) : View × Memory :=
  let (v, m) := v.ensure n m
  ({ v with length := n }, m)

/-- Keeps at most the first `n` bytes. -/
def truncate (v : View) (n : Nat) : View := { v with length := min v.length n }

/-- Drops the first `n` bytes. -/
def advance (v : View) (n : Nat) : Except Misuse View :=
  if n ≤ v.length then .ok { v with offset := v.offset + n, length := v.length - n }
  else .error (.advanceBeyond n v.length)

/-- Overwrites the bytes from position `p` on, in an array of the view's own. -/
def write (v : View) (p : Nat) (bs : Bytes) (m : Memory) : View × Memory :=
  let (v, m) := v.own m
  (v, m.overwrite v.array (v.offset + p) bs)

/-- Sets the length and, where that makes the view longer, fills the new bytes. -/
def resize (v : View) (n : Nat) (fill : UInt8) (m : Memory) : View × Memory :=
  let old := v.length
  let (v, m) := v.setLength n m
  if old < n then v.write old (List.replicate (n - old) fill) m else (v, m)

end View

end Tandem
