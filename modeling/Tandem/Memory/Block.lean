import Tandem.Bytes
import Tandem.Misuse

/-!
# Blocks

A block is a stretch of memory whose length never changes.  A new block is zeroed.  Of a block only
the bytes up to the last one that was written are kept; those behind it are still zero, however many
they are.  They are kept last one first, so that writing at the end of them takes no longer than
what is written.  `Block.bytes` is what a block holds; `slice_eq`, `get?_eq` and `bytes_overwrite`
say what each operation means for it.

No stretch of memory is longer than `maxLength`; what would need a longer one is refused (`allot`).
-/

namespace Tandem.Memory

/-- The length that no stretch of memory exceeds. -/
def maxLength : Nat := 0x7fffffffffffffff

/-- `a`, which takes stretches of the given lengths, unless one of them is too long. -/
def allot {α : Type} (lengths : List Nat) (a : α) : Except Misuse α :=
  if lengths.all (· ≤ maxLength) then .ok a else .error .outOfRange

/-- A block of memory. -/
structure Block where
  length : Nat
  /-- the number of bytes up to the last one written; those behind them are zero -/
  filled : Nat
  /-- the bytes up to the last one written, last one first -/
  back : Bytes
  length_back : back.length = filled
  filled_le : filled ≤ length
  deriving DecidableEq, Repr

namespace Block

/-- A block of `n` zero bytes. -/
def zeros (n : Nat) : Block := ⟨n, 0, [], rfl, Nat.zero_le n⟩

instance : Inhabited Block := ⟨zeros 0⟩

/-- What a block holds. -/
def bytes (b : Block) : Bytes := b.back.reverse ++ Bytes.zeros (b.length - b.filled)

/-- The stretch of at most `n` bytes that starts at position `p`. -/
def slice (b : Block) (p n : Nat) : Bytes :=
  let n := min n (b.length - p)
  let bs := (b.back.drop (b.filled - (p + n))).take (min n (b.filled - p))
  bs.reverse ++ Bytes.zeros (n - (b.filled - p))

/-- The byte at position `i`. -/
def get? (b : Block) (i : Nat) : Option UInt8 :=
  if i < b.filled then b.back[b.filled - 1 - i]?
  else if i < b.length then some 0
  else none

/-- Overwrites the bytes from position `p` on, which must all be there. -/
def overwrite (b : Block) (p : Nat) (bs : Bytes) : Block :=
  if h : p + bs.length ≤ b.length then
    { length := b.length
      filled := max b.filled (p + bs.length)
      back := b.back.take (b.filled - (p + bs.length)) ++ bs.reverse ++
        Bytes.zeros (p - b.filled) ++ b.back.drop (b.filled - p)
      length_back := by
        have := b.length_back
        simp only [List.length_append, List.length_take, List.length_reverse, Bytes.length_zeros,
          List.length_drop]
        omega
      filled_le := Nat.max_le.2 ⟨b.filled_le, h⟩ }
  else b

@[simp] theorem length_bytes (b : Block) : b.bytes.length = b.length := by
  have := b.length_back
  have := b.filled_le
  simp only [bytes, List.length_append, List.length_reverse, Bytes.length_zeros]
  omega

@[simp] theorem length_overwrite (b : Block) (p : Nat) (bs : Bytes) :
    (b.overwrite p bs).length = b.length := by
  unfold overwrite
  split <;> rfl

/-! ### What a block holds, byte by byte -/

theorem slice_eq (b : Block) (p n : Nat) : b.slice p n = b.bytes.slice p n := by
  have := b.filled_le
  simp only [slice, bytes, Bytes.slice, Bytes.zeros, List.drop_append, List.take_append,
    List.drop_replicate, List.take_replicate, List.drop_reverse, List.take_reverse, List.drop_take,
    List.length_reverse, List.length_take, b.length_back]
  congr 2
  · congr 1
    · omega
    · congr 1
      omega
  · omega

/-- **Overwriting** a block overwrites what it holds. -/
theorem bytes_overwrite {b : Block} {p : Nat} {bs : Bytes} (h : p + bs.length ≤ b.length) :
    (b.overwrite p bs).bytes = b.bytes.splice p bs := by
  have := b.filled_le
  simp only [overwrite, h, ↓reduceDIte, bytes, Bytes.splice, Bytes.zeros, List.reverse_append,
    List.reverse_reverse, List.reverse_replicate, List.take_append, List.drop_append,
    List.take_replicate, List.drop_replicate, List.drop_reverse, List.take_reverse,
    List.length_reverse, b.length_back, List.append_assoc]
  congr 2
  · congr 1
    omega
  · congr 3
    omega

end Block

end Tandem.Memory
