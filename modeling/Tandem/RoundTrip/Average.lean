/-!
# Averages over the last samples

A `RollingMean` keeps the last samples, up to a capacity, and their sum.  The sum is kept up to date
sample by sample and not computed anew.  While there is room, samples are appended; after that each
new sample takes the place of the oldest one.  The numbers can be of any type that has the few
operations of `SampleNumber`.
-/

namespace Tandem

/-- Numbers that samples can be. -/
class SampleNumber (α : Type) where
  zero : α
  add : α → α → α
  sub : α → α → α
  /-- the part of a sum that falls to each of `n` samples -/
  share : α → Nat → α
  /-- zero in place of what is below zero -/
  atLeastZero : α → α

instance : SampleNumber Float where
  zero := 0
  add := (· + ·)
  sub := (· - ·)
  share x n := x / Float.ofNat n
  atLeastZero x := max x 0

/-- The samples kept. -/
inductive Samples (α : Type) where
  /-- fewer than the capacity, oldest first -/
  | growing (samples : List α)
  /-- as many as the capacity; the oldest is at position `next` -/
  | ring (samples : List α) (next : Nat)
  deriving DecidableEq, Repr

/-- A mean over the last samples. -/
structure RollingMean (α : Type) where
  capacity : Nat
  samples : Samples α
  /-- the sum of the samples -/
  sum : α
  deriving Repr

namespace RollingMean

variable {α : Type} [SampleNumber α]

def empty (capacity : Nat) : RollingMean α := ⟨capacity, .growing [], SampleNumber.zero⟩

/-- The number of samples kept. -/
def size (r : RollingMean α) : Nat :=
  match r.samples with
  | .growing xs => xs.length
  | .ring xs _ => xs.length

/-- Takes in a sample. -/
def add (r : RollingMean α) (x : α) : RollingMean α :=
  match r.samples with
  | .growing xs =>
    let xs := xs ++ [x]
    { r with
      samples := if xs.length = r.capacity then .ring xs 0 else .growing xs
      sum := SampleNumber.add r.sum x }
  | .ring xs next =>
    { r with
      -- the new sample goes where the oldest one was
      samples := .ring (xs.set next x) ((next + 1) % r.capacity)
      sum := SampleNumber.add (SampleNumber.sub r.sum (xs.getD next SampleNumber.zero)) x }

/-- The mean of the samples, if there are any. -/
def mean? (r : RollingMean α) : Option α :=
  if r.size = 0 then none
  else some (SampleNumber.atLeastZero (SampleNumber.share r.sum r.size))

end RollingMean

end Tandem
