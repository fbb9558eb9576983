import Tandem.Memory.Block
import Tandem.Table
import Tandem.RoundTrip.Average
import Tandem.RoundTrip.Seconds

/-!
# Round trip times

The time from sending a ping to the arrival of its acknowledgement is a round trip.  Pings that wait
for their acknowledgement are remembered up to a number, the oldest ones being forgotten first; an
acknowledgement of a forgotten ping, or a second one of the same ping, measures nothing.
-/

namespace Tandem

/-- The pings that wait for an acknowledgement: when each was sent, and their order. -/
structure Backlog where
  capacity : Nat
  /-- when the ping with a code was sent, in nanoseconds -/
  times : Table UInt16 Nat
  /-- the codes, oldest ping first -/
  order : List UInt16

namespace Backlog

def empty (capacity : Nat) : Backlog := ⟨capacity, .empty, []⟩

/-- Forgets the oldest pings until there are no more than the capacity. -/
def evict (b : Backlog) : Backlog :=
  let excess := b.order.length - b.capacity
  { b with
    times := (b.order.take excess).foldl (fun times code => times.erase code) b.times
    order := b.order.drop excess }

/-- Remembers a ping.  A ping of the same code that was waiting is forgotten. -/
def insert (b : Backlog) (code : UInt16) (time : Nat) : Backlog :=
  -- every code stands in the order once
  let order := if b.times.contains code then b.order.filter (· ≠ code) else b.order
  evict { b with times := b.times.set code time, order := order ++ [code] }

/-- Takes a ping out; gives when it was sent. -/
def remove (b : Backlog) (code : UInt16) : Option Nat × Backlog :=
  match b.times.get? code with
  | none => (none, b)
  | some time =>
    (some time, { b with times := b.times.erase code, order := b.order.filter (· ≠ code) })

end Backlog

/-- The round trips of a connection. -/
structure RoundTrip where
  backlog : Backlog
  samples : RollingMean Float
  /-- the last round trip, in nanoseconds -/
  latest : Option Nat

namespace RoundTrip

/-- No round trips yet; `sampleCount` of them are averaged and `pingBacklog` pings remembered. -/
def create (sampleCount pingBacklog : Nat) : RoundTrip :=
  ⟨.empty pingBacklog, .empty sampleCount, none⟩

/-- The same, if there can be the memory for that many samples of eight bytes and codes of two. -/
def make (sampleCount pingBacklog : Nat) : Except Misuse RoundTrip :=
  Memory.allot [8 * sampleCount, 2 * pingBacklog] (create sampleCount pingBacklog)

/-- A ping is sent. -/
def sent (r : RoundTrip) (code : UInt16) (time : Nat) : RoundTrip :=
  { r with backlog := r.backlog.insert code time }

/-- An acknowledgement arrives; gives the round trip that it ends. -/
def acknowledged (r : RoundTrip) (code : UInt16) (time : Nat) : Option Nat × RoundTrip :=
  match r.backlog.remove code with
  | (none, _) => (none, r)
  | (some start, backlog) =>
    let trip := time - start
    (some trip,
      { backlog, samples := r.samples.add (Duration.toSeconds trip), latest := some trip })

/-- The mean of the last round trips, in nanoseconds. -/
def smoothed (r : RoundTrip) : Option Nat := r.samples.mean?.map Duration.ofSeconds

/-- The number of round trips in the mean. -/
def sampleCount (r : RoundTrip) : Nat := r.samples.capacity

end RoundTrip

end Tandem
