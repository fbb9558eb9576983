import Tandem.Listener.Pending

/-!
# Settling handshakes from several threads

Streams are registered, handshakes are completed and given up, and timers go off in several threads
at once.  A lock is around the table of those that are pending, so what a call does to the table is
one step.  Counting a timeout and closing streams comes after the lock was released, in steps of
their own, and other calls can get in between.

When a timer goes off, this is a call for the token that the timer was set for.  Such a call may be
made at any time and for any token: a timer may be on its way while it is stopped, and by the time
it gets the lock, another stream may wait under the token.
-/

namespace Tandem.Settlement

/-- A stream that waits, with its token. -/
abbrev Ticket := Token × Pending.Entry

/-- How streams are given up. -/
inductive Manner where
  | abandoned
  | expired
  | cleared
  deriving DecidableEq, Repr

/-- A call that gives streams up. -/
inductive Dismissal where
  | abandon (t : Token)
  | expire (t : Token)
  | clear
  deriving DecidableEq, Repr

def Dismissal.manner : Dismissal → Manner
  | abandon _ => .abandoned
  | expire _ => .expired
  | clear => .cleared

/-- The next step of a call that gives streams up. -/
inductive Dismissing where
  | take
  | count (taken : List Ticket)
  /-- close the streams that are left; if there are none, the call has returned -/
  | close (taken : List Ticket) (left : List StreamId)
  deriving DecidableEq, Repr

/-- A call in a thread of its own. -/
inductive Call where
  /-- lets a stream wait under the first drawn token that is not in use -/
  | register (e : Pending.Entry) (draws : List Token) (answer : Option Token)
  | complete (t : Token) (answer : Option (Option Pending.Entry))
  | dismiss (d : Dismissal) (next : Dismissing)
  deriving DecidableEq, Repr

/-- What all threads see. -/
structure Shared where
  pending : Pending
  /-- the streams that were closed, with the reason -/
  closed : List (Manner × StreamId)

/-- What a call takes out of the table. -/
def Dismissal.take (d : Dismissal) (p : Pending) : List Ticket × Pending :=
  match d with
  | abandon t | expire t =>
    let (e, p) := p.complete t
    (e.toList.map (t, ·), p)
  | clear => (p.entries.entries, { p with entries := .empty })

/-- How a call goes on with what it has taken: a timeout is counted before the stream is closed. -/
def Dismissal.next (d : Dismissal) (taken : List Ticket) : Dismissing :=
  match d, taken with
  | expire _, _ :: _ => .count taken
  | _, _ => .close taken (taken.map fun k => k.2.stream)

/-- One step of a call that gives streams up. -/
def Dismissing.step (d : Dismissal) (s : Shared) : Dismissing → Dismissing × Shared
  | take =>
    let (taken, pending) := d.take s.pending
    (d.next taken, { s with pending })
  | count taken =>
    (close taken (taken.map fun k => k.2.stream),
      { s with pending := { s.pending with timeouts := s.pending.timeouts + 1 } })
  | close taken [] => (close taken [], s)
  | close taken (x :: left) => (close taken left, { s with closed := s.closed ++ [(d.manner, x)] })

/-- One step of a call.  Registering goes on drawing as long as all tokens drawn are in use. -/
def Call.step (s : Shared) : Call → Call × Shared
  | register e draws none =>
    match s.pending.register draws e with
    | none => (register e draws none, s)
    | some (t, pending) => (register e draws (some t), { s with pending })
  | register e draws (some t) => (register e draws (some t), s)
  | complete t none =>
    let (e, pending) := s.pending.complete t
    (complete t (some e), { s with pending })
  | complete t (some e) => (complete t (some e), s)
  | dismiss d next =>
    let (next, s) := next.step d s
    (dismiss d next, s)

/-- The table of pending handshakes and the calls on it. -/
structure System where
  shared : Shared
  calls : List Call

namespace System

/-- A table that nobody has called. -/
def idle : System := ⟨⟨.empty, []⟩, []⟩

/-- One step of the call with a number. -/
def step (s : System) (i : Nat) : System :=
  match s.calls[i]? with
  | none => s
  | some c =>
    let (c, shared) := c.step s.shared
    ⟨shared, s.calls.set i c⟩

/-- Steps of calls, one after the other. -/
def run (s : System) (schedule : List Nat) : System := schedule.foldl step s

/-- A new call. -/
def call (s : System) (c : Call) : System := { s with calls := s.calls ++ [c] }

end System

end Tandem.Settlement
