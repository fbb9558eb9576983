import Tandem.Connection.Error
import Tandem.Connection.Inbox

/-!
# Calling the application

The dispatcher passes received messages to the application's handler, one call at a time.  It looks
for a message first, and for the end of the connection only if there was none; when it has seen the
end, it reports it, and nothing is passed on after that.  The two looks are steps of their own, so
that others may let a message in and end the connection in between.  Before the connection is
started, messages and the end wait.
-/

namespace Tandem

/-- A call of the handler. -/
inductive Call where
  | message (d : Delivery)
  | disconnected (c : Cause)
  deriving DecidableEq, Repr

namespace Dispatcher

/-- What a dispatcher is doing. -/
inductive Phase where
  | unstarted
  /-- it is about to look for a message -/
  | idle
  /-- the handler has been called with a message and has not returned -/
  | calling
  /-- there was no message, and it is about to look for the end -/
  | checking
  /-- the end was seen and is about to be reported -/
  | ending (c : Cause)
  /-- the end was reported -/
  | ended
  deriving DecidableEq, Repr, Inhabited

end Dispatcher

/-- The inbox of a connection and the handler's calls. -/
structure Dispatcher where
  inbox : Inbox
  /-- the end of the connection, once there is one -/
  signal : Option Cause
  phase : Dispatcher.Phase
  /-- all calls of the handler, oldest first -/
  calls : List Call
  deriving DecidableEq, Repr, Inhabited

namespace Dispatcher

def create (capacity : Nat) : Dispatcher := ⟨.empty capacity, none, .unstarted, []⟩

/-- Starts to call the handler.  A second start has no effect. -/
def start (d : Dispatcher) : Dispatcher :=
  if d.phase = .unstarted then { d with phase := .idle } else d

/-- Tells the end of the connection; only the first one counts. -/
def announce (d : Dispatcher) (c : Cause) : Dispatcher := { d with signal := d.signal.or (some c) }

/-- Looks for a message and calls the handler with it, if it is not in a call. -/
def poll (d : Dispatcher) : Option Delivery × Dispatcher :=
  match d.phase with
  | .idle =>
    match d.inbox.take? with
    | some (x, inbox) =>
      (some x, { d with inbox, phase := .calling, calls := d.calls ++ [.message x] })
    | none => (none, { d with phase := .checking })
  | _ => (none, d)

/-- Looks for the end, after there was no message.  What was let in since then is not looked for
again if there is one. -/
def check (d : Dispatcher) : Dispatcher :=
  match d.phase with
  | .checking =>
    match d.signal with
    | some c => { d with phase := .ending c }
    | none => { d with phase := .idle }
  | _ => d

/-- The handler returns. -/
def finish (d : Dispatcher) : Dispatcher :=
  if d.phase = .calling then { d with phase := .idle } else d

/-- Closes the inbox and reports the end. -/
def conclude (d : Dispatcher) : Dispatcher :=
  match d.phase with
  | .ending c =>
    { d with inbox := d.inbox.close, phase := .ended, calls := d.calls ++ [.disconnected c] }
  | _ => d

end Dispatcher

end Tandem
