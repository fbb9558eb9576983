import Tandem.Connection.Error
import Tandem.Connection.State
import Tandem.Bytes

/-!
# Ending a connection from several threads

Starting a connection, sending on it and ending it may happen in several threads at once.  Here each
call is a thread of its own, cut into the steps that other threads can get in between: loading the
state, exchanging it, leaving the peer table, closing the socket, taking the list of tasks, aborting
them, storing the last state and giving the signal.  A run of a `System` carries out one step of one
thread after the other, in any order.
-/

namespace Tandem.Teardown

/-- A task that serves a socket of the connection. -/
abbrev TaskId := Nat

/-- What all threads see of a connection. -/
structure Shared where
  state : ConnectionState
  /-- the connection was not started yet -/
  startable : Bool
  /-- how many tasks serve the sockets -/
  taskCount : Nat
  /-- the tasks; none once the list was taken away for good -/
  tasks : Option (List TaskId)
  /-- the number of tasks started so far -/
  spawned : Nat
  aborted : List TaskId
  /-- the connection is in the peer table -/
  listed : Bool
  /-- the socket is open -/
  isOpen : Bool
  /-- the signal was not given yet -/
  armed : Bool
  /-- the causes for which the signal was given -/
  signalled : List Cause
  /-- the bodies queued for the stream -/
  queued : List Bytes
  /-- the datagrams handed to the socket -/
  datagrams : List Bytes
  deriving DecidableEq, Repr

/-- A connected connection, not started, with the given number of tasks. -/
def Shared.initial (taskCount : Nat) : Shared where
  state := .connected
  startable := true
  taskCount
  tasks := some []
  spawned := 0
  aborted := []
  listed := true
  isOpen := true
  armed := true
  signalled := []
  queued := []
  datagrams := []

/-- The next step of a call that ends the connection. -/
inductive Disconnecting where
  | load
  /-- exchange the state if it is still the one that was seen -/
  | exchange (seen : ConnectionState)
  | unlist
  | closeSocket
  | takeTasks
  | abort (tasks : List TaskId)
  | store
  | signal
  | returned (won : Bool)
  deriving DecidableEq, Repr

/-- The next step of a call that starts the connection. -/
inductive Starting where
  | claim
  | register
  | returned
  deriving DecidableEq, Repr

/-- The next step of a call that sends. -/
inductive Sending where
  | load
  | pass
  | returned (accepted : Bool)
  deriving DecidableEq, Repr

/-- Where a body is handed to, and what becomes of it there. -/
inductive Outlet where
  /-- the queue of the stream; it refuses a body that is too long, and all once nobody serves it -/
  | stream (taken : Bool)
  /-- the socket for datagrams; it drops one for which there is no room -/
  | datagram (sent : Bool)
  /-- the socket for datagrams, which fails -/
  | failing (cause : Cause)
  deriving DecidableEq, Repr

/-- A call in a thread of its own. -/
inductive Thread where
  | disconnect (cause : Cause) (next : Disconnecting)
  | start (next : Starting)
  | send (bs : Bytes) (outlet : Outlet) (next : Sending)
  deriving DecidableEq, Repr

/-- One step of a call that ends the connection.  The one that exchanges the state goes on with the
rest; all others return at once. -/
def Disconnecting.step (cause : Cause) (s : Shared) : Disconnecting → Disconnecting × Shared
  | load => (if s.state.isEnding then returned false else exchange s.state, s)
  | exchange seen =>
    -- whoever was faster is the one to go on
    if s.state = seen then (unlist, { s with state := .disconnecting })
    else (if s.state.isEnding then returned false else exchange s.state, s)
  | unlist => (closeSocket, { s with listed := false })
  | closeSocket => (takeTasks, { s with isOpen := false })
  | takeTasks => (abort (s.tasks.getD []), { s with tasks := none })
  | abort [] => (store, s)
  | abort (t :: ts) => (abort ts, { s with aborted := s.aborted ++ [t] })
  | store => (signal, { s with state := .disconnected })
  | signal =>
    (returned true,
      if s.armed then { s with armed := false, signalled := s.signalled ++ [cause] } else s)
  | returned won => (returned won, s)

/-- One step of a call that starts the connection.  The tasks are started and put on the list at
once; where the list is gone, none is started. -/
def Starting.step (s : Shared) : Starting → Starting × Shared
  | claim => if s.startable then (register, { s with startable := false }) else (returned, s)
  | register =>
    match s.tasks with
    | none => (returned, s)
    | some ts =>
      (returned, { s with
        tasks := some (ts ++ List.range' s.spawned s.taskCount)
        spawned := s.spawned + s.taskCount })
  | returned => (returned, s)

/-- One step of a call that sends. -/
def Sending.step (bs : Bytes) (outlet : Outlet) (s : Shared) : Sending → Sending × Shared
  | load => (if s.state = .connected then pass else returned false, s)
  | pass =>
    match outlet with
    | .stream true => (returned true, { s with queued := s.queued ++ [bs] })
    | .stream false => (returned false, s)
    | .datagram sent => (returned sent, { s with datagrams := s.datagrams ++ [bs] })
    | .failing _ => (returned false, { s with datagrams := s.datagrams ++ [bs] })
  | returned accepted => (returned accepted, s)

/-- One step of a thread.  A call that finds the socket failing ends the connection before it
returns. -/
def Thread.step (s : Shared) : Thread → Thread × Shared
  | disconnect cause next =>
    let (next, s) := next.step cause s
    (disconnect cause next, s)
  | start next =>
    let (next, s) := next.step s
    (start next, s)
  | send bs (.failing cause) .pass =>
    (disconnect cause .load, ((Sending.pass).step bs (.failing cause) s).2)
  | send bs outlet next =>
    let (next, s) := next.step bs outlet s
    (send bs outlet next, s)

/-- Whether a call has returned. -/
def Thread.hasReturned : Thread → Bool
  | disconnect _ (.returned _) | start .returned | send _ _ (.returned _) => true
  | _ => false

/-- A connection and the calls on it. -/
structure System where
  shared : Shared
  threads : List Thread
  deriving DecidableEq, Repr

namespace System

/-- One step of the thread with a number. -/
def step (s : System) (i : Nat) : System :=
  match s.threads[i]? with
  | none => s
  | some t =>
    let (t, shared) := t.step s.shared
    ⟨shared, s.threads.set i t⟩

/-- Steps of threads, one after the other. -/
def run (s : System) (schedule : List Nat) : System := schedule.foldl step s

/-- A new call. -/
def call (s : System) (t : Thread) : System := { s with threads := s.threads ++ [t] }

/-- The tasks that were started and not aborted. -/
def alive (s : System) : List TaskId :=
  (List.range s.shared.spawned).filter fun t => t ∉ s.shared.aborted

end System

end Tandem.Teardown
