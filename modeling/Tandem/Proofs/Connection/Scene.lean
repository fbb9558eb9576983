import Tandem.Proofs.Connection.Course
import Tandem.Proofs.Connection.Finality

/-!
# Messages, and then the end

`Course` takes every event of a connection as a whole.  A `Scene` looks closer: a connection is
started, used and ended by threads of their own, which take single steps (`Teardown.System`), and
between any two of them the dispatcher gets on with its work.  The dispatcher is started by the
thread that claims the start, and hears of the end when the thread that ends the connection gives
the signal (`Shared.heard`).  Either way the handler is told all messages that had been let in when
the dispatcher last looked for one, in order, and then the end, once, with the cause of the call
that succeeded (`Connection.tells_messages_then_end`).  These need not be all that were let in
before the end: a message and the end may both come after the dispatcher has looked for a message
and before it looks for the end (`Connection.not_hearsAll_unheard`).
-/

namespace Tandem.Teardown

variable {before after : Shared}

/-- What the dispatcher hears of a step. -/
def Shared.heard (before after : Shared) : List Dispatcher.Event :=
  (if before.startable && !after.startable then [.start] else []) ++
    (after.signalled.drop before.signalled.length).map .announce

/-- A connection with the calls on it, and its dispatcher with its past. -/
structure Scene where
  system : System
  history : Dispatcher.History

namespace Scene

/-- A new connection. -/
def opening (capacity taskCount : Nat) : Scene := ⟨.idle taskCount, .opening capacity⟩

/-- What can happen to a connection. -/
inductive Event where
  /-- a call is made -/
  | disconnect (cause : Cause)
  | start
  | send (bs : Bytes) (outlet : Outlet)
  /-- a call takes its next step -/
  | turn (i : Nat)
  /-- the tasks that serve the sockets, and the dispatcher -/
  | offer (datagram : Bytes)
  | hold (body : Bytes)
  | settle
  | forget
  | poll
  | check
  | finish
  | conclude
  deriving DecidableEq, Repr

/-- What an event is for the calls. -/
def Event.play (s : System) : Event → System
  | disconnect cause => s.call (.disconnect cause .load)
  | start => s.call (.start .claim)
  | send bs outlet => s.call (.send bs outlet .load)
  | turn i => s.step i
  | offer _ | hold _ | settle | forget | poll | check | finish | conclude => s

/-- What an event is for the dispatcher. -/
def events (s : Scene) : Event → List Dispatcher.Event
  | .turn i => s.system.shared.heard (s.system.step i).shared
  | .offer datagram => [.offer datagram]
  | .hold body => [.hold body]
  | .settle => [.settle]
  | .forget => [.forget]
  | .poll => [.poll]
  | .check => [.check]
  | .finish => [.finish]
  | .conclude => [.conclude]
  | .disconnect _ | .start | .send _ _ => []

/-- What becomes of a connection by an event. -/
def step (s : Scene) (e : Event) : Scene := ⟨e.play s.system, s.history.run (s.events e)⟩

theorem isQuiet_of_mem_heard {x : Dispatcher.Event} (h : x ∈ before.heard after) : x.IsQuiet := by
  rcases List.mem_append.1 h with h | h
  · split at h
    · exact List.mem_singleton.1 h ▸ .start
    · cases h
  · obtain ⟨cause, -, rfl⟩ := List.mem_map.1 h
    exact .announce cause

theorem serves_step (s : Scene) (e : Event) :
    s.history.dispatcher.Serves (s.step e).history.dispatcher := by
  rw [show (s.step e).history = s.history.run (s.events e) from rfl,
    Dispatcher.History.dispatcher_run]
  cases e with
  | turn i => exact Dispatcher.serves_run_of_quiet fun x => isQuiet_of_mem_heard
  | disconnect _ | start | send _ _ => exact Dispatcher.serves_run_of_quiet fun x h => by cases h
  | offer _ | hold _ | settle | forget | poll | check | finish | conclude =>
    exact s.history.dispatcher.serves_run_singleton _

/-- A connection with the calls on it, as a system that a dispatcher is part of. -/
def host : Dispatcher.Host Scene Event where
  step := step
  history := history
  events := events
  history_step _ _ := rfl
  serves := serves_step

theorem isTurn {es : List Event} (hfinish : .finish ∈ es) (hpoll : .poll ∈ es)
    (hcheck : .check ∈ es) (hconclude : .conclude ∈ es) : host.IsTurn es := by
  rintro x (rfl | rfl | rfl | rfl)
  · exact ⟨.finish, hfinish, fun _ => List.mem_singleton_self _⟩
  · exact ⟨.poll, hpoll, fun _ => List.mem_singleton_self _⟩
  · exact ⟨.check, hcheck, fun _ => List.mem_singleton_self _⟩
  · exact ⟨.conclude, hconclude, fun _ => List.mem_singleton_self _⟩

theorem leads_run {s : Scene} {system : System} (hs : system.Leads s.system) (es : List Event) :
    system.Leads (host.run s es).system := by
  induction es generalizing s with
  | nil => exact hs
  | cons e es ih =>
    refine ih (s := s.step e) ?_
    cases e with
    | disconnect cause => exact hs.call (.disconnect cause)
    | start => exact hs.call .start
    | send bs outlet => exact hs.call (.send bs outlet)
    | turn i => exact hs.step i
    | offer _ | hold _ | settle | forget | poll | check | finish | conclude => exact hs

end Scene

/-! ### What the dispatcher hears -/

theorem Thread.heard_step (s : Shared) (t : Thread) :
    (∃ causes, (t.step s).2.signalled = s.signalled ++ causes) ∧
      (s.startable = false → (t.step s).2.startable = false) := by
  cases t with
  | disconnect cause next =>
    obtain ⟨-, -, hstartable⟩ := next.step_tasks cause s
    refine ⟨?_, fun h => hstartable.trans h⟩
    cases next with
    | exchange seen =>
      simp only [Thread.step, Disconnecting.step]
      split_ifs <;> exact ⟨[], (List.append_nil _).symm⟩
    | abort left => cases left <;> exact ⟨[], (List.append_nil _).symm⟩
    | signal =>
      simp only [Thread.step, Disconnecting.step]
      split_ifs
      · exact ⟨[cause], rfl⟩
      · exact ⟨[], (List.append_nil _).symm⟩
    | load | unlist | closeSocket | takeTasks | store | returned _ =>
      exact ⟨[], (List.append_nil _).symm⟩
  | start next =>
    obtain ⟨startable, tasks, spawned, heq, hstartable⟩ := next.step_frame s
    rw [show ((Thread.start next).step s).2 = _ from heq]
    exact ⟨⟨[], (List.append_nil _).symm⟩, hstartable⟩
  | send bs outlet next =>
    obtain ⟨t, -, hstep⟩ := Thread.step_send s bs outlet next
    obtain ⟨queued, datagrams, heq⟩ := next.step_frame bs outlet s
    rw [hstep, heq]
    exact ⟨⟨[], (List.append_nil _).symm⟩, id⟩

namespace Scene

variable {s : Scene} {taskCount : Nat}

/-- The dispatcher knows what the calls have come to. -/
structure Linked (s : Scene) : Prop where
  told_eq : s.history.told.map Prod.snd = s.system.shared.signalled.head?
  started_iff : s.history.dispatcher.phase = .unstarted ↔ s.system.shared.startable = true

theorem linked_opening (capacity taskCount : Nat) : Linked (opening capacity taskCount) where
  told_eq := rfl
  started_iff := ⟨fun _ => rfl, fun _ => rfl⟩

theorem Linked.hear (h : s.Linked) {system : System} {causes : List Cause}
    (hsignalled : system.shared.signalled = s.system.shared.signalled ++ causes)
    (honce : system.shared.signalled.length ≤ 1)
    (hstartable : s.system.shared.startable = false → system.shared.startable = false) :
    Linked ⟨system, s.history.run (s.system.shared.heard system.shared)⟩ := by
  have hheard : s.system.shared.heard system.shared =
      (if s.system.shared.startable && !system.shared.startable then [.start] else []) ++
        causes.map .announce := by
    rw [Shared.heard, hsignalled, List.drop_left]
  rw [hheard]
  constructor
  · -- a start tells nothing, and at most one cause is told
    cases causes with
    | nil =>
      rw [hsignalled, List.append_nil, ← h.told_eq]
      split_ifs <;> rfl
    | cons cause causes =>
      rw [hsignalled, List.length_append, List.length_cons] at honce
      obtain hnil : s.system.shared.signalled = [] := List.length_eq_zero_iff.1 (by omega)
      obtain rfl : causes = [] := List.length_eq_zero_iff.1 (by omega)
      have hnone := h.told_eq
      rw [hnil, List.head?_nil, Option.map_eq_none_iff] at hnone
      rw [hsignalled, hnil]
      split_ifs <;>
        simp [Dispatcher.History.run, Dispatcher.History.step, hnone]
  -- only the claim of a start starts the dispatcher
  · rw [show s.history.run (_ ++ causes.map .announce) =
      (s.history.run _).run (causes.map .announce) from List.foldl_append,
      Dispatcher.History.phase_run_announce]
    split_ifs with hclaimed
    · obtain ⟨-, hclaimed⟩ := Bool.and_eq_true_iff.1 hclaimed
      simp only [Bool.not_eq_true'] at hclaimed
      rw [hclaimed]
      simp [Dispatcher.History.run, Dispatcher.History.step, Dispatcher.step,
        Dispatcher.started_start]
    · rw [show (s.history.run []).dispatcher = s.history.dispatcher from rfl, h.started_iff]
      cases hs : s.system.shared.startable with
      | false => rw [hstartable hs]
      | true => simpa [hs] using hclaimed

/-- **Every event** leaves the dispatcher knowing what the calls have come to. -/
theorem Linked.step (h : s.Linked) (hs : s.system.Coherent taskCount) (e : Event) :
    (s.step e).Linked := by
  cases e with
  | turn i =>
    have honce := (hs.step i).signalled_eq
    rw [← honce.1] at honce
    have hheard : ∃ causes,
        (s.system.step i).shared.signalled = s.system.shared.signalled ++ causes ∧
          (s.system.shared.startable = false → (s.system.step i).shared.startable = false) := by
      cases ht : s.system.threads[i]? with
      | none =>
        rw [System.step_of_none ht]
        exact ⟨[], (List.append_nil _).symm, id⟩
      | some t =>
        obtain ⟨-, -, -, -, hshared⟩ := System.exists_threads_eq ht
        rw [hshared]
        obtain ⟨⟨causes, hcauses⟩, hstartable⟩ := t.heard_step s.system.shared
        exact ⟨causes, hcauses, hstartable⟩
    obtain ⟨causes, hsignalled, hstartable⟩ := hheard
    exact h.hear hsignalled honce.2 hstartable
  | disconnect _ | start | send _ _ => exact ⟨h.told_eq, h.started_iff⟩
  | offer _ | hold _ | settle | forget | poll | check | finish | conclude =>
    exact ⟨h.told_eq, (Dispatcher.unstarted_step_iff fun h => by cases h).trans h.started_iff⟩

theorem Linked.run (h : s.Linked) (hs : s.system.Coherent taskCount) (es : List Event) :
    (host.run s es).Linked := by
  induction es generalizing s with
  | nil => exact h
  | cons e es ih =>
    exact ih (s := s.step e) (h.step hs e) ((leads_run .refl [e]).coherent hs)

end Scene

end Tandem.Teardown

namespace Tandem.Connection

open Teardown in
/-- **A connection reports its messages, then one end, then nothing.**  Whatever happens to a
connection, the handler is told the messages in the order in which they were let in, one call at a
time, all that had been let in when the dispatcher last looked for one; then it is told the end,
once it had enough turns, with the cause of the one call that succeeded; and then it is not called
any more.  This holds where every event is taken as a whole, and also where the steps of all calls
that start the connection, send on it and end it come in between. -/
theorem tells_messages_then_end (config : EndpointConfig) (maxBody : Option Nat) (token : Token)
    (capacity taskCount : Nat) :
    (Course.host.Tells (.opening config maxBody token) ∧
      (∀ turn, .finish ∈ turn → (∃ now, .poll now ∈ turn) → .check ∈ turn → .conclude ∈ turn →
        Course.host.IsTurn turn) ∧
      ∀ es, let s := Course.host.run (.opening config maxBody token) es
        (s.won = none ∧ s.connection.state = .connected ∨
            s.won.isSome ∧ s.connection.state = .disconnected) ∧
          (s.connection.dispatcher.phase ≠ .unstarted → s.connection.start = s.connection)) ∧
    Scene.host.Tells (.opening capacity taskCount) ∧
      (∀ turn, .finish ∈ turn → .poll ∈ turn → .check ∈ turn → .conclude ∈ turn →
        Scene.host.IsTurn turn) ∧
      ∀ es, let s := Scene.host.run (.opening capacity taskCount) es
        s.history.told.map Prod.snd = s.system.successes.head? ∧
          s.system.successes.length ≤ 1 ∧
          (s.system.Ended → s.history.told.isSome) ∧
          (s.history.dispatcher.phase = .unstarted ↔ s.system.shared.startable = true) := by
  refine ⟨⟨?_, fun turn => Course.isTurn, fun es => ⟨?_, ?_⟩⟩, ?_, fun turn => Scene.isTurn,
    fun es => ?_⟩
  · exact Dispatcher.Host.tells (Dispatcher.History.faithful_opening _)
  · exact Course.won_iff _ es (.inl ⟨rfl, rfl⟩)
  · exact fun hstarted => if_neg hstarted
  · exact Dispatcher.Host.tells (Dispatcher.History.faithful_opening _)
  · have hidle := System.coherent_idle taskCount
    have hlinked := (Scene.linked_opening capacity taskCount).run hidle es
    have hcoherent := (Scene.leads_run (s := .opening capacity taskCount) .refl es).coherent hidle
    obtain ⟨hsignalled, honce⟩ := hcoherent.signalled_eq
    refine ⟨hsignalled ▸ hlinked.told_eq, honce, fun hended => ?_, hlinked.started_iff⟩
    obtain ⟨cause, hmem⟩ := hcoherent.exists_success hended
    have htold := hlinked.told_eq
    rw [(hcoherent.closed hmem).signalled_eq, List.head?_cons] at htold
    exact Option.isSome_map.symm.trans (congrArg Option.isSome htold)

/-- One message is let in before the connection is started, and one before it is ended. -/
def passage : List Event := [.datagram [1], .start, .datagram [2], .disconnect (.plain .success)]

/-- Two calls end a connection before its handler has returned, and the later one wins. -/
def overtaken : List Teardown.Scene.Event :=
  [.offer [1], .start, .turn 0, .poll, .disconnect (.plain .success),
    .disconnect (.plain .timedOut), .turn 1, .turn 2, .turn 2, .turn 1, .turn 2, .turn 2, .turn 2,
    .turn 2, .turn 0, .turn 2, .turn 2, .turn 2]

/-- Both messages are heard before the end, as they had been let in when the dispatcher began to
look for them; and the end that is told is that of the call that won. -/
theorem told_of_passage :
    (Course.host.history (Course.host.run (.opening {} none 7)
      (passage ++ (List.replicate 7 Course.turn).flatten))).dispatcher.phase = .ended ∧
    [⟨.unreliable, [1]⟩, ⟨.unreliable, [2]⟩] <+: (Course.host.history (Course.host.run
      (.opening {} none 7) (passage ++ (List.replicate 7 Course.turn).flatten))).dispatcher.handed ∧
    ((Teardown.Scene.host.run (.opening 4 2) overtaken).history.told.map Prod.snd =
      some (.plain .timedOut)) := by
  obtain ⟨⟨htells, hturn, -⟩, -, -, hscene⟩ := tells_messages_then_end {} none 7 4 2
  have hturns : ∀ es ∈ List.replicate 7 Course.turn, Course.host.IsTurn es := fun es hes => by
    obtain rfl := List.eq_of_mem_replicate hes
    exact hturn Course.turn (by decide) ⟨0, by decide⟩ (by decide) (by decide)
  refine ⟨htells.ends passage _ (by decide) (by decide) hturns (by decide),
    htells.arrives passage _ (by decide) (by decide) nofun hturns (by decide), ?_⟩
  exact (hscene overtaken).1.trans (by decide)

/-- A message is let in and the connection is ended, both after the dispatcher has looked for a
message and before it looks for the end. -/
def unheard : List Event :=
  [.start, .poll 0, .datagram [1], .disconnect (.plain .success), .check, .conclude]

/-- The same, with the steps of the calls that start and end the connection. -/
def unheardSteps : List Teardown.Scene.Event :=
  [.start, .turn 0, .poll, .offer [1], .disconnect (.plain .success)] ++
    List.replicate 9 (.turn 1) ++ [.check, .conclude]

/-- **A message that was let in before the end** is not heard there. -/
theorem not_hearsAll_unheard :
    ((Course.host.run (.opening {} none 7) unheard).won =
        some ([⟨.unreliable, [1]⟩], .plain .success) ∧
      (Course.host.run (.opening {} none 7) unheard).connection.dispatcher.calls =
        [.disconnected (.plain .success)]) ∧
    ¬ Course.host.HearsAll (.opening {} none 7) ∧
    ¬ Teardown.Scene.host.HearsAll (.opening 4 2) := by
  refine ⟨⟨by decide, by decide⟩, fun hall => ?_, fun hall => ?_⟩
  · have hheard := hall unheard [⟨.unreliable, [1]⟩] (.plain .success) (by decide) (by decide)
    exact absurd hheard (by decide)
  · have hheard := hall unheardSteps [⟨.unreliable, [1]⟩] (.plain .success) (by decide) (by decide)
    exact absurd hheard (by decide)

end Tandem.Connection
