import Tandem.Proofs.Connection.Host
import Tandem.Proofs.Connection.Steps

/-!
# A connection as its dispatcher sees it

Whatever happens to a connection, it is one of a few things for the dispatcher: something is let
into the inbox, the handler is served, or the connection ends.  Ends come from anywhere: a call of
the application, the peer, a socket that fails, a frame that is refused (`Connection.trigger?`); but
they all go through `Connection.disconnectWith`, and only the first one gets through to the
dispatcher (`Connection.wins?`).
-/

namespace Tandem

namespace Connection

variable {c : Connection} {e : Event} {cause : Cause}

/-- The cause for which an event ends the connection: it calls for the end, and nobody did
before. -/
def wins? (c : Connection) (e : Event) : Option Cause :=
  (c.trigger? e).filter fun cause => (c.disconnectWith cause).1

/-- The body of the stream that an event completes, if it does. -/
def completes? (c : Connection) : Event → Option Bytes
  | .read piece =>
    match (c.assembly.take c.maxBody piece).1 with
    | .ok (some body) => if c.isReading then some body else none
    | _ => none
  | _ => none

/-- What an event is for the dispatcher. -/
def dispatches (c : Connection) : Event → List Dispatcher.Event
  | .start => [.start]
  | .settle => [.settle]
  | .datagram bs => [.offer (fitting bs)]
  | .poll _ => [.poll]
  | .check => [.check]
  | .finish => [.finish]
  | .conclude => [.conclude]
  | e =>
    ((c.completes? e).map .hold).toList ++
      match c.wins? e with
      | some cause => [.forget, .announce cause]
      | none => []

theorem dispatches_of_trigger (h : c.trigger? e = some cause) :
    c.dispatches e = if c.state.isEnding then [] else [.forget, .announce cause] := by
  have hwins : c.wins? e = if c.state.isEnding then none else some cause := by
    simp only [wins?, h, Option.filter_some, (c.disconnectWith_eq cause).1]
    cases c.state.isEnding <;> rfl
  have hnone : c.completes? e = none := by
    cases e with
    | read piece =>
      simp only [trigger?] at h
      simp only [completes?]
      split at h
      · next herr => simp only [herr]
      · cases h
    | _ => rfl
  cases e with
  | start | settle | datagram _ | poll _ | check | finish | conclude => cases h
  | send _ _ _ | write _ | read _ | readEnd | readFailed _ | datagramFailed _ | disconnect _ =>
    simp only [dispatches, hwins, hnone]
    cases c.state.isEnding <;> rfl

theorem dispatches_read {piece : Bytes} {body : Option Bytes} {assembly : Frame.Assembly}
    (hreading : c.isReading = true)
    (htake : c.assembly.take c.maxBody piece = (.ok body, assembly)) :
    c.dispatches (.read piece) = (body.map .hold).toList := by
  have hwins : c.wins? (.read piece) = none := by
    simp only [wins?, trigger?, htake, Option.filter_none]
  have hbody : c.completes? (.read piece) = body := by
    cases body <;> simp only [completes?, htake, hreading, if_true]
  simp only [dispatches, hwins, hbody, List.append_nil]

/-- **Every event** is for the dispatcher what `dispatches` says. -/
theorem dispatcher_step (c : Connection) (e : Event) :
    (c.step e).dispatcher = c.dispatcher.run (c.dispatches e) := by
  cases htrigger : c.trigger? e with
  | some cause =>
    obtain ⟨assembly, traffic, heq⟩ := step_of_trigger htrigger
    rw [heq, (disconnectWith_eq _ cause).2.2, dispatches_of_trigger htrigger]
    cases c.state.isEnding <;> rfl
  | none =>
    have hwins : c.wins? e = none := by
      rw [wins?, htrigger]
      rfl
    have hgoes := goes_step htrigger
    generalize c.step e = c' at hgoes
    cases hgoes with
    | stays hstart houter _ _ hreading =>
      cases e with
      | start => exact (Dispatcher.start_of_started (hstart rfl)).symm
      | settle => exact absurd .settle (houter _)
      | datagram bs => exact absurd (.datagram bs) (houter _)
      | poll now => exact absurd (.poll now) (houter _)
      | check => exact absurd .check (houter _)
      | finish => exact absurd .finish (houter _)
      | conclude => exact absurd .conclude (houter _)
      | read piece =>
        have hnone : c.completes? (.read piece) = none := by
          simp only [completes?, hreading piece rfl]
          split <;> rfl
        simp only [dispatches, hwins, hnone]
        rfl
      | send _ _ _ | write _ | readEnd | readFailed _ | datagramFailed _ | disconnect _ =>
        simp only [dispatches, hwins]
        rfl
    | starts hphase => rfl
    | queues a | sends traffic | writes frame traffic =>
      simp only [dispatches, hwins]
      rfl
    | reads traffic hreading htake => rw [dispatches_read hreading htake]
    | serves trips traffic hinner => cases hinner <;> rfl

/-- What an event is for the dispatcher is no turn of it, unless the event is such a turn itself. -/
theorem isQuiet_or_isInner {x : Dispatcher.Event} (hx : x ∈ c.dispatches e) :
    x.IsQuiet ∨ e.IsInner x := by
  cases e with
  | start => exact .inl (List.mem_singleton.1 hx ▸ .start)
  | settle => exact .inr (List.mem_singleton.1 hx ▸ .settle)
  | datagram bs => exact .inr (List.mem_singleton.1 hx ▸ .datagram bs)
  | poll now => exact .inr (List.mem_singleton.1 hx ▸ .poll now)
  | check => exact .inr (List.mem_singleton.1 hx ▸ .check)
  | finish => exact .inr (List.mem_singleton.1 hx ▸ .finish)
  | conclude => exact .inr (List.mem_singleton.1 hx ▸ .conclude)
  | send _ _ _ | write _ | read _ | readEnd | readFailed _ | datagramFailed _ | disconnect _ =>
    refine .inl ?_
    simp only [dispatches, List.mem_append, Option.mem_toList, Option.map_eq_some_iff] at hx
    rcases hx with ⟨body, -, rfl⟩ | hx
    · exact .hold body
    · split at hx
      · rcases List.mem_pair.1 hx with rfl | rfl
        · exact .forget
        · exact .announce _
      · cases hx

/-- **Every event** ends a connection if it wins, and leaves its state alone otherwise. -/
theorem state_step (c : Connection) (e : Event) :
    (c.step e).state = if (c.wins? e).isSome then .disconnected else c.state := by
  cases htrigger : c.trigger? e with
  | some cause =>
    obtain ⟨assembly, traffic, heq⟩ := step_of_trigger htrigger
    rw [heq, (disconnectWith_eq _ cause).2.1]
    simp only [wins?, htrigger, Option.filter_some, (c.disconnectWith_eq cause).1]
    cases c.state.isEnding <;> rfl
  | none =>
    have hstate : (c.step e).state = c.state := by
      have hgoes := goes_step htrigger
      generalize c.step e = c' at hgoes
      cases hgoes <;> rfl
    rw [hstate, wins?, htrigger]
    rfl

/-! ### Courses -/

/-- A connection with its past. -/
structure Course where
  connection : Connection
  /-- all messages that were let in, oldest first -/
  accepted : List Delivery
  /-- the messages that had been let in when the connection was ended, and the cause for which it
  was -/
  won : Option (List Delivery × Cause)
  /-- the dispatcher's last look for a message -/
  looked : Dispatcher.Look

namespace Course

/-- A new connection. -/
def opening (config : EndpointConfig) (maxBody : Option Nat) (token : Token) : Course :=
  ⟨create config maxBody token, [], none, ⟨[], false⟩⟩

/-- The messages that an event lets into the inbox. -/
def accepts (c : Connection) : Event → List Delivery
  | .datagram bs => c.dispatcher.accepts (.offer (fitting bs))
  | .settle => c.dispatcher.accepts .settle
  | _ => []

/-- What becomes of a connection and its past by an event. -/
def step (s : Course) (e : Event) : Course where
  connection := s.connection.step e
  accepted := s.accepted ++ accepts s.connection e
  won := s.won.or ((s.connection.wins? e).map fun cause => (s.accepted, cause))
  looked :=
    match e with
    | .poll _ =>
      if s.connection.dispatcher.phase = .idle then ⟨s.accepted, s.won.isSome⟩ else s.looked
    | _ => s.looked

/-- What the course of a connection is for the dispatcher. -/
def history (s : Course) : Dispatcher.History :=
  ⟨s.connection.dispatcher, s.accepted, s.won, s.looked⟩

theorem history_step (s : Course) (e : Event) :
    (s.step e).history = s.history.run (s.connection.dispatches e) := by
  have hd := s.connection.dispatcher_step e
  cases e with
  | start | settle | datagram _ | poll _ | check | finish | conclude =>
    simp only [history, step, hd, wins?, trigger?, Option.filter_none, Option.map_none,
      Option.or_none]
    rfl
  | send _ _ _ | write _ | read _ | readEnd | readFailed _ | datagramFailed _ | disconnect _ =>
    simp only [history, step, hd, dispatches, accepts]
    cases s.connection.completes? _ <;> cases s.connection.wins? _ <;>
      simp [Dispatcher.History.run, Dispatcher.History.step, Dispatcher.run, Dispatcher.accepts]

theorem serves_step (s : Course) (e : Event) :
    s.connection.dispatcher.Serves (s.connection.step e).dispatcher := by
  rw [dispatcher_step]
  cases e with
  | start | settle | datagram _ | poll _ | check | finish | conclude =>
    exact s.connection.dispatcher.serves_run_singleton _
  | send _ _ _ | write _ | read _ | readEnd | readFailed _ | datagramFailed _ | disconnect _ =>
    exact Dispatcher.serves_run_of_quiet fun x hx =>
      (isQuiet_or_isInner hx).resolve_right fun hinner => by cases hinner

/-- A connection with its past, as a system that a dispatcher is part of. -/
def host : Dispatcher.Host Course Event where
  step := step
  history := history
  events s e := s.connection.dispatches e
  history_step := history_step
  serves := serves_step

theorem isTurn {es : List Event} (hfinish : .finish ∈ es) (hpoll : ∃ now, .poll now ∈ es)
    (hcheck : .check ∈ es) (hconclude : .conclude ∈ es) : host.IsTurn es := by
  obtain ⟨now, hpoll⟩ := hpoll
  rintro x (rfl | rfl | rfl | rfl)
  · exact ⟨.finish, hfinish, fun _ => List.mem_singleton_self _⟩
  · exact ⟨.poll now, hpoll, fun _ => List.mem_singleton_self _⟩
  · exact ⟨.check, hcheck, fun _ => List.mem_singleton_self _⟩
  · exact ⟨.conclude, hconclude, fun _ => List.mem_singleton_self _⟩

/-- The handler returns, the dispatcher looks for a message, looks for the end and reports it. -/
def turn : List Event := [.finish, .poll 0, .check, .conclude]

/-- After a look that comes behind the end of the connection, all looks do. -/
theorem told_step {s : Course} {delivered : List Delivery} (hf : s.history.Faithful delivered)
    (h : s.looked.told = true) (e : Event) : (s.step e).looked.told = true := by
  cases e with
  | poll now =>
    obtain ⟨before, cause, htold, -⟩ := hf.coherent.early h
    have hwon : s.won.isSome = true := by
      rw [show s.won = some (before, cause) from htold]
      rfl
    simp only [step]
    split_ifs
    · exact hwon
    · exact h
  | _ => exact h

/-- **A connection is disconnected** from when a call for its end has won. -/
theorem won_iff (s : Course) (es : List Event)
    (hs : s.won = none ∧ s.connection.state = .connected ∨
      s.won.isSome ∧ s.connection.state = .disconnected) :
    (host.run s es).won = none ∧ (host.run s es).connection.state = .connected ∨
      (host.run s es).won.isSome ∧ (host.run s es).connection.state = .disconnected := by
  induction es generalizing s with
  | nil => exact hs
  | cons e es ih =>
    refine ih (s.step e) ?_
    simp only [step, state_step]
    rcases hs with ⟨hwon, hstate⟩ | ⟨hwon, hstate⟩
    · rw [hwon, hstate, Option.none_or]
      cases s.connection.wins? e with
      | none => exact .inl ⟨rfl, rfl⟩
      | some cause => exact .inr ⟨rfl, rfl⟩
    -- once somebody has won, nobody else does
    · have hlate : s.connection.wins? e = none := by
        rw [wins?, Option.filter_eq_none_iff]
        intro cause _
        rw [(s.connection.disconnectWith_eq cause).1, hstate]
        decide
      rw [hlate, Option.map_none, Option.or_none]
      exact .inr ⟨hwon, hstate⟩

end Course

end Connection

end Tandem
