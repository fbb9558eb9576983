import Tandem.Connection.Dispatcher
import Mathlib.Data.List.Infix
import Mathlib.Tactic.SplitIfs

/-!
# Events of a dispatcher

Whatever happens to a dispatcher and in whatever order, it is one of the events of
`Dispatcher.Event`.  All that one of them may do is said once (`Dispatcher.Goes`): it lets a message
in, announces the end, is a turn of the dispatcher that it waits for (`Phase.awaited`), or comes to
nothing.  The handler is called by one call at a time, and not at all after the end (`serves_step`).
-/

namespace Tandem

/-- The body of the stream that is on its way into an inbox, if there is one. -/
def Held.bodies : Held → List Bytes
  | nothing => []
  | waiting body | admitted body => [body]

/-- The message that the handler is called with. -/
def Call.delivery? : Call → Option Delivery
  | message d => some d
  | disconnected _ => none

namespace Dispatcher

/-- Whether the dispatcher has seen the end. -/
def isLeaving (d : Dispatcher) : Bool :=
  match d.phase with
  | .ending _ | .ended => true
  | .unstarted | .idle | .calling | .checking => false

/-- The messages that the handler was called with. -/
def handed (d : Dispatcher) : List Delivery := d.calls.filterMap Call.delivery?

/-! ### Events -/

/-- What can happen to a dispatcher. -/
inductive Event where
  | start
  /-- a datagram arrives -/
  | offer (datagram : Bytes)
  /-- a body of the stream is complete -/
  | hold (body : Bytes)
  /-- the body of the stream that a place is kept for goes into the inbox -/
  | settle
  /-- nobody reads the stream any more -/
  | forget
  | announce (cause : Cause)
  | poll
  | check
  | finish
  | conclude
  deriving DecidableEq, Repr

/-- What becomes of a dispatcher by an event. -/
def step (d : Dispatcher) : Event → Dispatcher
  | .start => d.start
  | .offer datagram => { d with inbox := (d.inbox.offer datagram).2 }
  | .hold body => { d with inbox := d.inbox.hold body }
  | .settle => { d with inbox := d.inbox.settle }
  | .forget => { d with inbox := d.inbox.forget }
  | .announce cause => d.announce cause
  | .poll => d.poll.2
  | .check => d.check
  | .finish => d.finish
  | .conclude => d.conclude

/-- What becomes of a dispatcher by events, one after the other. -/
def run (d : Dispatcher) (es : List Event) : Dispatcher := es.foldl step d

/-- The messages that an event lets into the inbox. -/
def accepts (d : Dispatcher) : Event → List Delivery
  | .offer datagram => if (d.inbox.offer datagram).1 then [⟨.unreliable, datagram⟩] else []
  | .settle =>
    match d.inbox.held with
    | .admitted body => [⟨.reliable, body⟩]
    | _ => []
  | _ => []

/-! ### All that an event may do -/

/-- The event that a started dispatcher waits for, if the end was announced. -/
def Phase.awaited : Phase → Option Event
  | calling => some .finish
  | idle => some .poll
  | checking => some .check
  | ending _ => some .conclude
  | unstarted | ended => none

/-- The events of the dispatcher itself, which neither let messages in nor announce the end. -/
inductive Event.IsOwn : Event → Prop
  | start : IsOwn .start
  | poll : IsOwn .poll
  | check : IsOwn .check
  | finish : IsOwn .finish
  | conclude : IsOwn .conclude

/-- All that an event may do. -/
inductive Goes (d : Dispatcher) : Event → Dispatcher → Prop
  /-- it does not come in its turn -/
  | stays {e : Event} (hown : e.IsOwn) (hawaited : d.phase.awaited ≠ some e)
      (hstart : e = .start → d.phase ≠ .unstarted) : Goes d e d
  | starts (hphase : d.phase = .unstarted) : Goes d .start { d with phase := .idle }
  /-- the handler is called with the oldest message -/
  | message {x : Delivery} {items : List Delivery} {held : Held} (hphase : d.phase = .idle)
      (htake : d.inbox.take? = some (x, { d.inbox with items, held }))
      (hitems : d.inbox.items = x :: items) (hheld : held.bodies = d.inbox.held.bodies) :
      Goes d .poll { d with
        inbox := { d.inbox with items, held }, phase := .calling, calls := d.calls ++ [.message x] }
  /-- there is no message -/
  | misses (hphase : d.phase = .idle) (hitems : d.inbox.items = []) :
      Goes d .poll { d with phase := .checking }
  /-- the end has not been announced -/
  | resumes (hphase : d.phase = .checking) (hsignal : d.signal = none) :
      Goes d .check { d with phase := .idle }
  | sees {cause : Cause} (hphase : d.phase = .checking) (hsignal : d.signal = some cause) :
      Goes d .check { d with phase := .ending cause }
  | returns (hphase : d.phase = .calling) : Goes d .finish { d with phase := .idle }
  | reports {cause : Cause} (hphase : d.phase = .ending cause) :
      Goes d .conclude { d with
        inbox := d.inbox.close, phase := .ended, calls := d.calls ++ [.disconnected cause] }
  | offers (datagram : Bytes) :
      Goes d (.offer datagram) { d with inbox := (d.inbox.offer datagram).2 }
  | holds (body : Bytes) : Goes d (.hold body) { d with inbox := d.inbox.hold body }
  | settles : Goes d .settle { d with inbox := d.inbox.settle }
  | forgets : Goes d .forget { d with inbox := d.inbox.forget }
  | announces (cause : Cause) :
      Goes d (.announce cause) { d with signal := d.signal.or (some cause) }

theorem goes_start (d : Dispatcher) : d.Goes .start d.start := by
  unfold start
  split_ifs with hphase
  · exact .starts hphase
  · refine .stays .start ?_ fun _ => hphase
    cases d.phase <;> simp [Phase.awaited]

theorem goes_poll (d : Dispatcher) : d.Goes .poll d.poll.2 := by
  obtain ⟨⟨capacity, items, held, closed⟩, signal, phase, calls⟩ := d
  cases phase with
  | unstarted | calling | checking | ending _ | ended =>
    exact .stays .poll (by simp [Phase.awaited]) Event.noConfusion
  | idle =>
    cases items with
    | cons x items => cases held <;> exact .message rfl rfl rfl rfl
    | nil => exact .misses rfl rfl

theorem goes_check (d : Dispatcher) : d.Goes .check d.check := by
  obtain ⟨inbox, signal, phase, calls⟩ := d
  cases phase with
  | unstarted | idle | calling | ending _ | ended =>
    exact .stays .check (by simp [Phase.awaited]) Event.noConfusion
  | checking =>
    cases signal with
    | none => exact .resumes rfl rfl
    | some cause => exact .sees rfl rfl

theorem goes_finish (d : Dispatcher) : d.Goes .finish d.finish := by
  obtain ⟨inbox, signal, phase, calls⟩ := d
  cases phase with
  | unstarted | idle | checking | ending _ | ended =>
    exact .stays .finish (by simp [Phase.awaited]) Event.noConfusion
  | calling => exact .returns rfl

theorem goes_conclude (d : Dispatcher) : d.Goes .conclude d.conclude := by
  obtain ⟨inbox, signal, phase, calls⟩ := d
  cases phase with
  | unstarted | idle | calling | checking | ended =>
    exact .stays .conclude (by simp [Phase.awaited]) Event.noConfusion
  | ending cause => exact .reports rfl

/-- **Each event** does one of these things. -/
theorem goes_step (d : Dispatcher) (e : Event) : d.Goes e (d.step e) := by
  cases e with
  | start => exact d.goes_start
  | offer datagram => exact .offers datagram
  | hold body => exact .holds body
  | settle => exact .settles
  | forget => exact .forgets
  | announce cause => exact .announces cause
  | poll => exact d.goes_poll
  | check => exact d.goes_check
  | finish => exact d.goes_finish
  | conclude => exact d.goes_conclude

variable {d d' : Dispatcher} {e : Event}

theorem Event.IsOwn.accepts_eq (h : e.IsOwn) (d : Dispatcher) : d.accepts e = [] := by
  cases h <;> rfl

/-- **Taking messages in** puts them behind those that wait. -/
theorem items_step (hpoll : e = .poll → d.phase ≠ .idle)
    (hconclude : e = .conclude → ∀ cause, d.phase ≠ .ending cause) :
    (d.step e).inbox.items = d.inbox.items ++ d.accepts e := by
  have hgoes := d.goes_step e
  generalize d.step e = d' at hgoes
  cases hgoes with
  | stays hown => rw [hown.accepts_eq, List.append_nil]
  | offers datagram =>
    by_cases hc : (datagram.isEmpty || d.inbox.closed || d.inbox.isFull) = true
    · simp only [accepts, Inbox.offer, if_pos hc, Bool.false_eq_true, if_false, List.append_nil]
    · simp only [accepts, Inbox.offer, if_neg hc, if_true]
  | settles =>
    simp only [accepts, Inbox.settle]
    cases d.inbox.held with
    | admitted body => rfl
    | nothing | waiting _ => exact (List.append_nil _).symm
  | message hphase | misses hphase => exact absurd hphase (hpoll rfl)
  | reports hphase => exact absurd hphase (hconclude rfl _)
  | starts | resumes | sees | returns | holds | forgets | announces =>
    exact (List.append_nil _).symm

/-! ### One call at a time -/

/-- What an event may have to do with the handler. -/
inductive Serves (d d' : Dispatcher) : Prop
  /-- it is not called; if it is in a call, it stays in it or returns from it, and after the end
  nothing goes on -/
  | quiet (hcalls : d'.calls = d.calls)
      (hcalling : d.phase = .calling → d'.phase = .calling ∨ d' = d.finish)
      (hended : d.phase = .ended → d'.phase = .ended)
  /-- it is not in a call, and is called with a message -/
  | message (x : Delivery) (hidle : d.phase = .idle) (hphase : d'.phase = .calling)
      (hcalls : d'.calls = d.calls ++ [.message x])
  /-- it is not in a call, and is told the end -/
  | disconnected (cause : Cause) (hending : d.phase = .ending cause) (hphase : d'.phase = .ended)
      (hcalls : d'.calls = d.calls ++ [.disconnected cause])

/-- An event that is no turn of the dispatcher. -/
inductive Event.IsQuiet : Event → Prop
  | start : IsQuiet .start
  | offer (datagram : Bytes) : IsQuiet (.offer datagram)
  | hold (body : Bytes) : IsQuiet (.hold body)
  | settle : IsQuiet .settle
  | forget : IsQuiet .forget
  | announce (cause : Cause) : IsQuiet (.announce cause)

theorem awaited_ne_of_quiet (h : e.IsQuiet) (phase : Phase) : phase.awaited ≠ some e := by
  cases h <;> cases phase <;> simp [Phase.awaited]

theorem quiet_step (h : e.IsQuiet) :
    (d.step e).calls = d.calls ∧ (d.phase = .calling → (d.step e).phase = .calling) ∧
      (d.phase = .ended → (d.step e).phase = .ended) := by
  have hgoes := d.goes_step e
  generalize d.step e = d' at hgoes
  cases hgoes with
  | starts hphase =>
    refine ⟨rfl, fun hc => ?_, fun hc => ?_⟩ <;>
      · rw [hphase] at hc
        cases hc
  | stays | offers | holds | settles | forgets | announces => exact ⟨rfl, id, id⟩
  | message | misses | resumes | sees | returns | reports => cases h

theorem quiet_run {es : List Event} (h : ∀ e ∈ es, e.IsQuiet) :
    (d.run es).calls = d.calls ∧ (d.phase = .calling → (d.run es).phase = .calling) ∧
      (d.phase = .ended → (d.run es).phase = .ended) := by
  induction es generalizing d with
  | nil => exact ⟨rfl, id, id⟩
  | cons e es ih =>
    obtain ⟨hcalls, hcalling, hended⟩ := quiet_step (d := d) (h e List.mem_cons_self)
    obtain ⟨hcalls', hcalling', hended'⟩ := ih (d := d.step e) fun e' h' =>
      h e' (List.mem_cons_of_mem _ h')
    exact ⟨hcalls'.trans hcalls, hcalling' ∘ hcalling, hended' ∘ hended⟩

/-- Where the dispatcher has no turn, the handler is not called. -/
theorem serves_run_of_quiet {es : List Event} (h : ∀ e ∈ es, e.IsQuiet) :
    d.Serves (d.run es) := by
  obtain ⟨hcalls, hcalling, hended⟩ := quiet_run (d := d) h
  exact .quiet hcalls (fun hc => .inl (hcalling hc)) hended

/-- **The handler is called by one call at a time**, and not at all after the end. -/
theorem serves_step (d : Dispatcher) (e : Event) : d.Serves (d.step e) := by
  have hgoes := d.goes_step e
  generalize d.step e = d' at hgoes
  cases hgoes with
  | @message x items held hphase => exact .message x hphase rfl rfl
  | @reports cause hphase => exact .disconnected cause hphase rfl rfl
  | returns hphase =>
    refine .quiet rfl (fun _ => .inr (if_pos hphase).symm) fun hended => ?_
    rw [hphase] at hended
    cases hended
  | starts hphase | misses hphase | resumes hphase | sees hphase =>
    refine .quiet rfl (fun hc => ?_) fun hc => ?_ <;>
      · rw [hphase] at hc
        cases hc
  | stays | offers | holds | settles | forgets | announces => exact .quiet rfl .inl id

theorem serves_run_singleton (d : Dispatcher) (e : Event) : d.Serves (d.run [e]) := d.serves_step e

theorem start_eq (d : Dispatcher) : ∃ phase, d.start = { d with phase } := by
  unfold start
  split_ifs <;> exact ⟨_, rfl⟩

theorem start_of_started (h : d.phase ≠ .unstarted) : d.start = d := if_neg h

theorem started_start (d : Dispatcher) : d.start.phase ≠ .unstarted := by
  unfold start
  split_ifs with h
  · exact Phase.noConfusion
  · exact h

theorem signal_step {cause : Cause} (h : d.signal = some cause) (e : Event) :
    (d.step e).signal = some cause := by
  have hgoes := d.goes_step e
  generalize d.step e = d' at hgoes
  cases hgoes with
  | announces cause' => simp only [h, Option.some_or]
  | _ => exact h

end Dispatcher

end Tandem
