import Tandem.Proofs.Connection.Sending
import Tandem.Proofs.Frame.Assembly

/-!
# From the stream to the handler

A connection that has read some bytes of the stream has let the bodies in them into its inbox, in
order, except for the last one if that still waits for its place; what is left of the bytes is the
beginning of the next frame (`Course.Going`).  When it ends, the bodies that were let in before
stay, and no more are let in (`Course.Over`).  This is kept by every event (`Hears.step`), so that
the handler hears the first bodies in what the connection has read (`Hears.heard_isPrefix`).
-/

namespace Tandem

/-- The body of a message that came over the stream. -/
def Delivery.reliable? (d : Delivery) : Option Bytes :=
  match d.channel with
  | .reliable => some d.body
  | .unreliable => none

/-- The bodies of the messages that came over the stream. -/
def reliables (ds : List Delivery) : List Bytes := ds.filterMap Delivery.reliable?

/-- The body that a call of the handler passes on, if it came over the stream. -/
def Call.reliable? : Call → Option Bytes
  | message d => d.reliable?
  | disconnected _ => none

theorem reliables_append (ds ds' : List Delivery) :
    reliables (ds ++ ds') = reliables ds ++ reliables ds' := List.filterMap_append

theorem reliables_isPrefix {ds ds' : List Delivery} (h : ds <+: ds') :
    reliables ds <+: reliables ds' := h.filterMap _

theorem Inbox.bodies_hold {i : Inbox} (h : i.closed = false) (body : Bytes) :
    (i.hold body).held.bodies = [body] := by
  rw [hold, h]
  cases i.isFull <;> rfl

namespace Dispatcher

variable {d : Dispatcher} {e : Connection.Event} {x : Event}

/-- What the inbox and the handler do on their own: the body that is on its way is passed on from
one place to the next, and only datagrams are let in besides it. -/
theorem received_step (hinner : e.IsInner x) (hopen : ∀ cause, d.phase ≠ .ending cause) :
    reliables (d.accepts x) ++ (d.step x).inbox.held.bodies = d.inbox.held.bodies ∧
      (d.step x).inbox.closed = d.inbox.closed := by
  have hgoes := d.goes_step x
  generalize d.step x = d' at hgoes
  cases hgoes with
  | stays hown =>
    rw [hown.accepts_eq]
    exact ⟨rfl, rfl⟩
  | misses | resumes | sees | returns => exact ⟨rfl, rfl⟩
  | message _ _ _ hheld => exact ⟨hheld, rfl⟩
  | reports hphase => exact absurd hphase (hopen _)
  | settles =>
    simp only [accepts, Inbox.settle]
    cases hheld : d.inbox.held with
    | nothing | waiting _ =>
      simp only [hheld]
      exact ⟨rfl, trivial⟩
    | admitted body => exact ⟨rfl, rfl⟩
  | offers bs =>
    simp only [accepts, Inbox.offer]
    split_ifs <;> exact ⟨rfl, rfl⟩
  | starts | holds | forgets | announces => cases hinner

theorem received_step_of_nothing (hinner : e.IsInner x) (hheld : d.inbox.held = .nothing) :
    reliables (d.accepts x) = [] ∧ (d.step x).inbox.held = .nothing := by
  have hgoes := d.goes_step x
  generalize d.step x = d' at hgoes
  cases hgoes with
  | stays hown =>
    rw [hown.accepts_eq]
    exact ⟨rfl, hheld⟩
  | misses | resumes | sees | returns => exact ⟨rfl, hheld⟩
  | @message _ _ held _ _ _ hbodies =>
    rw [hheld] at hbodies
    cases held with
    | nothing => exact ⟨rfl, rfl⟩
    | waiting _ | admitted _ => cases hbodies
  | reports => exact ⟨rfl, rfl⟩
  | settles =>
    simp only [accepts, Inbox.settle, hheld]
    exact ⟨rfl, trivial⟩
  | offers bs =>
    simp only [accepts, Inbox.offer]
    split_ifs <;> exact ⟨rfl, hheld⟩
  | starts | holds | forgets | announces => cases hinner

end Dispatcher

namespace Connection

variable {c : Connection} {e : Event} {cause : Cause}

/-- The bodies that the handler was called with and that came over the stream. -/
def heard (c : Connection) : List Bytes := c.dispatcher.calls.filterMap Call.reliable?

namespace Course

variable {s : Course} {seen : Bytes}

/-- A connection that is connected has let in all bodies in what it has read, except for one that
may be on its way; the rest is the beginning of a frame. -/
structure Going (s : Course) (seen : Bytes) : Prop where
  state : s.connection.state = .connected
  won : s.won = none
  isOpen : s.connection.dispatcher.inbox.closed = false
  took : s.connection.assembly.Took s.connection.maxBody
    (Frame.split s.connection.maxBody seen).rest
  error : (Frame.split s.connection.maxBody seen).error = none
  bodies : reliables s.accepted ++ s.connection.dispatcher.inbox.held.bodies =
    (Frame.split s.connection.maxBody seen).bodies

/-- A connection that was ended has let in the first bodies in what it had read, and lets in no
more. -/
structure Over (s : Course) (seen : Bytes) (before : List Delivery) (cause : Cause) : Prop where
  state : s.connection.state = .disconnected
  won : s.won = some (before, cause)
  held : s.connection.dispatcher.inbox.held = .nothing
  accepted : reliables s.accepted = reliables before
  bodies : reliables before <+: (Frame.split s.connection.maxBody seen).bodies
  /-- if a length was refused, they are all bodies in front of it -/
  error : (Frame.split s.connection.maxBody seen).error.isSome →
    reliables before = (Frame.split s.connection.maxBody seen).bodies ∧
      cause = .plain .protocolViolation

/-- What a connection has made of the bytes that it has read. -/
inductive Hears (s : Course) (seen : Bytes) : Prop
  | going (h : s.Going seen)
  | ended {before : List Delivery} {cause : Cause} (h : s.Over seen before cause)

theorem accepts_of_trigger (h : c.trigger? e = some cause) : accepts c e = [] := by
  cases e with
  | settle | datagram _ => cases h
  | _ => rfl

theorem accepts_of_outer (h : ∀ x, ¬ e.IsInner x) : accepts c e = [] := by
  cases e with
  | settle => exact absurd .settle (h _)
  | datagram bs => exact absurd (.datagram bs) (h _)
  | _ => rfl

theorem accepts_of_inner {x : Dispatcher.Event} (h : e.IsInner x) :
    accepts c e = c.dispatcher.accepts x ∧ c.reads e = [] := by
  cases h <;> exact ⟨rfl, rfl⟩

theorem wins_of_trigger (h : c.trigger? e = some cause) :
    c.wins? e = if c.state.isEnding then none else some cause := by
  simp only [wins?, h, Option.filter_some, (c.disconnectWith_eq cause).1]
  cases c.state.isEnding <;> rfl

theorem wins_of_trigger_none (h : c.trigger? e = none) : c.wins? e = none := by
  rw [wins?, h]
  rfl

theorem maxBody_step (c : Connection) (e : Event) : (c.step e).maxBody = c.maxBody :=
  (c.fixed_step e).2

theorem reads_of_disconnected (hv : c.Valid) (h : c.state = .disconnected) (e : Event) :
    c.reads e = [] := by
  cases e with
  | read piece =>
    have hrunning : c.isReading = false := by
      rw [isReading, Bool.and_eq_false_iff]
      refine .inl (Bool.eq_false_iff.2 fun hr => ?_)
      rw [hv.running hr] at h
      cases h
    rw [reads, hrunning]
    rfl
  | _ => rfl

theorem held_of_isReading (h : c.isReading = true) : c.dispatcher.inbox.held = .nothing := by
  rw [isReading, Bool.and_eq_true] at h
  exact of_decide_eq_true h.2

/-- Where reading ends a connection, a length was refused, and all bodies in front of it have been
let in. -/
theorem Going.refuse {piece : Bytes} (h : s.Going seen)
    (htrigger : s.connection.trigger? (.read piece) = some cause)
    (hpiece : piece.length ≤ s.connection.wanted) :
    (Frame.split s.connection.maxBody (seen ++ s.connection.reads (.read piece))).error.isSome ∧
      reliables s.accepted =
        (Frame.split s.connection.maxBody (seen ++ s.connection.reads (.read piece))).bodies ∧
      cause = .plain .protocolViolation := by
  have hcontinues := h.took.split_take hpiece
  have hsplit := Frame.split_append s.connection.maxBody seen piece
  simp only [h.error] at hsplit
  cases htake : s.connection.assembly.take s.connection.maxBody piece with
  | mk result assembly =>
    cases result with
    | ok _ => simp only [trigger?, htake, reduceCtorEq] at htrigger
    | error err =>
      simp only [trigger?, htake] at htrigger
      split_ifs at htrigger with hreading
      rw [htake] at hcontinues
      rw [hcontinues.1] at hsplit
      have hbodies := h.bodies
      rw [held_of_isReading hreading, Held.bodies, List.append_nil] at hbodies
      rw [Connection.reads, if_pos hreading, hsplit, hbodies, List.append_nil]
      exact ⟨rfl, rfl, (Option.some.inj htrigger).symm⟩

/-- **The end of a connection** leaves what was let in before.  If it comes from the stream, all
bodies in front of the length that was refused were let in. -/
theorem Going.end (h : s.Going seen) (htrigger : s.connection.trigger? e = some cause)
    (hpiece : ∀ piece, e = .read piece → piece.length ≤ s.connection.wanted) :
    (s.step e).Over (seen ++ s.connection.reads e) s.accepted cause := by
  have haccepted : (s.step e).accepted = s.accepted := by
    simp only [step, accepts_of_trigger htrigger, List.append_nil]
  have hwon : (s.step e).won = some (s.accepted, cause) := by
    simp only [step, h.won, wins_of_trigger htrigger, h.state]
    rfl
  have hmax : (s.step e).connection.maxBody = s.connection.maxBody := maxBody_step _ e
  obtain ⟨assembly, traffic, heq⟩ := step_of_trigger_of_connected htrigger h.state
  have hconnection : (s.step e).connection = _ := heq
  refine ⟨by rw [hconnection], hwon, by rw [hconnection]; rfl, by rw [haccepted], ?_, ?_⟩
  · rw [hmax]
    have hprefix := List.prefix_append seen (s.connection.reads e)
    exact (h.bodies ▸ List.prefix_append _ _).trans (Frame.split_isPrefix hprefix).1
  · rw [hmax]
    intro herror
    -- what was read before holds no refused length, so this event has read it
    cases e with
    | read piece => exact (h.refuse htrigger (hpiece piece rfl)).2
    | start | settle | datagram _ | poll _ | check | finish | conclude => cases htrigger
    | send _ _ _ | write _ | readEnd | readFailed _ | datagramFailed _ | disconnect _ =>
      simp only [Connection.reads, List.append_nil, h.error] at herror
      cases herror

theorem Going.read {piece : Bytes} {body : Option Bytes} {assembly : Frame.Assembly}
    {traffic : Traffic} {looked : Dispatcher.Look} (h : s.Going seen)
    (hreading : s.connection.isReading = true)
    (hpiece : piece.length ≤ s.connection.wanted)
    (htake : s.connection.assembly.take s.connection.maxBody piece = (.ok body, assembly)) :
    Going ⟨{ s.connection with
      assembly, traffic, dispatcher := s.connection.dispatcher.run (body.map .hold).toList },
      s.accepted, s.won, looked⟩ (seen ++ piece) := by
  have hcontinues := h.took.split_take hpiece
  rw [htake] at hcontinues
  have hsplit := Frame.split_append s.connection.maxBody seen piece
  simp only [h.error] at hsplit
  cases body with
  | none =>
    have hsome := Frame.Assembly.Took.split_eq hcontinues
    rw [hsome] at hsplit
    refine ⟨h.state, h.won, h.isOpen, ?_, ?_, ?_⟩
    · rw [hsplit]
      exact hcontinues
    · rw [hsplit]
    · rw [hsplit, List.append_nil]
      exact h.bodies
  | some body =>
    obtain ⟨hwhole, rfl⟩ := hcontinues
    rw [hwhole] at hsplit
    refine ⟨h.state, h.won, h.isOpen, ?_, ?_, ?_⟩
    · rw [hsplit]
      exact Frame.Assembly.took_start _
    · rw [hsplit]
    · have hbodies := h.bodies
      rw [held_of_isReading hreading, Held.bodies, List.append_nil] at hbodies
      rw [hsplit, ← hbodies]
      exact congrArg _ (Inbox.bodies_hold h.isOpen body)

theorem Going.step {delivered : List Delivery} (h : s.Going seen)
    (hf : s.history.Faithful delivered) (htrigger : s.connection.trigger? e = none)
    (hpiece : ∀ piece, e = .read piece → piece.length ≤ s.connection.wanted) :
    (s.step e).Going (seen ++ s.connection.reads e) := by
  have hgoes := goes_step htrigger
  have hstep : s.step e =
      ⟨s.connection.step e, s.accepted ++ accepts s.connection e, s.won, (s.step e).looked⟩ := by
    simp only [Course.step, wins_of_trigger_none htrigger, Option.map_none, Option.or_none]
  rw [hstep]
  generalize (s.step e).looked = looked
  generalize s.connection.step e = c' at hgoes
  cases hgoes with
  | stays _ houter _ _ hreading =>
    have hreads : s.connection.reads e = [] := by
      cases e with
      | read piece => rw [reads, hreading piece rfl]; rfl
      | _ => rfl
    rw [hreads, List.append_nil, accepts_of_outer houter, List.append_nil]
    exact ⟨h.state, h.won, h.isOpen, h.took, h.error, h.bodies⟩
  | starts hphase =>
    have hinbox : s.connection.dispatcher.start.inbox = s.connection.dispatcher.inbox := by
      obtain ⟨phase, heq⟩ := s.connection.dispatcher.start_eq
      rw [heq]
    simp only [Connection.reads, accepts, List.append_nil]
    exact ⟨h.state, h.won, hinbox ▸ h.isOpen, h.took, h.error, hinbox ▸ h.bodies⟩
  | queues a | sends traffic | writes frame traffic =>
    simp only [Connection.reads, accepts, List.append_nil]
    exact ⟨h.state, h.won, h.isOpen, h.took, h.error, h.bodies⟩
  | reads traffic hreading htake =>
    simp only [Connection.reads, hreading, if_true, accepts, List.append_nil]
    exact h.read hreading (hpiece _ rfl) htake
  | serves trips traffic hinner =>
    obtain ⟨haccepts, hreads⟩ := accepts_of_inner (c := s.connection) hinner
    -- as long as nobody has won, no end is about to be reported
    have hopen : ∀ cause, s.connection.dispatcher.phase ≠ .ending cause := fun cause hphase => by
      obtain ⟨before, htold⟩ := hf.ending cause hphase
      rw [show s.history.told = s.won from rfl, h.won] at htold
      cases htold
    obtain ⟨hbodies, hclosed⟩ := Dispatcher.received_step hinner hopen
    rw [hreads, List.append_nil, haccepts]
    refine ⟨h.state, h.won, hclosed.trans h.isOpen, h.took, h.error, ?_⟩
    rw [reliables_append, List.append_assoc, hbodies]
    exact h.bodies

/-- A connection that was ended lets nothing of the stream in any more. -/
theorem Over.step {before : List Delivery} (h : s.Over seen before cause)
    (hv : s.connection.Valid) (e : Event) :
    (s.step e).Over (seen ++ s.connection.reads e) before cause := by
  rw [reads_of_disconnected hv h.state, List.append_nil]
  have hmax : (s.step e).connection.maxBody = s.connection.maxBody := maxBody_step _ e
  have hwon : (s.step e).won = some (before, cause) := by
    simp only [Course.step, h.won, Option.some_or]
  suffices hrest : (s.step e).connection.state = .disconnected ∧
      (s.step e).connection.dispatcher.inbox.held = .nothing ∧
      reliables (accepts s.connection e) = [] by
    obtain ⟨hstate, hheld, haccepts⟩ := hrest
    refine ⟨hstate, hwon, hheld, ?_, hmax ▸ h.bodies, hmax ▸ h.error⟩
    have haccepted : (s.step e).accepted = s.accepted ++ accepts s.connection e := rfl
    rw [haccepted, reliables_append, haccepts, List.append_nil]
    exact h.accepted
  rw [show (s.step e).connection = s.connection.step e from rfl]
  cases htrigger : s.connection.trigger? e with
  | some cause' =>
    obtain ⟨assembly, traffic, heq⟩ := step_of_trigger_of_disconnected htrigger h.state
    rw [heq, accepts_of_trigger htrigger]
    exact ⟨h.state, h.held, rfl⟩
  | none =>
    have hgoes := goes_step htrigger
    generalize s.connection.step e = c' at hgoes
    cases hgoes with
    | stays _ houter => exact ⟨h.state, h.held, by rw [accepts_of_outer houter]; rfl⟩
    | starts hphase =>
      obtain ⟨phase, heq⟩ := s.connection.dispatcher.start_eq
      refine ⟨h.state, ?_, rfl⟩
      rw [heq]
      exact h.held
    | queues | sends | writes => exact ⟨h.state, h.held, rfl⟩
    | reads traffic hreading =>
      -- nothing is read any more
      rw [isReading, Bool.and_eq_true] at hreading
      have hstate := hv.running hreading.1
      rw [h.state] at hstate
      cases hstate
    | serves trips traffic hinner =>
      rw [(accepts_of_inner (c := s.connection) hinner).1]
      obtain ⟨haccepts, hheld⟩ := Dispatcher.received_step_of_nothing hinner h.held
      exact ⟨h.state, hheld, haccepts⟩

/-- **What a connection has made of the stream** is kept by every event. -/
theorem Hears.step {delivered : List Delivery} (h : s.Hears seen) (hv : s.connection.Valid)
    (hf : s.history.Faithful delivered)
    (hpiece : ∀ piece, e = .read piece → piece.length ≤ s.connection.wanted) :
    (s.step e).Hears (seen ++ s.connection.reads e) := by
  cases h with
  | ended h => exact .ended (h.step hv e)
  | going h =>
    cases htrigger : s.connection.trigger? e with
    | some cause => exact .ended (h.end htrigger hpiece)
    | none => exact .going (h.step hf htrigger hpiece)

/-! ### What the handler is told -/

/-- What the handler has been called with are messages that were let in, the oldest first. -/
theorem heard_eq {delivered : List Delivery} (hf : s.history.Faithful delivered) :
    s.connection.heard = reliables delivered ∧ delivered <+: s.accepted := by
  have hmessages : (delivered.map Call.message).filterMap Call.reliable? = reliables delivered := by
    rw [List.filterMap_map]
    rfl
  refine ⟨?_, hf.accepted_isPrefix⟩
  by_cases hphase : s.connection.dispatcher.phase = .ended
  · obtain ⟨before, cause, hcalls, -⟩ := hf.ended hphase
    rw [heard, show s.connection.dispatcher.calls = _ from hcalls, List.filterMap_append, hmessages]
    exact List.append_nil _
  · rw [heard, show s.connection.dispatcher.calls = _ from (hf.going hphase).1, hmessages]

/-- **The handler hears the first bodies** in what the connection has read. -/
theorem Hears.heard_isPrefix {delivered : List Delivery} (h : s.Hears seen)
    (hf : s.history.Faithful delivered) :
    s.connection.heard <+: (Frame.split s.connection.maxBody seen).bodies := by
  obtain ⟨hheard, hprefix⟩ := heard_eq hf
  rw [hheard]
  refine (reliables_isPrefix hprefix).trans ?_
  cases h with
  | going h => exact h.bodies ▸ List.prefix_append _ _
  | ended h => exact h.accepted ▸ h.bodies

/-- When nothing waits, the handler of a connection that goes on has heard all of them. -/
theorem Going.heard_eq {delivered : List Delivery} (h : s.Going seen)
    (hf : s.history.Faithful delivered) (hheld : s.connection.dispatcher.inbox.held = .nothing)
    (hitems : s.connection.dispatcher.inbox.items = []) :
    s.connection.heard = (Frame.split s.connection.maxBody seen).bodies := by
  have hphase : s.connection.dispatcher.phase ≠ .ended := fun hphase => by
    obtain ⟨before, cause, -, htold⟩ := hf.ended hphase
    rw [show s.history.told = s.won from rfl, h.won] at htold
    cases htold
  have haccepted := (hf.going hphase).2
  rw [show s.history.dispatcher = s.connection.dispatcher from rfl, hitems,
    List.append_nil] at haccepted
  rw [(Course.heard_eq hf).1, ← haccepted, ← h.bodies, hheld, Held.bodies, List.append_nil]
  rfl

/-- When the handler was told the end, it had heard the first of what was let in before; and all of
it, if the dispatcher has looked for a message since the connection was ended. -/
theorem Over.heard_eq {delivered before : List Delivery} (h : s.Over seen before cause)
    (hf : s.history.Faithful delivered) (hended : s.connection.dispatcher.phase = .ended) :
    s.connection.heard <+: reliables before ∧
      (s.looked.told = true → s.connection.heard = reliables before) ∧
      s.connection.dispatcher.calls.getLast? = some (.disconnected cause) := by
  obtain ⟨before', cause', hcalls, htold⟩ := hf.ended hended
  rw [show s.history.told = s.won from rfl, h.won] at htold
  cases htold
  obtain ⟨hheard, hprefix⟩ := Course.heard_eq hf
  have hle : s.connection.heard <+: reliables before := by
    rw [hheard, ← h.accepted]
    exact reliables_isPrefix hprefix
  refine ⟨hle, fun hlooked => hle.eq_of_length_le ?_, ?_⟩
  -- that look has found all that was let in before the end
  · obtain ⟨before', cause', htold, hbefore⟩ := hf.coherent.early hlooked
    rw [show s.history.told = s.won from rfl, h.won] at htold
    cases htold
    rw [hheard, hf.looked (by rw [show s.history.dispatcher.phase = _ from hended]; rfl)]
    exact (reliables_isPrefix hbefore).length_le
  · rw [show s.connection.dispatcher.calls = _ from hcalls]
    exact List.getLast?_concat

end Course

end Connection

end Tandem
