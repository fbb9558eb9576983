import Tandem.Connection.Basic
import Tandem.Proofs.Connection.History

/-!
# What an event does to a connection

An event calls for the end of a connection (`Connection.trigger?`, `step_of_trigger`), or it does
one of a few other things (`Connection.Goes`, `goes_step`).  This says everything that a step can
do; what is kept by a step is read off it.
-/

namespace Tandem

namespace Connection

variable {c : Connection} {e : Event} {cause : Cause}

/-- The cause for which an event calls for the end of the connection, if it does. -/
def trigger? (c : Connection) : Event → Option Cause
  | .disconnect cause => some cause
  | .send bs .unreliable (.failed f) =>
    if c.isConnected && bs.length ≤ maxDatagram then some (.ofFault f) else none
  | .write a =>
    match c.nextFrame.1 with
    | none => none
    | some frame =>
      match frame.left.attempt a with
      | .error f => if c.running then some (.ofFault f) else none
      | .ok _ => none
  | .read piece =>
    match (c.assembly.take c.maxBody piece).1 with
    | .error _ => if c.isReading then some (.plain .protocolViolation) else none
    | .ok _ => none
  | .readEnd => if c.isReading then some (.plain .disconnecting) else none
  | .readFailed f => if c.isReading then some (.ofFault f) else none
  | .datagramFailed f => if c.running && !f.isBounce then some (.ofFault f) else none
  | .start | .send _ _ _ | .settle | .datagram _ | .poll _ | .check | .finish | .conclude => none

/-- The bodies that an event takes on for the stream: sending succeeds. -/
def sends (c : Connection) : Event → List Bytes
  | .send bs .reliable a => if (c.sendBytes bs .reliable a).1 then [bs] else []
  | _ => []

/-- The bytes that the stream takes at an event. -/
def takes (c : Connection) : Event → Bytes
  | .write a => (c.write a).1
  | _ => []

/-- The bytes that an event takes from the stream. -/
def reads (c : Connection) : Event → Bytes
  | .read piece => if c.isReading then piece else []
  | _ => []

/-- An event of the inbox or of the handler. -/
inductive Event.IsInner : Event → Dispatcher.Event → Prop
  | settle : IsInner .settle .settle
  | datagram (bs : Bytes) : IsInner (.datagram bs) (.offer (fitting bs))
  | poll (now : Nat) : IsInner (.poll now) .poll
  | check : IsInner .check .check
  | finish : IsInner .finish .finish
  | conclude : IsInner .conclude .conclude

/-- What an event may do to a connection if it does not call for the end. -/
inductive Goes (c : Connection) : Event → Connection → Prop
  /-- it comes to nothing -/
  | stays {e : Event} (hstart : e = .start → c.dispatcher.phase ≠ .unstarted)
      (houter : ∀ x, ¬ e.IsInner x) (hsends : c.sends e = []) (htakes : c.takes e = [])
      (hreading : ∀ piece, e = .read piece → c.isReading = false) : Goes c e c
  | starts (hphase : c.dispatcher.phase = .unstarted) :
      Goes c .start { c with dispatcher := c.dispatcher.start, running := c.isConnected }
  | queues {bs : Bytes} (a : DatagramAttempt) (hconnected : c.isConnected = true)
      (hlen : bs.length ≤ Kind.maxCount) (hsends : c.sends (.send bs .reliable a) = [bs]) :
      Goes c (.send bs .reliable a) { c with outbound := c.outbound ++ [bs] }
  | sends {bs : Bytes} {a : DatagramAttempt} (traffic : Traffic) :
      Goes c (.send bs .unreliable a) { c with traffic }
  /-- the stream takes something of the frame that comes next -/
  | writes {a : Frame.Attempt} {next : OutgoingFrame} {outbound : List Bytes} {taken : Bytes}
      {left : Frame.Transfer} (frame : Option OutgoingFrame) (traffic : Traffic)
      (hrunning : c.running = true) (hnext : c.nextFrame = (some next, outbound))
      (hattempt : next.left.attempt a = .ok (taken, left)) (htakes : c.takes (.write a) = taken)
      (hframe : match frame with
        | some frame => frame.left = left
        | none => left.offered = []) :
      Goes c (.write a) { c with outbound, frame, traffic }
  | reads {piece : Bytes} {body : Option Bytes} {assembly : Frame.Assembly} (traffic : Traffic)
      (hreading : c.isReading = true)
      (htake : c.assembly.take c.maxBody piece = (.ok body, assembly)) :
      Goes c (.read piece) { c with
        assembly, traffic, dispatcher := c.dispatcher.run (body.map .hold).toList }
  | serves {e : Event} {x : Dispatcher.Event} (trips : RoundTrip) (traffic : Traffic)
      (hinner : e.IsInner x) : Goes c e { c with dispatcher := c.dispatcher.step x, trips, traffic }

theorem disconnectWith_eq (c : Connection) (cause : Cause) :
    (c.disconnectWith cause).1 = !c.state.isEnding ∧
      (c.disconnectWith cause).2.state = (if c.state.isEnding then c.state else .disconnected) ∧
      (c.disconnectWith cause).2.dispatcher =
        if c.state.isEnding then c.dispatcher
        else c.dispatcher.run [.forget, .announce cause] := by
  unfold disconnectWith ConnectionState.beginDisconnect
  cases hs : c.state.isEnding <;> exact ⟨rfl, rfl, rfl⟩

theorem noteAcknowledgement_frame (c : Connection) (bs : Bytes) (now : Nat) :
    ∃ trips, c.noteAcknowledgement bs now = { c with trips } := by
  unfold noteAcknowledgement
  split
  · split_ifs <;> exact ⟨_, rfl⟩
  · exact ⟨_, rfl⟩

theorem step_of_trigger_send {bs : Bytes} {ch : Channel} {a : DatagramAttempt}
    (h : c.trigger? (.send bs ch a) = some cause) :
    c.step (.send bs ch a) = (c.disconnectWith cause).2 := by
  cases ch with
  | reliable => cases h
  | unreliable =>
    cases a with
    | sent | busy => cases h
    | failed f =>
      simp only [trigger?] at h
      split_ifs at h with hc
      obtain rfl := Option.some.inj h
      obtain ⟨hconnected, hlen⟩ := Bool.and_eq_true_iff.1 hc
      have hlen : ¬ maxDatagram < bs.length := Nat.not_lt.2 (of_decide_eq_true hlen)
      simp only [step, sendBytes, hconnected, if_true, sendUnreliable, hlen, if_false]

theorem step_of_trigger_write {a : Frame.Attempt} (h : c.trigger? (.write a) = some cause) :
    c.step (.write a) = (c.disconnectWith cause).2 := by
  cases hframe : c.nextFrame with
  | mk next outbound =>
    cases next with
    | none => simp only [trigger?, hframe, reduceCtorEq] at h
    | some frame =>
      cases hattempt : frame.left.attempt a with
      | ok _ => simp only [trigger?, hframe, hattempt, reduceCtorEq] at h
      | error f =>
        simp only [trigger?, hframe, hattempt] at h
        split_ifs at h with hrunning
        obtain rfl := Option.some.inj h
        simp only [step, write, hrunning, if_true, hframe, hattempt]

/-- What was read in front of a length that is refused counts as read. -/
theorem step_of_trigger_read {piece : Bytes} (h : c.trigger? (.read piece) = some cause) :
    ∃ assembly traffic,
      c.step (.read piece) = ({ c with assembly, traffic }.disconnectWith cause).2 := by
  cases htake : c.assembly.take c.maxBody piece with
  | mk result assembly =>
    cases result with
    | ok _ => simp only [trigger?, htake, reduceCtorEq] at h
    | error err =>
      simp only [trigger?, htake] at h
      split_ifs at h with hreading
      obtain rfl := Option.some.inj h
      simp only [step, read, hreading, if_true, htake]
      exact ⟨_, _, rfl⟩

/-- What calls for the end of a connection ends it. -/
theorem step_of_trigger (h : c.trigger? e = some cause) :
    ∃ assembly traffic, c.step e = ({ c with assembly, traffic }.disconnectWith cause).2 := by
  cases e with
  | send bs ch a => exact ⟨c.assembly, c.traffic, step_of_trigger_send h⟩
  | write a => exact ⟨c.assembly, c.traffic, step_of_trigger_write h⟩
  | read piece => exact step_of_trigger_read h
  | disconnect cause' =>
    obtain rfl := Option.some.inj h
    exact ⟨_, _, rfl⟩
  | readEnd =>
    simp only [trigger?] at h
    split_ifs at h with hreading
    obtain rfl := Option.some.inj h
    simp only [step, readEnd, hreading, if_true]
    exact ⟨_, _, rfl⟩
  | readFailed f =>
    simp only [trigger?] at h
    split_ifs at h with hreading
    obtain rfl := Option.some.inj h
    simp only [step, readFailed, hreading, if_true]
    exact ⟨_, _, rfl⟩
  | datagramFailed f =>
    simp only [trigger?] at h
    split_ifs at h with hrunning
    obtain rfl := Option.some.inj h
    simp only [step, datagramFailed, hrunning, if_true]
    exact ⟨_, _, rfl⟩
  | start | settle | datagram _ | poll _ | check | finish | conclude => cases h

theorem goes_start (c : Connection) : c.Goes .start (c.step .start) := by
  by_cases hp : c.dispatcher.phase = .unstarted
  · rw [show c.step .start = _ from if_pos hp]
    exact .starts hp
  · rw [show c.step .start = c from if_neg hp]
    exact .stays (fun _ => hp) (by rintro _ ⟨⟩) rfl rfl (by rintro _ ⟨⟩)

theorem goes_poll (c : Connection) (now : Nat) : c.Goes (.poll now) (c.step (.poll now)) := by
  simp only [step, poll]
  cases hp : c.dispatcher.poll with
  | mk d dispatcher =>
    have hd : dispatcher = c.dispatcher.step .poll := by rw [Dispatcher.step, hp]
    subst hd
    cases d with
    | none => exact .serves c.trips c.traffic (.poll now)
    | some d =>
      -- a body that is called for may answer an earlier one, which only the round trips tell
      obtain ⟨trips, heq⟩ :=
        { c with dispatcher := c.dispatcher.step .poll }.noteAcknowledgement_frame d.body now
      simp only [heq]
      exact .serves trips c.traffic (.poll now)

theorem goes_send {bs : Bytes} {ch : Channel} {a : DatagramAttempt}
    (h : c.trigger? (.send bs ch a) = none) : c.Goes (.send bs ch a) (c.step (.send bs ch a)) := by
  by_cases hconnected : c.isConnected = true
  · cases ch with
    | reliable =>
      by_cases hlen : Kind.maxCount < bs.length
      · have hsend : c.sendBytes bs .reliable a = (false, c) := by
          simp only [sendBytes, hconnected, if_true, sendReliable, hlen]
        rw [step, hsend]
        exact .stays (by rintro ⟨⟩) (by rintro _ ⟨⟩) (by rw [sends, hsend]; rfl) rfl
          (by rintro _ ⟨⟩)
      · have hsend : c.sendBytes bs .reliable a =
            (true, { c with outbound := c.outbound ++ [bs] }) := by
          simp only [sendBytes, hconnected, if_true, sendReliable, hlen, if_false]
        rw [step, hsend]
        exact .queues a hconnected (Nat.not_lt.1 hlen) (by rw [sends, hsend]; rfl)
    | unreliable =>
      simp only [step, sendBytes, hconnected, if_true, sendUnreliable]
      split_ifs with hlen
      · exact .sends c.traffic
      · cases a with
        | sent => exact .sends _
        | busy => exact .sends c.traffic
        | failed f =>
          simp only [trigger?, hconnected, Bool.true_and, Nat.not_lt.1 hlen, decide_true,
            if_true, reduceCtorEq] at h
  · have hsend : c.sendBytes bs ch a = (false, c) := if_neg hconnected
    rw [step, hsend]
    refine .stays (by rintro ⟨⟩) (by rintro _ ⟨⟩) ?_ rfl (by rintro _ ⟨⟩)
    cases ch with
    | reliable => rw [sends, hsend]; rfl
    | unreliable => rfl

theorem goes_write_of_idle {a : Frame.Attempt} (h : c.write a = ([], c)) :
    c.Goes (.write a) (c.step (.write a)) := by
  rw [step, h]
  exact .stays (by rintro ⟨⟩) (by rintro _ ⟨⟩) rfl (by rw [takes, h]) (by rintro _ ⟨⟩)

theorem goes_write {a : Frame.Attempt} (h : c.trigger? (.write a) = none) :
    c.Goes (.write a) (c.step (.write a)) := by
  by_cases hrunning : c.running = true
  · cases hnext : c.nextFrame with
    | mk next outbound =>
      cases next with
      | none =>
        refine goes_write_of_idle ?_
        rw [write, if_pos hrunning, hnext]
      | some next =>
        cases hattempt : next.left.attempt a with
        | error f =>
          simp only [trigger?, hnext, hattempt, hrunning, if_true, reduceCtorEq] at h
        | ok result =>
          obtain ⟨taken, left⟩ := result
          have hwrite : c.write a = (if left.isDone then
              (taken, { c with
                outbound, frame := none,
                traffic := { c.traffic with
                  streamSent := c.traffic.streamSent + (Frame.headerLength + next.bodyLength) } })
            else (taken, { c with outbound, frame := some { next with left } })) := by
            rw [write, if_pos hrunning, hnext]
            simp only [hattempt]
          by_cases hdone : left.isDone = true
          · rw [if_pos hdone] at hwrite
            rw [step, hwrite]
            exact .writes none _ hrunning hnext hattempt (by rw [takes, hwrite])
              ((Frame.Transfer.isDone_iff left).1 hdone)
          · rw [if_neg hdone] at hwrite
            rw [step, hwrite]
            exact .writes (some _) c.traffic hrunning hnext hattempt (by rw [takes, hwrite]) rfl
  · exact goes_write_of_idle (if_neg hrunning)

theorem goes_read {piece : Bytes} (h : c.trigger? (.read piece) = none) :
    c.Goes (.read piece) (c.step (.read piece)) := by
  by_cases hreading : c.isReading = true
  · cases htake : c.assembly.take c.maxBody piece with
    | mk result assembly =>
      cases result with
      | error err => simp only [trigger?, htake, hreading, if_true, reduceCtorEq] at h
      | ok body =>
        simp only [step, read, hreading, if_true, htake]
        cases body with
        | none => exact .reads _ hreading htake
        | some body => exact .reads _ hreading htake
  · rw [show c.step (.read piece) = c from if_neg hreading]
    exact .stays (by rintro ⟨⟩) (by rintro _ ⟨⟩) rfl rfl fun _ _ => Bool.eq_false_iff.2 hreading

/-- **All other steps** do one of the few things that are left. -/
theorem goes_step (h : c.trigger? e = none) : c.Goes e (c.step e) := by
  cases e with
  | start => exact c.goes_start
  | send bs ch a => exact goes_send h
  | write a => exact goes_write h
  | read piece => exact goes_read h
  | poll now => exact c.goes_poll now
  | settle => exact .serves c.trips c.traffic .settle
  | datagram bs => exact .serves c.trips _ (.datagram bs)
  | check => exact .serves c.trips c.traffic .check
  | finish => exact .serves c.trips c.traffic .finish
  | conclude => exact .serves c.trips c.traffic .conclude
  | disconnect cause => cases h
  -- what is seen of a socket comes to nothing where nobody looks at it any more
  | readEnd =>
    simp only [trigger?] at h
    split_ifs at h with hreading
    rw [show c.step .readEnd = c from if_neg hreading]
    exact .stays (by rintro ⟨⟩) (by rintro _ ⟨⟩) rfl rfl (by rintro _ ⟨⟩)
  | readFailed f =>
    simp only [trigger?] at h
    split_ifs at h with hreading
    rw [show c.step (.readFailed f) = c from if_neg hreading]
    exact .stays (by rintro ⟨⟩) (by rintro _ ⟨⟩) rfl rfl (by rintro _ ⟨⟩)
  | datagramFailed f =>
    simp only [trigger?] at h
    split_ifs at h with hrunning
    rw [show c.step (.datagramFailed f) = c from if_neg hrunning]
    exact .stays (by rintro ⟨⟩) (by rintro _ ⟨⟩) rfl rfl (by rintro _ ⟨⟩)

theorem fixed_step (c : Connection) (e : Event) :
    (c.step e).token = c.token ∧ (c.step e).maxBody = c.maxBody := by
  cases htrigger : c.trigger? e with
  | some cause =>
    obtain ⟨assembly, traffic, heq⟩ := step_of_trigger htrigger
    rw [heq]
    simp only [disconnectWith, ConnectionState.beginDisconnect]
    cases c.state.isEnding <;> exact ⟨rfl, rfl⟩
  | none =>
    have hgoes := goes_step htrigger
    generalize c.step e = c' at hgoes
    cases hgoes <;> exact ⟨rfl, rfl⟩

theorem run_append (c : Connection) (es fs : List Event) : c.run (es ++ fs) = (c.run es).run fs :=
  List.foldl_append

theorem run_concat (c : Connection) (es : List Event) (e : Event) :
    c.run (es ++ [e]) = (c.run es).step e := c.run_append es [e]

end Connection

end Tandem
