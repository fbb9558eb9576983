import Tandem.Proofs.Connection.Handing
import Tandem.Proofs.Listener.Members

/-!
# What is lost of datagrams

A datagram that finds no place in the inbox is lost, and that is all that is lost while a connection
is connected (`Connection.drops_datagrams_only`).  The handler is called with the datagrams that
found a place, in the order in which they came, and with all bodies of the stream, but for what
waits in the inbox or for a place in it, however slowly the handler takes them (`handed_run`,
`keeps_run`).  What is let in after the dispatcher has seen the end is thrown away.
-/

namespace Tandem

namespace Connection

variable {c : Connection} {e : Event} {es : List Event}

/-- The datagrams of an event that find a place in the inbox. -/
def queues (c : Connection) : Event → List Bytes
  | .datagram bs => if (c.dispatcher.inbox.offer (fitting bs)).1 then [fitting bs] else []
  | _ => []

theorem fitting_eq_nil_iff {bs : Bytes} : fitting bs = [] ↔ bs = [] := by
  rw [fitting, List.take_eq_nil_iff, maxDatagram]
  exact or_iff_right (by decide)

/-- The bodies of the stream that are completed by an event. -/
def completes (c : Connection) (e : Event) : List Bytes := (c.completes? e).toList

theorem unreliables_accepts (c : Connection) (e : Event) :
    unreliables (Course.accepts c e) = c.queues e := by
  cases e with
  | datagram bs =>
    simp only [Course.accepts, Dispatcher.accepts, queues]
    split_ifs <;> rfl
  | settle =>
    simp only [Course.accepts, Dispatcher.accepts, queues]
    split <;> rfl
  | _ => rfl

theorem unreliables_collect (c : Connection) (es : List Event) :
    unreliables (c.collect Course.accepts es) = c.collect queues es := by
  induction es generalizing c with
  | nil => rfl
  | cons e es ih => rw [collect, unreliables_append, unreliables_accepts, ih, collect]

/-! ### The inbox of a connection -/

theorem fits_step (h : c.dispatcher.inbox.Fits) (e : Event) :
    (c.step e).dispatcher.inbox.Fits ∧
      (c.step e).dispatcher.inbox.capacity = c.dispatcher.inbox.capacity := by
  cases htrigger : c.trigger? e with
  | some cause =>
    obtain ⟨assembly, traffic, heq⟩ := step_of_trigger htrigger
    rw [heq, (disconnectWith_eq _ cause).2.2]
    split_ifs
    · exact ⟨h, rfl⟩
    · exact ⟨Inbox.fits_forget h, rfl⟩
  | none =>
    have hgoes := goes_step htrigger
    generalize c.step e = c' at hgoes
    cases hgoes with
    | stays | queues | sends | writes => exact ⟨h, rfl⟩
    | starts => exact Dispatcher.fits_step (e := .start) h nofun
    | @reads _ body _ traffic hreading =>
      cases body with
      | none => exact ⟨h, rfl⟩
      | some body =>
        exact Dispatcher.fits_step (e := .hold body) h fun _ _ => Course.held_of_isReading hreading
    | serves trips traffic hinner =>
      exact Dispatcher.fits_step h fun body hx => by subst hx; cases hinner

theorem fits_run (config : EndpointConfig) (maxBody : Option Nat) (token : Token)
    (es : List Event) :
    ((create config maxBody token).run es).dispatcher.inbox.Fits ∧
      ((create config maxBody token).run es).dispatcher.inbox.capacity =
        config.dispatchQueueLength := by
  induction es using List.reverseRecOn with
  | nil => exact ⟨Inbox.fits_empty _, rfl⟩
  | append_singleton es e ih =>
    rw [run_concat]
    obtain ⟨hfits, hcapacity⟩ := fits_step ih.1 e
    exact ⟨hfits, hcapacity.trans ih.2⟩

/-- **A datagram** that finds a place waits behind the other messages; the bytes are counted. -/
theorem datagram_of_queued {bs : Bytes} (h : (c.dispatcher.inbox.offer (fitting bs)).1 = true) :
    c.step (.datagram bs) = { c with
      traffic := { c.traffic with
        datagramsReceived := c.traffic.datagramsReceived + (fitting bs).length }
      dispatcher := { c.dispatcher with inbox := { c.dispatcher.inbox with
        items := c.dispatcher.inbox.items ++ [⟨.unreliable, fitting bs⟩] } } } := by
  rw [step, datagram, Inbox.offer_of_queued h]

/-- **A datagram that is dropped** leaves no trace but the count of its bytes. -/
theorem datagram_of_dropped {bs : Bytes} (h : (c.dispatcher.inbox.offer (fitting bs)).1 = false) :
    c.step (.datagram bs) = { c with
      traffic := { c.traffic with
        datagramsReceived := c.traffic.datagramsReceived + (fitting bs).length } } := by
  rw [step, datagram, Inbox.offer_of_dropped h]

/-! ### What is kept of the stream -/

theorem completes_of_reading {piece : Bytes} {body : Option Bytes} {assembly : Frame.Assembly}
    (hreading : c.isReading = true)
    (htake : c.assembly.take c.maxBody piece = (.ok body, assembly)) :
    c.completes (.read piece) = body.toList := by
  cases body <;> simp only [completes, completes?, htake, hreading, if_true]

theorem completes_of_not_reading {piece : Bytes} (hreading : c.isReading = false) :
    c.completes (.read piece) = [] := by
  simp only [completes, completes?, hreading, Bool.false_eq_true, if_false]
  split <;> rfl

/-- A connection that is connected has let in all bodies of the stream that were completed, but for
one that may be on its way, and its dispatcher goes on. -/
structure Keeps (c : Connection) (accepted : List Delivery) (bodies : List Bytes) : Prop where
  signal : c.dispatcher.signal = none
  isLeaving : c.dispatcher.isLeaving = false
  isOpen : c.dispatcher.inbox.closed = false
  bodies : reliables accepted ++ c.dispatcher.inbox.held.bodies = bodies

theorem Keeps.isLeaving_step {accepted : List Delivery} {bodies : List Bytes}
    (h : c.Keeps accepted bodies) (e : Event) : (c.step e).dispatcher.isLeaving = false := by
  cases c.hands_step e with
  | goes _ hafter => exact hafter
  | misses _ hafter =>
    rw [hafter]
    rfl
  | turns _ _ hsignal =>
    rw [h.signal] at hsignal
    cases hsignal
  | leaves hbefore => exact absurd (h.isLeaving.symm.trans hbefore) Bool.false_ne_true

/-- **No body of the stream is lost** as long as the connection goes on. -/
theorem Keeps.step {accepted : List Delivery} {bodies : List Bytes} (h : c.Keeps accepted bodies)
    (htrigger : c.trigger? e = none) :
    (c.step e).Keeps (accepted ++ Course.accepts c e) (bodies ++ c.completes e) := by
  have hleaving := h.isLeaving_step e
  have hgoes := goes_step htrigger
  generalize c.step e = c' at hgoes hleaving
  cases hgoes with
  | stays _ houter _ _ hreading =>
    have hnone : c.completes e = [] := by
      cases e with
      | read piece => exact completes_of_not_reading (hreading piece rfl)
      | _ => rfl
    rwa [Course.accepts_of_outer houter, hnone, List.append_nil, List.append_nil]
  | starts =>
    obtain ⟨phase, heq⟩ := c.dispatcher.start_eq
    simp only [heq] at hleaving ⊢
    simp only [Course.accepts, show c.completes .start = [] from rfl, List.append_nil]
    exact ⟨h.signal, hleaving, h.isOpen, h.bodies⟩
  | queues | sends | writes =>
    refine ⟨h.signal, hleaving, h.isOpen, ?_⟩
    simpa only [Course.accepts, completes, completes?, Option.toList_none, List.append_nil]
      using h.bodies
  | @reads piece body assembly traffic hreading htake =>
    rw [completes_of_reading hreading htake, show Course.accepts c (.read piece) = [] from rfl,
      List.append_nil]
    cases body with
    | none =>
      rw [Option.toList_none, List.append_nil]
      exact ⟨h.signal, hleaving, h.isOpen, h.bodies⟩
    | some body =>
      -- none is on its way while the stream is read
      have hbodies := h.bodies
      rw [Course.held_of_isReading hreading, Held.bodies, List.append_nil] at hbodies
      refine ⟨h.signal, hleaving, h.isOpen, ?_⟩
      rw [← hbodies]
      exact congrArg _ (Inbox.bodies_hold h.isOpen body)
  | serves trips traffic hinner =>
    have hgoing : ∀ cause, c.dispatcher.phase ≠ .ending cause := fun cause hphase => by
      have hbefore := h.isLeaving
      rw [Dispatcher.isLeaving, hphase] at hbefore
      cases hbefore
    have hnone : c.completes e = [] := by cases hinner <;> rfl
    obtain ⟨hbodies, hopen⟩ := Dispatcher.received_step hinner hgoing
    rw [(Course.accepts_of_inner hinner).1, hnone, List.append_nil]
    refine ⟨(Dispatcher.signal_inner hinner).trans h.signal, hleaving, hopen.trans h.isOpen, ?_⟩
    rw [reliables_append, List.append_assoc, hbodies]
    exact h.bodies

theorem keeps_run (config : EndpointConfig) (maxBody : Option Nat) (token : Token)
    (es : List Event) (h : ((create config maxBody token).run es).isConnected = true) :
    ((create config maxBody token).run es).Keeps
      ((create config maxBody token).collect Course.accepts es)
      ((create config maxBody token).collect completes es) := by
  induction es using List.reverseRecOn with
  | nil => exact ⟨rfl, rfl, rfl, rfl⟩
  | append_singleton es e ih =>
    rw [run_concat] at h ⊢
    rw [collect_concat, collect_concat]
    have hbefore := isConnected_of_step h
    refine (ih hbefore).step ?_
    -- what calls for the end of a connection does not leave it connected
    cases htrigger : ((create config maxBody token).run es).trigger? e with
    | none => rfl
    | some cause =>
      obtain ⟨assembly, traffic, heq⟩ :=
        step_of_trigger_of_connected htrigger (of_decide_eq_true hbefore)
      rw [heq] at h
      cases h

/-! ### The main statement -/

/-- What a connection loses, and what it does not. -/
structure DropsDatagramsOnly (c : Connection) (capacity : Nat) (es : List Event) : Prop where
  /-- there are never more messages than places -/
  length_le : (c.run es).dispatcher.inbox.items.length ≤ capacity
  /-- a body of the stream waits only while all places are taken, so that no datagram gets ahead of
  it -/
  waits : ∀ body, (c.run es).dispatcher.inbox.held = .waiting body →
    (c.run es).dispatcher.inbox.items.length = capacity
  /-- which datagrams find a place: `used` counts the places that are taken and the one that is kept
  for a body of the stream -/
  offer_iff : ∀ bs, ((c.run es).dispatcher.inbox.offer (fitting bs)).1 = true ↔
    bs ≠ [] ∧ (c.run es).dispatcher.inbox.closed = false ∧
      (c.run es).dispatcher.inbox.used < capacity
  /-- they are put in as far as they fit, and counted -/
  queued : ∀ bs, ((c.run es).dispatcher.inbox.offer (fitting bs)).1 = true →
    (c.run es).step (.datagram bs) = { c.run es with
      traffic := { (c.run es).traffic with
        datagramsReceived := (c.run es).traffic.datagramsReceived + (fitting bs).length }
      dispatcher := { (c.run es).dispatcher with inbox := { (c.run es).dispatcher.inbox with
        items := (c.run es).dispatcher.inbox.items ++ [⟨.unreliable, fitting bs⟩] } } }
  dropped : ∀ bs, ((c.run es).dispatcher.inbox.offer (fitting bs)).1 = false →
    (c.run es).step (.datagram bs) = { c.run es with
      traffic := { (c.run es).traffic with
        datagramsReceived := (c.run es).traffic.datagramsReceived + (fitting bs).length } }
  /-- as long as the dispatcher has not seen the end, the handler was called with the datagrams that
  found a place, in order, and the others wait -/
  going : (c.run es).dispatcher.isLeaving = false →
    c.collect queues es = unreliables (c.run es).dispatcher.handed ++
      unreliables (c.run es).dispatcher.inbox.items
  /-- all of them are handed over after enough turns, whether the connection is ended meanwhile or
  not, unless the dispatcher has just found no message and sees the end instead -/
  arrives : ∀ turns : List (List Event),
    (c.run es).dispatcher.phase ≠ .unstarted → (c.run es).dispatcher.isLeaving = false →
    ((c.run es).dispatcher.phase = .checking → (c.run (es ++ turns.flatten)).isConnected = true) →
    (∀ turn ∈ turns, .finish ∈ turn ∧ (∃ now, .poll now ∈ turn) ∧ .check ∈ turn ∧
      .conclude ∈ turn) →
    2 * (c.run es).dispatcher.inbox.items.length ≤ turns.length →
    c.collect queues es <+: unreliables (c.run (es ++ turns.flatten)).dispatcher.handed
  /-- a dispatcher that has seen the end has handed over all that had found a place when it last
  looked for a message, and nothing that has found one since it saw the end -/
  leaving : (c.run es).dispatcher.isLeaving = true → ∃ before now meanwhile after,
    es = before ++ .poll now :: meanwhile ++ .check :: after ∧
    c.LooksInVain before now meanwhile ∧
    (c.run (before ++ .poll now :: meanwhile)).isConnected = false ∧
    c.collect queues before <+: unreliables (c.run es).dispatcher.handed ∧
    unreliables (c.run es).dispatcher.handed <+:
      c.collect queues (before ++ .poll now :: meanwhile)
  /-- what waits then is thrown away when the end is reported, and nothing is let in any more -/
  ended : (c.run es).dispatcher.phase = .ended → (c.run es).dispatcher.inbox.Shut
  /-- no body of the stream is lost -/
  kept : (c.run es).isConnected = true →
    c.collect completes es = reliables (c.run es).dispatcher.handed ++
      reliables (c.run es).dispatcher.inbox.items ++ (c.run es).dispatcher.inbox.held.bodies
  /-- a datagram that is too long or finds the socket busy is not sent, and that is all -/
  tooLong : ∀ bs a, 65507 < bs.length → (c.run es).sendBytes bs .unreliable a = (false, c.run es)
  busy : ∀ bs, (c.run es).sendBytes bs .unreliable .busy = (false, c.run es)
  sent : ∀ bs, (c.run es).isConnected = true → bs.length ≤ 65507 →
    (c.run es).sendBytes bs .unreliable .sent = (true, { c.run es with
      traffic := { (c.run es).traffic with
        datagramsSent := (c.run es).traffic.datagramsSent + bs.length } })
  /-- every other failure of the socket ends the connection -/
  failed : ∀ bs f, (c.run es).isConnected = true → bs.length ≤ 65507 →
    ((c.run es).sendBytes bs .unreliable (.failed f)).1 = false ∧
      ((c.run es).sendBytes bs .unreliable (.failed f)).2.state = .disconnected

theorem sendBytes_of_tooLong {bs : Bytes} (h : maxDatagram < bs.length) (a : DatagramAttempt) :
    c.sendBytes bs .unreliable a = (false, c) := by
  simp only [sendBytes, sendUnreliable, if_pos h, ite_self]

theorem sendBytes_of_busy (c : Connection) (bs : Bytes) :
    c.sendBytes bs .unreliable .busy = (false, c) := by
  simp only [sendBytes, sendUnreliable, ite_self]

theorem sendBytes_of_connected {bs : Bytes} (hc : c.isConnected = true)
    (hlen : bs.length ≤ maxDatagram) (a : DatagramAttempt) :
    c.sendBytes bs .unreliable a = match a with
      | .sent => (true, { c with
          traffic := { c.traffic with datagramsSent := c.traffic.datagramsSent + bs.length } })
      | .busy => (false, c)
      | .failed f => (false, (c.disconnectWith (.ofFault f)).2) := by
  cases a <;> simp only [sendBytes, if_pos hc, sendUnreliable, if_neg (Nat.not_lt.2 hlen)]

theorem dropsDatagramsOnly_run (config : EndpointConfig) (maxBody : Option Nat) (token : Token)
    (es : List Event) :
    (create config maxBody token).DropsDatagramsOnly config.dispatchQueueLength es where
  length_le := by
    obtain ⟨hfits, hcapacity⟩ := fits_run config maxBody token es
    exact hcapacity ▸ (Inbox.length_le_used _).trans hfits.used_le
  waits body hbody := by
    obtain ⟨hfits, hcapacity⟩ := fits_run config maxBody token es
    exact hcapacity ▸ hfits.full body hbody
  offer_iff bs := by
    rw [← (fits_run config maxBody token es).2, Inbox.offer_iff, Ne, fitting_eq_nil_iff]
  queued _ := datagram_of_queued
  dropped _ := datagram_of_dropped
  going hleaving := by
    cases handed_run config maxBody token es with
    | going _ hall => rw [← unreliables_collect, hall, unreliables_append]
    | leaving _ hleaving' => exact absurd (hleaving.symm.trans hleaving') Bool.false_ne_true
  arrives turns hstarted hgoing hchecking hturns hlen := by
    rw [← unreliables_collect]
    refine unreliables_isPrefix (handed_of_turns config maxBody token es turns hstarted hgoing
      hchecking (fun turn hturn => ?_) hlen)
    obtain ⟨hfinish, hpoll, hcheck, hconclude⟩ := hturns turn hturn
    exact Course.isTurn hfinish hpoll hcheck hconclude
  leaving hleaving := by
    cases handed_run config maxBody token es with
    | going hleaving' => exact absurd (hleaving'.symm.trans hleaving) Bool.false_ne_true
    | @leaving before meanwhile after now hes _ hvain hsignal hall =>
      refine ⟨before, now, meanwhile, after, hes, hvain, ?_, ?_, ?_⟩
      · -- nobody announces the end of a connection that is connected
        refine Bool.not_eq_true _ |>.mp fun hconnected => ?_
        rw [(keeps_run config maxBody token _ hconnected).signal] at hsignal
        cases hsignal
      · rw [hall, unreliables_collect]
      · rw [hall, unreliables_collect, collect_append]
        exact List.prefix_append _ _
  ended := shut_run config maxBody token es
  kept hconnected := by
    have hkeeps := keeps_run config maxBody token es hconnected
    cases handed_run config maxBody token es with
    | going _ hall => rw [← hkeeps.bodies, hall, reliables_append]
    | leaving _ hleaving => exact absurd (hkeeps.isLeaving.symm.trans hleaving) Bool.false_ne_true
  tooLong _ a hlen := sendBytes_of_tooLong hlen a
  busy bs := sendBytes_of_busy _ bs
  sent bs hconnected hlen := by rw [sendBytes_of_connected hconnected hlen]
  failed bs f hconnected hlen := by
    rw [sendBytes_of_connected hconnected hlen, (disconnectWith_eq _ _).2.1,
      show ((create config maxBody token).run es).state = _ from of_decide_eq_true hconnected]
    exact ⟨rfl, rfl⟩

/-- **Only datagrams are lost** while a connection is connected, and only those that find no place
in the inbox, whatever happens to it and however slowly the handler takes its messages; when it has
been ended, also those that come after the dispatcher has seen the end.  A connection of a listener
is such a connection, and a datagram from the endpoint of one is an event of this one and of no
other. -/
theorem drops_datagrams_only :
    (∀ config maxBody token es,
      (create config maxBody token).DropsDatagramsOnly config.dispatchQueueLength es) ∧
    ∀ (c : ListenerConfig) (as : List Listener.Act),
      let l := (Listener.create c).follow as
      (∀ x ∈ l.members, ∃ es, x.connection = (create c.toEndpointConfig (some c.maxBodyLength)
        x.connection.token).run es) ∧
      ∀ (source : Address) (bs : Bytes) (failure : Option Fault),
        (∀ id, l.peers.get? source = some id → ∃ x, l.members[id]? = some x ∧
          l.step (.datagram source bs failure) =
            ([], { l with members := l.members.set id (x.step (.datagram bs)) })) ∧
        (l.peers.get? source = none → ∀ (id : MemberId) (x : Member), l.members[id]? = some x →
          (l.step (.datagram source bs failure)).2.members[id]? = some x) := by
  refine ⟨dropsDatagramsOnly_run, fun c as => ⟨?_, fun source bs failure =>
    ⟨fun id hsource => ?_, fun hsource id x hx => ?_⟩⟩⟩
  · exact Listener.lived_follow c as
  · exact ((Listener.registers_create c).follow as).datagram hsource bs failure
  · rw [Listener.datagram_of_none hsource]
    exact Listener.members_echo hsource hx bs failure

/-- The two datagrams that come first find no place for both of them. -/
def crowd : List Event := [.start, .datagram [1], .datagram [2], .datagram []]

/-- The one that found a place is handed over, and nothing is left when the connection was ended. -/
theorem hands_over_crowd :
    [[1]] <+: unreliables ((create { dispatchQueueLength := 1 } none 7).run
      (crowd ++ [Course.turn, Course.turn].flatten)).dispatcher.handed ∧
    ((create { dispatchQueueLength := 1 } none 7).run
      (crowd ++ .disconnect (.plain .success) ::
        (List.replicate 4 Course.turn).flatten)).dispatcher.inbox.Shut := by
  obtain ⟨hdrops, -⟩ := drops_datagrams_only
  refine ⟨(hdrops { dispatchQueueLength := 1 } none 7 crowd).arrives [Course.turn, Course.turn]
    (by decide) (by decide) (by decide) (fun turn hturn => ?_) (by decide),
    (hdrops { dispatchQueueLength := 1 } none 7 _).ended (by decide)⟩
  obtain rfl := List.eq_of_mem_replicate (n := 2) hturn
  exact ⟨by decide, ⟨0, by decide⟩, by decide, by decide⟩

/-- What the handler was called with in the end are the datagrams that found a place. -/
def HandsAllOver (c : Connection) : Prop :=
  ∀ es, (c.run es).dispatcher.phase = .ended →
    unreliables (c.run es).dispatcher.handed = c.collect queues es

/-- Each datagram that found a place is one that came, as a whole. -/
def QueuesWhole (c : Connection) : Prop :=
  ∀ es, ∀ bs ∈ c.collect queues es, .datagram bs ∈ es

/-- A datagram finds a place after the dispatcher has seen the end. -/
def late : List Event :=
  [.start, .disconnect (.plain .success), .poll 0, .check, .datagram [1], .conclude]

/-- **A datagram that found a place** need not be handed over, and need not be whole. -/
theorem not_handsAllOver_late :
    ((create {} none 7).collect queues late = [[1]] ∧
      ((create {} none 7).run late).dispatcher.calls = [.disconnected (.plain .success)]) ∧
    ¬ (create {} none 7).HandsAllOver ∧ ¬ (create {} none 7).QueuesWhole := by
  refine ⟨⟨by decide, by decide⟩, fun hall => ?_, fun hwhole => ?_⟩
  · exact absurd (hall late (by decide)) (by decide)
  · -- the last byte of a datagram that is one byte too long is cut off
    have hqueues : (create {} none 7).collect queues
        [.datagram (List.replicate (maxDatagram + 1) 0)] = [List.replicate maxDatagram 0] := by
      have hfitting : fitting (List.replicate (maxDatagram + 1) 0) =
          List.replicate maxDatagram 0 := by
        rw [fitting, List.take_replicate, Nat.min_eq_left (Nat.le_succ _)]
      have hoffer : ((create {} none 7).dispatcher.inbox.offer
          (List.replicate maxDatagram 0)).1 = true :=
        Inbox.offer_iff.2 ⟨List.cons_ne_nil _ _, rfl, by decide⟩
      rw [collect, queues, hfitting, if_pos hoffer]
      rfl
    have hmem := hwhole _ (List.replicate maxDatagram 0) (hqueues ▸ List.mem_singleton_self _)
    rw [List.mem_singleton, Event.datagram.injEq] at hmem
    have hlen := congrArg List.length hmem
    rw [List.length_replicate, List.length_replicate] at hlen
    omega

end Connection

end Tandem
