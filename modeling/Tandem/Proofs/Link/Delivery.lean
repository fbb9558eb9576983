import Mathlib.Data.List.TakeWhile
import Tandem.Proofs.Handshake
import Tandem.Proofs.Link.Liveness

/-!
# What a link conveys

The bodies that an end of a link takes on for the stream are what the handler at the other end is
called with: in their order, whole, and each of them once (`Link.conveys`).  A run may break off
anywhere, in the middle of a frame or with bodies in an inbox; then it is the first of them, and the
rest can be moved on.  Where nobody ends a connection and no socket fails, only a body that is too
long for the listener ends one, that of the server.  The bodies in front of it arrive in the inbox,
and are heard if the dispatcher looks there once more.  If it had looked there before the last of
them arrived and looks for the end next, they are not (`Link.not_hearsUpToRefused`).
-/

namespace Tandem.Link

open Connection (Course)

variable {l : Link} {s : Side} {es : List Event} {bodies back : List Bytes}
  {course course' : Course} {seen seen' : Bytes} {delivered delivered' : List Delivery}

/-- A client and a server of these configurations right after a handshake. -/
def established (client : ClientConfig) (listener : ListenerConfig) (token : Token) : Link :=
  create (.create client.toEndpointConfig none token)
    (.create listener.toEndpointConfig (some listener.maxBodyLength) token)

/-- What the ends of a link, where the server takes bodies shorter than `max`, hear of each other
over the stream, in all runs. -/
structure Conveys (l : Link) (max : Nat) : Prop where
  /-- at any moment, the first of the bodies that were taken on, in their order -/
  inOrder : ∀ es s, ((l.run es).conn s.other).heard <+: l.sent s es
  /-- all of them, if both ends are connected and nothing is on its way any more -/
  all : ∀ es s, (l.run es).areConnected = true → (l.run es).Settled s →
    ((l.run es).conn s.other).heard = l.sent s es
  /-- if the client has sent a body that is too long for the server, the first of those in front of
  it, and all of them if the dispatcher has looked for a message since the connection was ended;
  then the server is told that the protocol was violated -/
  upToRefused : ∀ es, l.isUndisturbed es = true → (∃ body ∈ l.sent .client es, max ≤ body.length) →
    (l.run es).Settled .client →
    ((l.run es).conn .server).heard <+: (l.sent .client es).takeWhile (·.length < max) ∧
      (l.looksLate .server es = true →
        ((l.run es).conn .server).heard = (l.sent .client es).takeWhile (·.length < max)) ∧
      ((l.run es).conn .server).dispatcher.calls.getLast? =
        some (.disconnected (.plain .protocolViolation))
  /-- if it has not, both ends stay connected -/
  lasts : ∀ es, l.isUndisturbed es = true → (∀ body ∈ l.sent .client es, body.length < max) →
    (l.run es).areConnected = true
  /-- a connected end takes on a body unless it is too long for a frame; one that is not taken on
  changes no connection -/
  accepts : ∀ es s bs a,
    (((l.run es).send s bs .reliable a).1 =
        (((l.run es).conn s).isConnected && decide (bs.length ≤ Kind.maxCount))) ∧
      (((l.run es).send s bs .reliable a).1 = false →
        ∀ t, ((l.run es).send s bs .reliable a).2.conn t = (l.run es).conn t)
  /-- so that the length of a body that is written can stand in front of it -/
  counts : ∀ es s, ∀ body ∈ ((l.run es).conn s).outbound,
    Kind.checkedCount body.length = .ok body.length

/-- If the client has sent a body that is too long for the server, exactly those in front of it are
heard. -/
def HearsUpToRefused (l : Link) (max : Nat) : Prop :=
  ∀ es, l.isUndisturbed es = true → (∃ body ∈ l.sent .client es, max ≤ body.length) →
    (l.run es).Settled .client →
    ((l.run es).conn .server).heard = (l.sent .client es).takeWhile (·.length < max)

/-! ### What is taken on -/

theorem send_reliable (l : Link) (s : Side) (bs : Bytes) (a : DatagramAttempt) :
    ((l.send s bs .reliable a).1 =
        ((l.conn s).isConnected && decide (bs.length ≤ Kind.maxCount))) ∧
      ((l.send s bs .reliable a).1 = false →
        ∀ t, (l.send s bs .reliable a).2.conn t = l.conn t) := by
  have hm : l.Moves (l.send s bs .reliable a).2 s (.send bs .reliable a) :=
    moves_step (show l.acts (.send s bs .reliable a) = _ from rfl)
  have hfst : (l.send s bs .reliable a).1 = ((l.conn s).sendBytes bs .reliable a).1 := rfl
  have hstep : (l.conn s).step (.send bs .reliable a) =
      ((l.conn s).sendBytes bs .reliable a).2 := rfl
  rw [hfst, Connection.sendBytes_reliable]
  rw [Connection.sendBytes_reliable] at hstep
  cases haccepted : (l.conn s).isConnected && decide (bs.length ≤ Kind.maxCount) with
  | true => exact ⟨rfl, nofun⟩
  | false =>
    refine ⟨rfl, fun _ t => ?_⟩
    rw [haccepted] at hstep
    rcases Decidable.eq_or_ne t s with rfl | hne
    · exact hm.conn.trans hstep
    · obtain rfl := Side.eq_other_of_ne hne
      exact hm.other

/-! ### What is heard -/

/-- A length is refused where a body was taken on that is too long for the other end. -/
theorem Passes.refused {max : Option Nat} (h : l.Passes s bodies course seen delivered)
    (herror : (Frame.split max seen).error.isSome) :
    (Frame.split max seen).bodies = bodies.takeWhile (Frame.isBelow max) ∧
      ∃ body ∈ bodies, Frame.isBelow max body = false := by
  have hprefix : seen <+: Frame.encodeAll bodies := (List.prefix_append _ _).trans h.isPrefix
  obtain ⟨hsome, hbodies⟩ := (Frame.split_isPrefix hprefix).2 herror
  obtain ⟨htake, hnone⟩ := @Frame.split_encodeAll max _ h.short
  refine ⟨hbodies.symm.trans htake, ?_⟩
  by_contra hall
  push Not at hall
  have hbelow : ∀ body ∈ bodies, Frame.isBelow max body = true := fun body hbody =>
    eq_true_of_ne_false (hall body hbody)
  rw [hnone.2 hbelow] at hsome
  cases hsome

theorem Passes.heard_isPrefix (h : l.Passes s bodies course seen delivered) :
    (l.conn s.other).heard <+: bodies := by
  have hprefix : seen <+: Frame.encodeAll bodies := (List.prefix_append _ _).trans h.isPrefix
  rw [← h.connection]
  refine (h.hears.heard_isPrefix h.faithful).trans ((Frame.split_isPrefix hprefix).1.trans ?_)
  rw [(Frame.split_encodeAll h.short).1]
  exact List.takeWhile_prefix _

/-- Where both ends are connected and nothing is on its way, everything was heard, and nothing was
too long for it. -/
theorem Passes.heard_eq (h : l.Passes s bodies course seen delivered)
    (hconnected : l.areConnected = true) (hsettled : l.Settled s) :
    (l.conn s.other).heard = bodies ∧
      ∀ body ∈ bodies, Frame.isBelow (l.conn s.other).maxBody body = true := by
  have hother := areConnected_iff.1 hconnected s.other
  obtain ⟨hout, hframe⟩ := hsettled.written hother
  have hseen : Frame.encodeAll bodies = seen := by
    have hpending : (l.conn s).pending = [] := by rw [Connection.pending, hframe, hout]; rfl
    have hflowing := h.flowing (of_decide_eq_true (areConnected_iff.1 hconnected s))
    rwa [hsettled.arrived hother, hpending, List.append_nil, List.append_nil] at hflowing
  cases h.hears with
  | ended hover =>
    have hstate := of_decide_eq_true hother
    rw [← h.connection, hover.state] at hstate
    cases hstate
  | going hgoing =>
    obtain ⟨hheld, hitems⟩ := hsettled.taken
    rw [← h.connection] at hheld hitems ⊢
    rw [hgoing.heard_eq h.faithful hheld hitems]
    have herror := hgoing.error
    rw [← hseen] at herror ⊢
    obtain ⟨htake, hnone⟩ := @Frame.split_encodeAll course.connection.maxBody _ h.short
    rw [htake, List.takeWhile_eq_self_iff]
    exact ⟨hnone.1 herror, hnone.1 herror⟩

/-- Where a length was refused, the bodies in front of it were heard as far as the dispatcher has
looked for them, and then the end. -/
theorem Passes.heard_of_refused (h : l.Passes s bodies course seen delivered)
    (herror : (Frame.split (l.conn s.other).maxBody seen).error.isSome) (hsettled : l.Settled s) :
    (l.conn s.other).heard <+: bodies.takeWhile (Frame.isBelow (l.conn s.other).maxBody) ∧
      (course.looked.told = true →
        (l.conn s.other).heard = bodies.takeWhile (Frame.isBelow (l.conn s.other).maxBody)) ∧
      (l.conn s.other).dispatcher.calls.getLast? =
        some (.disconnected (.plain .protocolViolation)) := by
  rw [← (h.refused herror).1]
  rw [← h.connection] at herror ⊢
  cases h.hears with
  | going hgoing =>
    rw [hgoing.error] at herror
    cases herror
  | ended hover =>
    have hnot : (l.conn s.other).isConnected = false := by
      rw [← h.connection, Connection.isConnected, hover.state]
      rfl
    have hended := hsettled.told hnot
    rw [← h.connection] at hended
    obtain ⟨hfirst, hheard, hlast⟩ := hover.heard_eq h.faithful hended
    obtain ⟨hbodies, hcause⟩ := hover.error herror
    exact ⟨hbodies ▸ hfirst, fun htold => (hheard htold).trans hbodies, hcause ▸ hlast⟩

/-! ### Runs without disturbance -/

/-- **Where nobody asks for the end and no socket fails**, both ends stay connected unless the
server refuses a length. -/
theorem Passes.run_undisturbed (h : l.Passes .client bodies course seen delivered) (hs : l.Sound)
    (hclient : (l.conn .client).maxBody = none)
    (hback : l.Passes .server back course' seen' delivered')
    (hfine : l.areConnected = true ∨
      (Frame.split (l.conn .server).maxBody seen).error.isSome)
    (hundisturbed : l.isUndisturbed es = true) :
    ∃ course₁ seen delivered,
      (l.run es).Passes .client (bodies ++ l.sent .client es) course₁ seen delivered ∧
        (course.looked.told = true ∨ l.looksLate .server es = true → course₁.looked.told = true) ∧
        ((l.run es).areConnected = true ∨
          (Frame.split (l.conn .server).maxBody seen).error.isSome) := by
  -- over the events, with both directions at once: each end may be ended by what it reads
  induction es generalizing l bodies back course course' seen seen' delivered delivered' with
  | nil =>
    exact ⟨course, seen, delivered, by rwa [sent, List.append_nil],
      fun hlooks => hlooks.resolve_right Bool.false_ne_true, hfine⟩
  | cons e es ih =>
    rw [isUndisturbed, Bool.and_eq_true] at hundisturbed
    obtain ⟨hcalm, hrest⟩ := hundisturbed
    obtain ⟨_, seen₁, _, hstep, hseen, hlooks, hserver⟩ := h.step hs e
    obtain ⟨_, seen₂, _, hstepBack, -, -, hclient'⟩ := hback.step hs e
    have hfine' : (l.step e).areConnected = true ∨
        (Frame.split (l.conn .server).maxBody seen₁).error.isSome := by
      rcases hfine with hconnected | herror
      · rw [hconnected, Bool.not_true, Bool.false_or] at hcalm
        rcases hserver hconnected hcalm with hserver | herror
        · -- the client takes bodies of any length
          rcases hclient' hconnected hcalm with hclient' | herror
          · exact .inl (areConnected_iff.2 fun s => by cases s <;> assumption)
          · rw [show (l.conn Side.server.other).maxBody = none from hclient] at herror
            obtain ⟨body, -, hbelow⟩ := (hstepBack.refused herror).2
            cases hbelow
        · exact .inr herror
      · exact .inr ((Frame.split_isPrefix hseen).2 herror).1
    rw [← l.maxBody_step e] at hclient hfine' ⊢
    obtain ⟨course₁, _, _, hrun, hlate, hend⟩ :=
      ih hstep (hs.step e) hclient hstepBack hfine' hrest
    rw [List.append_assoc] at hrun
    refine ⟨course₁, _, _, hrun, fun htold => hlate ?_, hend⟩
    rw [looksLate, Bool.or_eq_true, ← or_assoc] at htold
    exact htold.imp_left hlooks

/-! ### After the handshake -/

variable (client : ClientConfig) (listener : ListenerConfig) (token : Token)

theorem sound_established : (established client listener token).Sound where
  valid s := by cases s <;> exact Connection.valid_create _ _ _
  ended s h := by cases s <;> cases h

theorem passes_established (s : Side) :
    ∃ course, (established client listener token).Passes s [] course [] [] := by
  refine ⟨⟨(established client listener token).conn s.other, [], none, ⟨[], false⟩⟩, rfl, ?_, ?_,
    nofun, ?_, ?_⟩
  · cases s <;> exact Dispatcher.History.faithful_opening _
  · cases s <;> exact .going ⟨rfl, rfl, rfl, Frame.Assembly.took_start _, rfl, rfl⟩
  · intro _
    cases s <;> rfl
  · cases s <;> exact List.prefix_rfl

theorem dispatchQueueLength_pos {config : EndpointConfig} (h : config.check = .ok ()) :
    0 < config.dispatchQueueLength := by
  refine Nat.pos_of_ne_zero fun hzero => ?_
  simp only [EndpointConfig.check, hzero, if_true] at h
  split_ifs at h

theorem lively_established (hclient : client.toEndpointConfig.check = .ok ())
    (hlistener : listener.check = .ok ()) : (established client listener token).Lively := by
  have hendpoint : listener.toEndpointConfig.check = .ok () := by
    unfold ListenerConfig.check at hlistener
    split_ifs at hlistener
    exact hlistener
  intro s
  cases s with
  | client => exact Connection.lively_create _ _ _ (dispatchQueueLength_pos hclient)
  | server => exact Connection.lively_create _ _ _ (dispatchQueueLength_pos hendpoint)

theorem exists_passes (s : Side) (es : List Event) :
    ∃ course seen delivered, ((established client listener token).run es).Passes s
      ((established client listener token).sent s es) course seen delivered := by
  obtain ⟨course, h⟩ := passes_established client listener token s
  exact h.run (sound_established client listener token) es

theorem exists_passes_undisturbed {es : List Event}
    (h : (established client listener token).isUndisturbed es = true) :
    ∃ course seen delivered, ((established client listener token).run es).Passes .client
        ((established client listener token).sent .client es) course seen delivered ∧
      ((established client listener token).looksLate .server es = true →
        course.looked.told = true) ∧
      (((established client listener token).run es).areConnected = true ∨
        (Frame.split (some listener.maxBodyLength) seen).error.isSome) := by
  obtain ⟨_, hclient⟩ := passes_established client listener token .client
  obtain ⟨_, hserver⟩ := passes_established client listener token .server
  obtain ⟨course, seen, delivered, hpasses, hlooks, hfine⟩ := hclient.run_undisturbed
    (sound_established client listener token) rfl hserver (.inl rfl) h
  exact ⟨course, seen, delivered, hpasses, fun hlate => hlooks (.inr hlate), hfine⟩

/-- **What one end of a link takes on for the stream, the handler at the other end hears**, in
order, whole and once, from the first byte behind the token on.  What is on its way at any moment
can be moved on until nothing of it is left. -/
theorem conveys :
    (established client listener token).Conveys listener.maxBodyLength ∧
      (client.toEndpointConfig.check = .ok () → listener.check = .ok () → ∀ es s,
        ∃ moves, (∀ e ∈ moves, e.isMove = true) ∧
          ((established client listener token).run (es ++ moves)).Settled s ∧
          (established client listener token).sent s (es ++ moves) =
            (established client listener token).sent s es ∧
          (established client listener token).isUndisturbed (es ++ moves) =
            (established client listener token).isUndisturbed es) ∧
      ∀ es n c more,
        ((established client listener token).run es).conn .client =
          (established client listener token).conn .client →
        n.pieces.flatten ++ more = Handshake.encodeToken token ++
          (((established client listener token).run es).wires.get .server).bytes →
        (Client.connect client n).result = .ok c →
        c = (((established client listener token).run es).step (.start .client)).conn .client ∧
          (Client.connect client n).echo = some (Handshake.encodeToken token) ∧
          (Client.connect client n).rest.flatten ++ more =
            ((((established client listener token).run es).step (.start .client)).wires.get
              .server).bytes := by
  have hs := sound_established client listener token
  refine ⟨⟨fun es s => ?_, fun es s hconnected hsettled => ?_, fun es hund hlong hsettled => ?_,
    fun es hund hshort => ?_, fun es s bs a => ?_, fun es s body hbody => ?_⟩,
    fun hclient hlistener es s => ?_, fun es n c more hunstarted hstream hresult => ?_⟩
  · obtain ⟨_, _, _, h⟩ := exists_passes client listener token s es
    exact h.heard_isPrefix
  · obtain ⟨_, _, _, h⟩ := exists_passes client listener token s es
    exact (h.heard_eq hconnected hsettled).1
  · obtain ⟨_, _, _, h, hlooks, hfine⟩ := exists_passes_undisturbed client listener token hund
    have hmax : (((established client listener token).run es).conn .server).maxBody =
        some listener.maxBodyLength := maxBody_run _ es .server
    obtain ⟨body, hbody, hlen⟩ := hlong
    have herror := hfine.resolve_left fun hconnected => by
      have hbelow := (h.heard_eq hconnected hsettled).2 body hbody
      rw [show Side.client.other = .server from rfl, hmax] at hbelow
      exact absurd (of_decide_eq_true hbelow) (Nat.not_lt.2 hlen)
    rw [← hmax] at herror
    have hheard := h.heard_of_refused herror hsettled
    rw [show Side.client.other = .server from rfl, hmax] at hheard
    obtain ⟨hfirst, hall, hlast⟩ := hheard
    exact ⟨hfirst, fun hlate => hall (hlooks hlate), hlast⟩
  · obtain ⟨_, _, _, h, -, hfine⟩ := exists_passes_undisturbed client listener token hund
    refine hfine.resolve_right fun herror => ?_
    obtain ⟨body, hbody, hbelow⟩ := (h.refused herror).2
    exact of_decide_eq_false hbelow (hshort body hbody)
  · exact send_reliable _ s bs a
  · obtain ⟨hv, -⟩ := hs.run es
    exact if_pos ((hv s).short body hbody)
  · obtain ⟨_, _, _, h⟩ := exists_passes client listener token s es
    have hl := (lively_established client listener token hclient hlistener).run hs es
    obtain ⟨moves, hmoves, hsettled⟩ := h.exists_settled (hs.run es) hl
    have hrun : (established client listener token).run (es ++ moves) =
        ((established client listener token).run es).run moves := List.foldl_append
    exact ⟨moves, hmoves, hrun ▸ hsettled, sent_append_of_isMove hmoves,
      isUndisturbed_append_of_isMove hmoves⟩
  · have hm : ((established client listener token).run es).Moves
        (((established client listener token).run es).step (.start .client)) .client .start :=
      moves_step rfl
    obtain ⟨hconnection, hecho, hrest⟩ := Client.connect_of_stream hresult hstream
    refine ⟨?_, hecho, hrest.trans hm.read⟩
    rw [hm.conn, hunstarted]
    exact hconnection

/-- A client of a listener on this machine. -/
def nearClient : ClientConfig := .ofAddress ⟨[127, 0, 0, 1], 4000⟩

/-- A listener that takes bodies of up to two bytes. -/
def narrowListener : ListenerConfig where
  host := ListenerConfig.anyHost
  tcpPort := 4000
  maxBodyLength := 3

/-- The link that a handshake of the two has made. -/
def narrow : Link := established nearClient narrowListener 7

/-- The third of four bodies is too long for the server; writes and reads are cut anywhere. -/
def overlong : List Event :=
  [.start .client, .start .server,
    .send .client [1] .reliable .sent, .send .client [2, 3] .reliable .sent,
    .send .client [4, 5, 6] .reliable .sent, .send .client [7] .reliable .sent,
    .write .client (.wrote 3), .write .client (.wrote 9), .read .server 2, .read .server 9,
    .read .server 9, .settle .server, .write .client (.wrote 6), .read .server 9,
    .poll .server 0, .read .server 1, .read .server 1, .settle .server, .write .client (.wrote 5),
    .read .server 4, .finish .server, .poll .server 0, .finish .server, .poll .server 0,
    .check .server, .conclude .server]

/-- The server has written a body before the client is started. -/
def early : List Event :=
  [.start .server, .send .server [9, 9, 9, 9] .reliable .sent, .write .server (.wrote 6)]

/-- The client reads the body. -/
def exchange : List Event :=
  early ++ [.start .client, .write .server (.wrote 2), .read .client 9, .read .client 3,
    .read .client 9, .settle .client, .poll .client 0]

/-- The stream of the server comes in two pieces; the second one goes on behind the token. -/
def piecewise : Client.Network where
  unreachable := none
  socketFault := none
  pieces := [[0, 0, 0, 0], [0, 0, 0, 0, 7, 0, 0]]
  ending := .silent
  echoFault := none
  arrivals := [.datagram (Handshake.encodeHello 7)]

/-- The two bodies in front of the one that is too long are heard, and then the end; in the other
direction the length does not matter, and the handshake takes none of the bytes of the body. -/
theorem heard_of_runs :
    (((narrow.run overlong).conn .server).heard = [[1], [2, 3]] ∧
      ((narrow.run overlong).conn .server).dispatcher.calls.getLast? =
        some (.disconnected (.plain .protocolViolation))) ∧
    ((narrow.run exchange).conn .client).heard = [[9, 9, 9, 9]] ∧
    (Client.connect nearClient piecewise).rest.flatten ++ [0, 4, 9, 9] = [0, 0, 0, 4, 9, 9] ∧
    ∃ moves, (narrow.run (early ++ moves)).Settled .server := by
  obtain ⟨hconveys, hmoves, hhandshake⟩ := conveys nearClient narrowListener 7
  obtain ⟨-, hheard, hlast⟩ := hconveys.upToRefused overlong (by decide)
    ⟨[4, 5, 6], by decide, by decide⟩ ⟨by decide, by decide, by decide, by decide⟩
  refine ⟨⟨hheard (by decide), hlast⟩,
    hconveys.all exchange .server (by decide) ⟨by decide, by decide, by decide, by decide⟩,
    (hhandshake early piecewise _ [0, 4, 9, 9] rfl (by decide) rfl).2.2, ?_⟩
  obtain ⟨moves, -, hsettled, -⟩ := hmoves rfl rfl early .server
  exact ⟨moves, hsettled⟩

/-- The server's dispatcher has just found no message when a body arrives and the next one is
refused, and looks for the end then. -/
def overtaken : List Event :=
  [.start .client, .start .server, .send .client [1] .reliable .sent,
    .send .client [4, 5, 6] .reliable .sent, .write .client (.wrote 5), .write .client (.wrote 7),
    .poll .server 0, .read .server 4, .read .server 1, .settle .server, .read .server 4,
    .check .server, .conclude .server]

/-- **A body in front of the one that is too long** is not heard there, though it was let in. -/
theorem not_hearsUpToRefused :
    (narrow.sent .client overtaken = [[1], [4, 5, 6]] ∧
      ((narrow.run overtaken).conn .server).dispatcher.calls =
        [.disconnected (.plain .protocolViolation)]) ∧
    ¬ narrow.HearsUpToRefused narrowListener.maxBodyLength := by
  refine ⟨⟨by decide, by decide⟩, fun hall => ?_⟩
  have hheard := hall overtaken (by decide) ⟨[4, 5, 6], by decide, by decide⟩
    ⟨by decide, by decide, by decide, by decide⟩
  exact absurd hheard (by decide)

end Tandem.Link
