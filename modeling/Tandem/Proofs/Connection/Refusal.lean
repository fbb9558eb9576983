import Tandem.Proofs.Connection.Datagrams
import Tandem.Proofs.RoundTrip.Pings

/-!
# What a refused send leaves behind

A send is refused because the connection is not connected, the bytes are too long or the socket is
busy (`Connection.Refusal`).  Nothing is queued, sent or counted then.  But a ping is remembered
before it is known whether it can be sent, so a ping that is refused is awaited like one that was
sent, and where the backlog is full an older one is forgotten for it
(`Connection.leaves_of_refused`).

Nothing else of a connection depends on its round trips: whatever happens, they take note of the
pings and of the acknowledgements that the handler is called with (`live_withTrips`).
-/

namespace Tandem

/-! ### What a ping does to the answers -/

section Find

variable {ps : List Ping} {p : Ping} {code : UInt16}

theorem find?_code_concat (h : code ≠ p.code) :
    (ps ++ [p]).find? (·.code = code) = ps.find? (·.code = code) := by
  have hlast : [p].find? (·.code = code) = none :=
    find?_code_eq_none_iff.2 fun hmem => h (List.mem_singleton.1 hmem)
  rw [List.find?_append, hlast, Option.or_none]

theorem filter_code_of_notMem (h : code ∉ ps.map Ping.code) : ps.filter (·.code ≠ code) = ps := by
  refine List.filter_eq_self.2 fun p hp => decide_eq_true fun hcode => h ?_
  exact List.mem_map.2 ⟨p, hp, hcode⟩

theorem length_filter_code_lt (h : code ∈ ps.map Ping.code) :
    (ps.filter (·.code ≠ code)).length < ps.length := by
  obtain ⟨p, hp, hcode⟩ := List.mem_map.1 h
  exact List.length_filter_lt_length_iff_exists.2 ⟨p, hp, by simp [hcode]⟩

/-- Where all codes are different, leaving the first ping out makes only its code missing. -/
theorem find?_code_drop_one (h : (ps.map Ping.code).Nodup) :
    (ps.drop 1).find? (·.code = code) =
      if (ps.map Ping.code).head? = some code then none else ps.find? (·.code = code) := by
  have hfirst : code ∈ (ps.take 1).map Ping.code ↔ (ps.map Ping.code).head? = some code := by
    cases ps with
    | nil => exact ⟨nofun, nofun⟩
    | cons p ps => simp [eq_comm]
  rw [find?_drop_code h]
  simp only [hfirst]

end Find

/-- The code that is forgotten when a ping with another code is remembered, if there is one. -/
def Backlog.forgets? (b : Backlog) (code : UInt16) : Option UInt16 :=
  if b.capacity ≤ b.order.length ∧ code ∉ b.order then b.order.head? else none

namespace Backlog

variable {b : Backlog} {ps : List Ping} {p : Ping} {code : UInt16}

theorem forgets?_of_mem (h : code ∈ b.order) : b.forgets? code = none :=
  if_neg fun hfull => hfull.2 h

theorem forgets?_of_room (h : b.order.length < b.capacity) : b.forgets? code = none :=
  if_neg fun hfull => Nat.not_le.2 h hfull.1

/-- **Remembering a ping** makes one of the others missing if there are too many. -/
theorem Lists.find?_insert (h : b.Lists ps) (hne : code ≠ p.code) :
    ((ps.filter (·.code ≠ p.code) ++ [p]).rtake b.capacity).find? (·.code = code) =
      if b.forgets? p.code = some code then none else ps.find? (·.code = code) := by
  have hle := h.length_le
  have hlength : b.order.length = ps.length := by rw [h.order_eq, List.length_map]
  cases hcapacity : b.capacity with
  | zero =>
    rw [hcapacity] at hle
    rw [List.length_eq_zero_iff.1 (Nat.le_zero.1 hle), List.rtake_zero]
    exact (ite_self _).symm
  | succ n =>
    rw [hcapacity] at hle
    rw [List.rtake_concat_succ, find?_code_concat hne, List.rtake]
    by_cases hmem : p.code ∈ ps.map Ping.code
    · -- the older ping of the code makes room
      have hlt := length_filter_code_lt hmem
      rw [Nat.sub_eq_zero_of_le (by omega), List.drop_zero, find?_filter_code, if_neg hne,
        forgets?_of_mem (h.order_eq ▸ hmem), if_neg nofun]
    · rw [filter_code_of_notMem hmem]
      by_cases hroom : ps.length ≤ n
      · rw [Nat.sub_eq_zero_of_le hroom, List.drop_zero, forgets?_of_room (by omega), if_neg nofun]
      · have hfull : b.forgets? p.code = (ps.map Ping.code).head? := by
          rw [← h.order_eq] at hmem ⊢
          exact if_pos ⟨by omega, hmem⟩
        rw [show ps.length - n = 1 by omega, find?_code_drop_one h.nodup, hfull]

end Backlog

namespace RoundTrip

variable {r : RoundTrip} {l : Ledger} {sampleCount capacity : Nat}

theorem Follows.answer (h : r.Follows sampleCount capacity l) (code : UInt16) (time : Nat) :
    (r.acknowledged code time).1 =
      (l.waiting.find? (·.code = code)).map fun p => time - p.time := by
  cases hfind : l.waiting.find? (·.code = code) with
  | none => rw [h.acknowledged_of_none hfind, Option.map_none]
  | some p => rw [(h.acknowledged_of_some hfind time).1, Option.map_some]

theorem Follows.sent (h : r.Follows sampleCount capacity l) (code : UInt16) (now : Nat) :
    (r.sent code now).Follows sampleCount capacity (l.sent capacity ⟨code, now⟩) :=
  (h.step (.sent code now)).2

theorem Follows.sent_self (h : r.Follows sampleCount capacity l) (hcapacity : 0 < capacity)
    (code : UInt16) (now time : Nat) :
    ((r.sent code now).acknowledged code time).1 = some (time - now) := by
  obtain ⟨n, rfl⟩ := Nat.exists_eq_succ_of_ne_zero (Nat.ne_of_gt hcapacity)
  have hsent := h.sent code now
  have hwaits : (⟨code, now⟩ : Ping) ∈ (l.sent (n + 1) ⟨code, now⟩).waiting := by
    rw [Ledger.sent, List.rtake_concat_succ]
    exact List.mem_append_right _ List.mem_cons_self
  rw [hsent.answer, find?_code_of_mem hsent.lists.nodup hwaits, Option.map_some]

theorem Follows.sent_other (h : r.Follows sampleCount capacity l) {code code' : UInt16}
    (hne : code' ≠ code) (now time : Nat) :
    ((r.sent code now).acknowledged code' time).1 =
      if r.backlog.forgets? code = some code' then none else (r.acknowledged code' time).1 := by
  rw [(h.sent code now).answer, h.answer, Ledger.sent, ← h.capacity_eq,
    h.lists.find?_insert (p := ⟨code, now⟩) hne]
  split_ifs <;> rfl

/-- **A ping makes no difference** to the next acknowledgement only if no pings are remembered at
all or one of its code was sent at the same time. -/
theorem Follows.unnoticed_iff (h : r.Follows sampleCount capacity l) (code : UInt16) (now : Nat) :
    (∀ code' time, ((r.sent code now).acknowledged code' time).1 = (r.acknowledged code' time).1) ↔
      capacity = 0 ∨ r.backlog.times.get? code = some now := by
  rw [h.lists.get?_eq]
  constructor
  · intro hsame
    refine or_iff_not_imp_left.2 fun hcapacity => ?_
    have hself : ∀ time, some (time - now) =
        (l.waiting.find? (·.code = code)).map fun p => time - p.time := fun time => by
      rw [← h.sent_self (Nat.pos_of_ne_zero hcapacity) code now, hsame, h.answer]
    cases hfind : l.waiting.find? (·.code = code) with
    | none =>
      rw [hfind] at hself
      cases hself 0
    | some p =>
      -- at a time behind both, the same trip began at the same time
      have htrip : some (max now p.time - now) = some (max now p.time - p.time) := by
        rw [hself, hfind]
        rfl
      rw [Option.some.injEq] at htrip
      rw [Option.map_some, show p.time = now by omega]
  · rintro (rfl | hnow) code' time
    · have hnobody : ∀ {r : RoundTrip} {l : Ledger}, r.Follows sampleCount 0 l →
          (r.acknowledged code' time).1 = none := fun h => by
        have hlength := h.lists.length_le
        rw [h.capacity_eq] at hlength
        rw [h.answer, List.length_eq_zero_iff.1 (Nat.le_zero.1 hlength)]
        rfl
      rw [hnobody (h.sent code now), hnobody h]
    · obtain ⟨p, hfind, rfl⟩ := Option.map_eq_some_iff.1 hnow
      obtain ⟨hp, rfl⟩ := find?_code_eq_some hfind
      have hpos : 0 < capacity := by
        have hlength := h.lists.length_le
        rw [h.capacity_eq] at hlength
        exact Nat.lt_of_lt_of_le (List.length_pos_of_mem hp) hlength
      rcases Decidable.eq_or_ne code' p.code with rfl | hne
      · rw [h.sent_self hpos, h.answer, hfind]
        rfl
      · rw [h.sent_other hne, Backlog.forgets?_of_mem (h.lists.order_eq ▸ List.mem_map_of_mem hp),
          if_neg nofun]

end RoundTrip

namespace Connection

variable {c : Connection} {bs : Bytes} {ch : Channel} {a : DatagramAttempt} {x : Message}
  {m : Memory}
  {now : Nat}

/-! ### Refusals -/

/-- Why a send is refused. -/
inductive Refusal (c : Connection) (bs : Bytes) : Channel → DatagramAttempt → Prop
  | notConnected (ch : Channel) (a : DatagramAttempt) (h : c.isConnected = false) :
    Refusal c bs ch a
  | tooLong (a : DatagramAttempt) (h : Kind.maxCount < bs.length) : Refusal c bs .reliable a
  | tooLongForDatagram (a : DatagramAttempt) (h : maxDatagram < bs.length) :
      Refusal c bs .unreliable a
  | busy : Refusal c bs .unreliable .busy

theorem Refusal.sendBytes_eq (h : Refusal c bs ch a) : c.sendBytes bs ch a = (false, c) := by
  cases h with
  | notConnected _ _ h => exact if_neg (by rw [h]; exact Bool.false_ne_true)
  | tooLong _ h =>
    rw [sendBytes_reliable, decide_eq_false (Nat.not_le.2 h), Bool.and_false]
    rfl
  | tooLongForDatagram _ h => exact sendBytes_of_tooLong h a
  | busy => exact c.sendBytes_of_busy bs

/-- **There are no other refusals**: what is not sent for another reason ends the connection. -/
theorem refusal_of_sendBytes (h : (c.sendBytes bs ch a).1 = false)
    (hstays : (c.sendBytes bs ch a).2.isConnected = c.isConnected) : Refusal c bs ch a := by
  cases hconnected : c.isConnected with
  | false => exact .notConnected ch a hconnected
  | true =>
    cases ch with
    | reliable =>
      rw [sendBytes_reliable, hconnected, Bool.true_and] at h
      by_cases hlen : bs.length ≤ Kind.maxCount
      · rw [decide_eq_true hlen] at h
        cases h
      · exact .tooLong a (Nat.not_le.1 hlen)
    | unreliable =>
      by_cases hlen : bs.length ≤ maxDatagram
      · rw [sendBytes_of_connected hconnected hlen] at h hstays
        cases a with
        | sent => cases h
        | busy => exact .busy
        | failed f =>
          have hended := c.isConnected_disconnect (.ofFault f)
          rw [step, show (c.disconnectWith (.ofFault f)).2.isConnected = _ from hstays,
            hconnected] at hended
          cases hended
      · exact .tooLongForDatagram a (Nat.not_le.1 hlen)

/-! ### Lives -/

/-- What can happen to a connection that messages are sent over. -/
inductive Deed where
  | event (e : Event)
  | message (x : Message) (m : Memory) (ch : Channel) (a : DatagramAttempt) (now : Nat)

/-- What becomes of a connection by a deed. -/
def act (c : Connection) : Deed → Connection
  | .event e => c.step e
  | .message x m ch a now => (c.send x m ch a now).2

/-- What becomes of a connection by deeds, one after the other. -/
def live (c : Connection) (ds : List Deed) : Connection := ds.foldl act c

/-- The acknowledgement that an event calls the handler with, if it does. -/
def acknowledges (c : Connection) : Event → List RoundTrip.Event
  | .poll now =>
    match c.dispatcher.poll.1 with
    | some d =>
      match Header.decode d.body with
      | .ok h => if h.isAcknowledgement then [.acknowledged h.code now] else []
      | .error _ => []
    | none => []
  | _ => []

/-- What sending a message is for the round trips. -/
def pings (x : Message) (now : Nat) : List RoundTrip.Event :=
  if x.isPing then [.sent x.code now] else []

/-- What a deed is for the round trips. -/
def notes (c : Connection) : Deed → List RoundTrip.Event
  | .event e => c.acknowledges e
  | .message x _ _ _ now => pings x now

/-- What a life is for the round trips. -/
def noted (c : Connection) : List Deed → List RoundTrip.Event
  | [] => []
  | d :: ds => c.notes d ++ (c.act d).noted ds

/-! ### Nothing depends on the round trips -/

/-- The connection with other round trips. -/
def withTrips (c : Connection) (r : RoundTrip) : Connection := { c with trips := r }

@[simp] theorem trips_withTrips (c : Connection) (r : RoundTrip) : (c.withTrips r).trips = r := rfl

@[simp] theorem withTrips_self (c : Connection) : c.withTrips c.trips = c := rfl

section Independence

variable (c : Connection) (r : RoundTrip)

theorem disconnectWith_withTrips (cause : Cause) :
    ((c.withTrips r).disconnectWith cause).2 = (c.disconnectWith cause).2.withTrips r := by
  have hstate : (c.withTrips r).state = c.state := rfl
  unfold disconnectWith ConnectionState.beginDisconnect
  rw [hstate]
  cases c.state.isEnding <;> rfl

theorem sendBytes_withTrips (bs : Bytes) (ch : Channel) (a : DatagramAttempt) :
    (c.withTrips r).sendBytes bs ch a =
      ((c.sendBytes bs ch a).1, (c.sendBytes bs ch a).2.withTrips r) := by
  have hconnected : (c.withTrips r).isConnected = c.isConnected := rfl
  cases ch with
  | reliable =>
    rw [sendBytes_reliable, sendBytes_reliable, hconnected]
    cases c.isConnected && decide (bs.length ≤ Kind.maxCount) <;> rfl
  | unreliable =>
    simp only [sendBytes, sendUnreliable, hconnected]
    split_ifs
    · rfl
    · cases a with
      | sent | busy => rfl
      | failed f => exact Prod.ext rfl (c.disconnectWith_withTrips r _)
    · rfl

theorem write_withTrips (a : Frame.Attempt) :
    ((c.withTrips r).write a).2 = (c.write a).2.withTrips r := by
  have hrunning : (c.withTrips r).running = c.running := rfl
  have hnext : (c.withTrips r).nextFrame = c.nextFrame := rfl
  simp only [write, hrunning, hnext]
  split_ifs
  · split
    · rfl
    · split
      · exact c.disconnectWith_withTrips r _
      · split_ifs <;> rfl
  · rfl

theorem read_withTrips (piece : Bytes) :
    (c.withTrips r).read piece = (c.read piece).withTrips r := by
  have hreading : (c.withTrips r).isReading = c.isReading := rfl
  have htake : (c.withTrips r).assembly.take (c.withTrips r).maxBody piece =
      c.assembly.take c.maxBody piece := rfl
  simp only [read, hreading, htake]
  split_ifs
  · cases (c.assembly.take c.maxBody piece).1 with
    | ok body => cases body <;> rfl
    | error _ =>
      exact disconnectWith_withTrips { c with
        assembly := (c.assembly.take c.maxBody piece).2
        traffic := { c.traffic with
          streamReceived := c.traffic.streamReceived + piece.length } } r _
  · rfl

theorem poll_withTrips (now : Nat) :
    ((c.withTrips r).poll now).2 =
      (c.poll now).2.withTrips (r.run (c.acknowledges (.poll now))).2 := by
  have hdispatcher : (c.withTrips r).dispatcher = c.dispatcher := rfl
  simp only [poll, acknowledges, hdispatcher]
  cases c.dispatcher.poll with
  | mk d dispatcher =>
    cases d with
    | none => rfl
    | some d =>
      simp only [noteAcknowledgement]
      cases Header.decode d.body with
      | error _ => rfl
      | ok h => cases hack : h.isAcknowledgement <;> simp only [hack] <;> rfl

/-- **An event** does the same whatever the round trips are. -/
theorem step_withTrips (e : Event) :
    (c.withTrips r).step e = (c.step e).withTrips (r.run (c.acknowledges e)).2 := by
  have hreading : (c.withTrips r).isReading = c.isReading := rfl
  cases e with
  | start =>
    have hdispatcher : (c.withTrips r).dispatcher = c.dispatcher := rfl
    simp only [step, start, hdispatcher]
    split_ifs <;> rfl
  | send bs ch a => exact congrArg Prod.snd (c.sendBytes_withTrips r bs ch a)
  | write a => exact c.write_withTrips r a
  | read piece => exact c.read_withTrips r piece
  | poll now => exact c.poll_withTrips r now
  | disconnect cause => exact c.disconnectWith_withTrips r cause
  | settle | datagram _ | check | finish | conclude => rfl
  | readEnd =>
    simp only [step, readEnd, hreading]
    split_ifs
    · exact c.disconnectWith_withTrips r _
    · rfl
  | readFailed f =>
    simp only [step, readFailed, hreading]
    split_ifs
    · exact c.disconnectWith_withTrips r _
    · rfl
  | datagramFailed f =>
    have hrunning : (c.withTrips r).running = c.running := rfl
    simp only [step, datagramFailed, hrunning]
    split_ifs
    · exact c.disconnectWith_withTrips r _
    · rfl

theorem send_eq (x : Message) (m : Memory) (ch : Channel) (a : DatagramAttempt) (now : Nat) :
    c.send x m ch a now = ((c.sendBytes (x.wire m) ch a).1,
      (c.sendBytes (x.wire m) ch a).2.withTrips (c.trips.run (pings x now)).2) := by
  unfold send pings
  cases x.isPing with
  | true => exact c.sendBytes_withTrips _ _ _ _
  | false => exact c.sendBytes_withTrips c.trips _ _ _

theorem act_withTrips (d : Deed) :
    (c.withTrips r).act d = (c.act d).withTrips (r.run (c.notes d)).2 := by
  cases d with
  | event e => exact c.step_withTrips r e
  | message x m ch a now =>
    simp only [act, send_eq, sendBytes_withTrips]
    rfl

end Independence

/-- **In a whole life** the round trips take note of pings and acknowledgements, and nothing else
depends on them. -/
theorem live_withTrips (c : Connection) (r : RoundTrip) (ds : List Deed) :
    (c.withTrips r).live ds = (c.live ds).withTrips (r.run (c.noted ds)).2 := by
  induction ds generalizing c r with
  | nil => rfl
  | cons d ds ih =>
    calc (c.withTrips r).live (d :: ds)
        = ((c.withTrips r).act d).live ds := rfl
      _ = ((c.act d).live ds).withTrips ((r.run (c.notes d)).2.run ((c.act d).noted ds)).2 := by
          rw [act_withTrips, ih]
      _ = (c.live (d :: ds)).withTrips (r.run (c.noted (d :: ds))).2 := by
          rw [noted, RoundTrip.run_append]
          rfl

theorem follows_live (config : EndpointConfig) (maxBody : Option Nat) (token : Token)
    (ds : List Deed) : ∃ l, ((create config maxBody token).live ds).trips.Follows
      config.sampleCount config.pingBacklog l := by
  have hlive := (create config maxBody token).live_withTrips
    (create config maxBody token).trips ds
  rw [withTrips_self] at hlive
  rw [hlive, trips_withTrips]
  exact ⟨_, ((RoundTrip.follows_create _ _).run _).2⟩

/-! ### The main statement -/

/-- The second connection is the first one as far as anybody will ever see from what is queued, sent
and counted and from the answers to acknowledgements. -/
def LeavesNoTrace (c c' : Connection) : Prop :=
  c'.outbound = c.outbound ∧ c'.frame = c.frame ∧ c'.traffic = c.traffic ∧
    ∀ ds code time, ((c'.live ds).trips.acknowledged code time).1 =
      ((c.live ds).trips.acknowledged code time).1

/-- What the send of a message leaves behind that a connection refuses, if its backlog has room for
that many pings. -/
structure Leaves (c : Connection) (capacity : Nat) (x : Message) (m : Memory) (ch : Channel)
    (a : DatagramAttempt) (now : Nat) : Prop where
  refusal : Refusal c (x.wire m) ch a
  /-- nothing but a ping, which is remembered as if it had been sent -/
  eq : (c.send x m ch a now).2 =
    if x.isPing then { c with trips := c.trips.sent x.code now } else c
  /-- a message that is no ping leaves no trace -/
  plain : x.isPing = false → c.LeavesNoTrace (c.send x m ch a now).2
  /-- whatever happens later, only the round trips can tell, and they go on from where they are -/
  later : ∀ ds, (c.live ds).trips = (c.trips.run (c.noted ds)).2 ∧
    (c.send x m ch a now).2.live ds = { c.live ds with
      trips := ((c.send x m ch a now).2.trips.run (c.noted ds)).2 }
  /-- an acknowledgement of the ping that was not sent measures a round trip -/
  awaited : x.isPing = true → 0 < capacity → ∀ time,
    ((c.send x m ch a now).2.trips.acknowledged x.code time).1 = some (time - now)
  /-- and of the pings that were sent, one may be forgotten -/
  others : x.isPing = true → ∀ code, code ≠ x.code → ∀ time,
    ((c.send x m ch a now).2.trips.acknowledged code time).1 =
      if c.trips.backlog.forgets? x.code = some code then none
      else (c.trips.acknowledged code time).1
  /-- the next acknowledgement is answered as before, whichever it is, only if no pings are
  remembered at all or one of this code was sent at the same time -/
  unnoticed_iff : x.isPing = true →
    ((∀ code time, ((c.send x m ch a now).2.trips.acknowledged code time).1 =
        (c.trips.acknowledged code time).1) ↔
      capacity = 0 ∨ c.trips.backlog.times.get? x.code = some now)

/-- **A refused send leaves nothing behind but a ping.**  Whatever has happened to a connection,
nothing is queued, sent or counted by a send that it refuses without ending, and a message that is
no ping leaves no trace.  A ping is remembered as if it had been sent: its acknowledgement would be
answered, and in a full backlog it takes the place of the oldest one. -/
theorem leaves_of_refused (config : EndpointConfig) (maxBody : Option Nat) (token : Token)
    (ds : List Deed) (x : Message) (m : Memory) (ch : Channel) (a : DatagramAttempt) (now : Nat)
    (hrefused : (((create config maxBody token).live ds).send x m ch a now).1 = false)
    (hstays : (((create config maxBody token).live ds).send x m ch a now).2.isConnected =
      ((create config maxBody token).live ds).isConnected) :
    ((create config maxBody token).live ds).Leaves config.pingBacklog x m ch a now := by
  obtain ⟨l, hfollows⟩ := follows_live config maxBody token ds
  generalize (create config maxBody token).live ds = c at hrefused hstays hfollows
  rw [send_eq] at hrefused hstays
  have hrefusal := refusal_of_sendBytes hrefused hstays
  have hsend : (c.send x m ch a now).2 = c.withTrips (c.trips.run (pings x now)).2 := by
    rw [send_eq, hrefusal.sendBytes_eq]
  have hlater : ∀ ds, (c.live ds).trips = (c.trips.run (c.noted ds)).2 := fun ds => by
    have hlive := c.live_withTrips c.trips ds
    rw [withTrips_self] at hlive
    rw [hlive, trips_withTrips]
  have hplain : x.isPing = false → (c.send x m ch a now).2 = c := fun hx => by
    rw [hsend, pings, hx]
    rfl
  have hping : x.isPing = true → (c.send x m ch a now).2.trips = c.trips.sent x.code now :=
    fun hx => by
      rw [hsend, pings, hx]
      rfl
  refine ⟨hrefusal, ?_, fun hx => ?_, fun ds => ⟨hlater ds, ?_⟩, fun hx hcapacity time => ?_,
    fun hx code hne time => ?_, fun hx => ?_⟩
  · rw [hsend, pings]
    cases x.isPing <;> rfl
  · rw [hplain hx]
    exact ⟨rfl, rfl, rfl, fun _ _ _ => rfl⟩
  · rw [hsend, live_withTrips]
    rfl
  · rw [hping hx]
    exact hfollows.sent_self hcapacity x.code now time
  · rw [hping hx]
    exact hfollows.sent_other hne now time
  · rw [hping hx]
    exact hfollows.unnoticed_iff x.code now

/-- A ping without a payload. -/
def barePing (code : UInt16) : Message :=
  { (Message.empty 7 .initial).1 with flags := Flags.ping, code }

/-- A connection that remembers one ping. -/
def forgetful : EndpointConfig := { pingBacklog := 1 }

/-- The first ping is sent. -/
def firstPing : List Deed :=
  [.event .start, .message (barePing 1) (Message.empty 7 .initial).2 .reliable .sent 0]

/-- The second one finds the socket busy, and the first one is forgotten. -/
theorem not_leavesNoTrace_busy :
    (((create forgetful none 7).live firstPing).send (barePing 2) (Message.empty 7 .initial).2
        .unreliable .busy 5).1 = false ∧
      (((create forgetful none 7).live firstPing).send (barePing 2) (Message.empty 7 .initial).2
        .unreliable .busy 5).2.isConnected =
          ((create forgetful none 7).live firstPing).isConnected ∧
      ¬ ((create forgetful none 7).live firstPing).LeavesNoTrace
        (((create forgetful none 7).live firstPing).send (barePing 2) (Message.empty 7 .initial).2
          .unreliable .busy 5).2 := by
  refine ⟨by decide, by decide, fun h => ?_⟩
  have hfirst := h.2.2.2 [] 1 9
  revert hfirst
  decide

/-- Its acknowledgement is not answered any more, but one of the second ping would be. -/
theorem leaves_of_busy :
    ((((create forgetful none 7).live firstPing).send (barePing 2) (Message.empty 7 .initial).2
        .unreliable .busy 5).2.trips.acknowledged 1 9).1 = none ∧
      ((((create forgetful none 7).live firstPing).send (barePing 2) (Message.empty 7 .initial).2
        .unreliable .busy 5).2.trips.acknowledged 2 9).1 = some 4 := by
  have h := leaves_of_refused forgetful none 7 firstPing (barePing 2) (Message.empty 7 .initial).2
    .unreliable .busy 5 (by decide) (by decide)
  exact ⟨h.others rfl 1 (by decide) 9, h.awaited rfl (by decide) 9⟩

end Connection

end Tandem
