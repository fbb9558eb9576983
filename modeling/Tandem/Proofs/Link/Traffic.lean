import Tandem.Proofs.Connection.Traffic
import Tandem.Proofs.Link.Delivery

/-!
# What the counters at both ends of a link say

An event of a link is an event of one of its connections at most, so either end has its share of a
run (`Link.share`), and its counters are those of a connection to which this share has happened.
What one end has written is what the other end has read and what is on the wire between them
(`Link.takes_share`), and what it has sent in datagrams has come, is lost or is in the air
(`Link.emits_run`).  With nothing on its way and nothing lost, the counters of the two ends agree,
except for a frame of which only a part has been written (`Link.Accounts.agree`).
-/

namespace Tandem

namespace Link

open Connection (takes reads emits meets)

variable {l : Link} {s t : Side} {e : Event} {x : Connection.Event}

/-! ### The shares of the ends -/

/-- What an event is for the connection at an end. -/
def happens (l : Link) (s : Side) (e : Event) : List Connection.Event :=
  match l.acts e with
  | some (t, x) => if t = s then [x] else []
  | none => []

/-- What happens to the connection at an end in a run. -/
def share (l : Link) (s : Side) : List Event → List Connection.Event
  | [] => []
  | e :: es => l.happens s e ++ (l.step e).share s es

theorem happens_of_acts (h : l.acts e = some (t, x)) (s : Side) :
    l.happens s e = if t = s then [x] else [] := by
  simp only [happens, h]

theorem happens_of_stays (h : l.acts e = none) (s : Side) : l.happens s e = [] := by
  simp only [happens, h]

theorem conn_step (l : Link) (s : Side) (e : Event) :
    (l.step e).conn s = (l.conn s).run (l.happens s e) := by
  cases hacts : l.acts e with
  | none =>
    rw [happens_of_stays hacts, conn, (stays_step hacts).1]
    rfl
  | some act =>
    obtain ⟨t, x⟩ := act
    have hm := moves_step hacts
    rw [happens_of_acts hacts]
    split_ifs with hts
    · subst hts
      exact hm.conn
    · obtain rfl := Side.eq_other_of_ne (Ne.symm hts)
      exact hm.other

/-- **Either end** is what its share of the run has made of it. -/
theorem conn_run (l : Link) (s : Side) (es : List Event) :
    (l.run es).conn s = (l.conn s).run (l.share s es) := by
  induction es generalizing l with
  | nil => rfl
  | cons e es ih =>
    rw [share, Connection.run_append, ← conn_step]
    exact ih (l.step e)

section Collect

variable {α : Type} (f : Connection → Connection.Event → List α)

theorem collect_happens (l : Link) (s : Side) (e : Event) :
    (l.conn s).collect f (l.happens s e) =
      match l.acts e with
      | some (t, x) => if t = s then f (l.conn s) x else []
      | none => [] := by
  cases hacts : l.acts e with
  | none =>
    rw [happens_of_stays hacts]
    rfl
  | some act =>
    obtain ⟨t, x⟩ := act
    rw [happens_of_acts hacts]
    dsimp only
    split_ifs
    · exact List.append_nil _
    · rfl

theorem collect_share (l : Link) (s : Side) (e : Event) (es : List Event) :
    (l.conn s).collect f (l.share s (e :: es)) =
      (l.conn s).collect f (l.happens s e) ++
        ((l.step e).conn s).collect f ((l.step e).share s es) := by
  rw [share, Connection.collect_append, ← conn_step]

end Collect

/-! ### The stream -/

theorem takes_happens (l : Link) (s : Side) (e : Event) :
    (l.wires.get s).bytes ++ (l.conn s).collect takes (l.happens s e) =
      (l.conn s.other).collect reads (l.happens s.other e) ++ ((l.step e).wires.get s).bytes := by
  rw [collect_happens, collect_happens]
  cases hacts : l.acts e with
  | none =>
    rw [(stays_step hacts).2]
    exact List.append_nil _
  | some act =>
    obtain ⟨t, x⟩ := act
    have hm := moves_step hacts
    dsimp only
    rcases Decidable.eq_or_ne t s with rfl | hne
    · rw [if_pos rfl, if_neg t.ne_other, hm.written, List.nil_append]
    · obtain rfl := Side.eq_other_of_ne hne
      have hread := hm.read
      rw [Side.other_other] at hread
      rw [if_neg hne, if_pos rfl, List.append_nil, hread]

/-- **The stream loses nothing**: what an end writes is read at the other end or still on the
wire. -/
theorem takes_share (l : Link) (s : Side) (es : List Event) :
    (l.wires.get s).bytes ++ (l.conn s).collect takes (l.share s es) =
      (l.conn s.other).collect reads (l.share s.other es) ++ ((l.run es).wires.get s).bytes := by
  induction es generalizing l with
  | nil => exact List.append_nil _
  | cons e es ih =>
    rw [collect_share, collect_share, ← List.append_assoc, takes_happens, List.append_assoc, ih,
      List.append_assoc]
    rfl

/-! ### Datagrams -/

/-- The datagrams from an end that an event loses: on their way, or because the other end is not
connected any more. -/
def loses (l : Link) (s : Side) : Event → List Bytes
  | .lose t => if t = s.other then (l.air.get s).take 1 else []
  | .arrive t =>
    if t = s.other ∧ (l.conn t).isConnected = false then (l.air.get s).take 1 else []
  | _ => []

/-- The datagrams from an end that are lost in a run. -/
def lost (l : Link) (s : Side) : List Event → List Bytes
  | [] => []
  | e :: es => l.loses s e ++ (l.step e).lost s es

theorem emits_of_still (hair : (l.step e).air = l.air) (hloses : l.loses s e = [])
    (hstill : ∀ t x, l.acts e = some (t, x) → (l.conn t).emits x = [] ∧ (l.conn t).meets x = []) :
    l.air.get s ++ (l.conn s).collect emits (l.happens s e) =
      (l.conn s.other).collect meets (l.happens s.other e) ++ l.loses s e ++
        (l.step e).air.get s := by
  rw [collect_happens, collect_happens, hloses, hair]
  cases hacts : l.acts e with
  | none => exact List.append_nil _
  | some act =>
    obtain ⟨t, x⟩ := act
    obtain ⟨hemits, hmeets⟩ := hstill t x hacts
    dsimp only
    rcases Decidable.eq_or_ne t s with rfl | hne
    · rw [if_pos rfl, if_neg t.ne_other, hemits]
      exact List.append_nil _
    · obtain rfl := Side.eq_other_of_ne hne
      rw [if_neg hne, if_pos rfl, hmeets]
      exact List.append_nil _

/-- The datagrams on their way are not too long to be taken as a whole. -/
def Light (l : Link) : Prop := ∀ s, ∀ bs ∈ l.air.get s, Connection.fitting bs = bs

/-- **A datagram that an event sends** goes into the air, one that it takes out of the air comes or
is lost. -/
theorem emits_happens (h : l.Light) (s : Side) (e : Event) :
    l.air.get s ++ (l.conn s).collect emits (l.happens s e) =
      (l.conn s.other).collect meets (l.happens s.other e) ++ l.loses s e ++
        (l.step e).air.get s := by
  cases e with
  | start _ | write _ _ | settle _ | poll _ _ | check _ | finish _ | conclude _ | disconnect _ _ =>
    refine emits_of_still rfl rfl fun t x h => ?_
    cases h
    exact ⟨rfl, rfl⟩
  | read t n =>
    refine emits_of_still ?_ rfl fun t x h => ?_
    · simp only [step, read]
      split_ifs <;> rfl
    · simp only [acts] at h
      split_ifs at h <;> cases h <;> exact ⟨rfl, rfl⟩
  | send t bs ch a =>
    have hair : (l.step (.send t bs ch a)).air =
        if ((l.conn t).sendBytes bs ch a).1 && ch = Channel.unreliable then
          l.air.set t (l.air.get t ++ [bs])
        else l.air := rfl
    cases ch with
    | reliable =>
      refine emits_of_still (by rw [hair]; simp) rfl fun t x h => ?_
      cases h
      exact ⟨rfl, rfl⟩
    | unreliable =>
      rw [collect_happens, collect_happens, hair]
      simp only [acts, loses, emits, meets, ite_self, List.nil_append, decide_true, Bool.and_true]
      rcases Decidable.eq_or_ne t s with rfl | hne
      · rw [if_pos rfl]
        split_ifs
        · rw [Pair.get_set_self]
        · exact List.append_nil _
      · obtain rfl := Side.eq_other_of_ne hne
        rw [if_neg hne, List.append_nil]
        split_ifs
        · rw [Pair.get_set_of_other]
        · rfl
  | lose t =>
    have hair : (l.step (.lose t)).air = l.air.set t.other (l.air.get t.other).tail := rfl
    rw [collect_happens, collect_happens, hair]
    simp only [acts, loses, List.append_nil, List.nil_append]
    split_ifs with hts
    · subst hts
      rw [Side.other_other, Pair.get_set_self, ← List.drop_one, List.take_append_drop]
    · obtain rfl : t = s := by rw [Side.eq_other_of_ne hts, Side.other_other]
      rw [Pair.get_set_of_other, List.nil_append]
  | arrive t =>
    rw [collect_happens, collect_happens]
    cases hqueue : l.air.get t.other with
    | nil =>
      have hstep : l.step (.arrive t) = l := by simp only [step, arrive, hqueue]
      simp only [hstep, acts, hqueue, loses, List.append_nil, List.nil_append]
      split_ifs with hts
      · rw [hts.1, Side.other_other] at hqueue
        rw [hqueue]
        rfl
      · rfl
    | cons bs rest =>
      have hfits : Connection.fitting bs = bs :=
        h t.other bs (hqueue ▸ List.mem_cons_self)
      have hair : (l.step (.arrive t)).air = l.air.set t.other rest := by
        simp only [step, arrive, hqueue]
        split_ifs <;> rfl
      rw [hair]
      simp only [acts, hqueue, loses]
      rcases Decidable.eq_or_ne t s.other with rfl | hne
      · rw [Side.other_other] at hqueue ⊢
        rw [Pair.get_set_self, hqueue]
        -- who is not connected any more does not get to see it
        cases hconnected : (l.conn s.other).isConnected with
        | true => simp [s.ne_other.symm, meets, hfits]
        | false => simp
      · obtain rfl : t = s := by rw [Side.eq_other_of_ne hne, Side.other_other]
        have hemits : (l.conn t).emits (.datagram bs) = [] := rfl
        rw [Pair.get_set_of_other]
        cases (l.conn t).isConnected <;> simp [t.ne_other, hemits]

theorem Light.step (h : l.Light) (e : Event) : (l.step e).Light := by
  intro s bs hbs
  have hmem : bs ∈ l.air.get s ++ (l.conn s).collect emits (l.happens s e) := by
    rw [emits_happens h s e]
    exact List.mem_append_right _ hbs
  rw [List.mem_append, collect_happens] at hmem
  rcases hmem with hold | hnew
  · exact h s bs hold
  · split at hnew
    · split_ifs at hnew
      · exact Connection.fitting_of_mem_emits hnew
      · cases hnew
    · cases hnew

/-- **A datagram** that an end has sent has come, is lost or is in the air. -/
theorem emits_run (h : l.Light) (s : Side) (es : List Event) :
    ((l.air.get s).map List.length).sum +
        (((l.conn s).collect emits (l.share s es)).map List.length).sum =
      (((l.conn s.other).collect meets (l.share s.other es)).map List.length).sum +
        ((l.lost s es).map List.length).sum + (((l.run es).air.get s).map List.length).sum := by
  induction es generalizing l with
  | nil => simp [share, lost, Connection.collect, run]
  | cons e es ih =>
    have hstep := congrArg (fun ds => (ds.map List.length).sum) (emits_happens h s e)
    have hrest := ih (h.step e)
    simp only [List.map_append, List.sum_append] at hstep
    rw [show l.run (e :: es) = (l.step e).run es from rfl, collect_share, collect_share, lost]
    simp only [List.map_append, List.sum_append]
    omega

theorem isConnected_of_run {es : List Event} (h : ((l.run es).conn s).isConnected = true) :
    (l.conn s).isConnected = true := by
  rw [conn_run] at h
  exact Connection.isConnected_of_run h

theorem lost_eq_nil {es : List Event} (hconnected : ((l.run es).conn s.other).isConnected = true)
    (hlose : .lose s.other ∉ es) : l.lost s es = [] := by
  induction es generalizing l with
  | nil => rfl
  | cons e es ih =>
    rw [List.mem_cons, not_or] at hlose
    have hloses : l.loses s e = [] := by
      cases e with
      | lose t => exact if_neg fun hts => hlose.1 (by rw [hts])
      | arrive t =>
        refine if_neg fun h => ?_
        have hrun : ((l.run (.arrive t :: es)).conn s.other).isConnected = true := hconnected
        have hbefore := isConnected_of_run hrun
        rw [← h.1, h.2] at hbefore
        cases hbefore
      | _ => rfl
    rw [lost, hloses, ih hconnected hlose.2]
    rfl

/-! ### Both ends -/

/-- What the counters at the ends of a link say of each other, in all runs. -/
structure Accounts (l : Link) : Prop where
  /-- an end counts what has happened to it -/
  counts : ∀ es s, (l.run es).conn s = (l.conn s).run (l.share s es) ∧
    (l.conn s).Counts (l.share s es)
  /-- and never forgets any of it -/
  le : ∀ es more s, ((l.run es).conn s).traffic ≤ ((l.run (es ++ more)).conn s).traffic
  /-- what an end has written has been read or is on the wire -/
  stream : ∀ es s, (l.conn s).collect takes (l.share s es) =
    (l.conn s.other).collect reads (l.share s.other es) ++ ((l.run es).wires.get s).bytes
  /-- what it has sent in datagrams has been received, is lost or is in the air -/
  datagrams : ∀ es s, ((l.run es).conn s).traffic.datagramsSent =
    ((l.run es).conn s.other).traffic.datagramsReceived +
      ((l.lost s es).map List.length).sum + (((l.run es).air.get s).map List.length).sum
  /-- with nothing on its way and nothing lost, what has been received is what has been sent, but
  for the part that is there of a frame that is being written -/
  ahead : ∀ es s, (l.run es).areConnected = true → ((l.run es).wires.get s).bytes = [] →
    (l.run es).air.get s = [] → .lose s.other ∉ es →
    ((l.run es).conn s.other).traffic.streamReceived =
        ((l.run es).conn s).traffic.streamSent + ((l.run es).conn s).begun ∧
      ((l.run es).conn s.other).traffic.datagramsReceived =
        ((l.run es).conn s).traffic.datagramsSent
  /-- so the counters agree when all that has been written is whole frames -/
  agree : ∀ es, (l.run es).areConnected = true → (∀ s, ((l.run es).wires.get s).bytes = []) →
    (∀ s, (l.run es).air.get s = []) → (∀ s, .lose s ∉ es) →
    (∀ s, ((l.run es).conn s).begun = 0) → ∀ s,
    ((l.run es).conn s.other).traffic.streamReceived = ((l.run es).conn s).traffic.streamSent ∧
      ((l.run es).conn s.other).traffic.datagramsReceived =
        ((l.run es).conn s).traffic.datagramsSent

/-- **A link on which nothing has happened yet** accounts for every byte. -/
theorem accounts_of_fresh (hfresh : ∀ s, (l.conn s).Fresh)
    (hwires : ∀ s, (l.wires.get s).bytes = []) (hair : ∀ s, l.air.get s = []) : l.Accounts := by
  have hlight : l.Light := fun s bs hbs => by
    rw [hair] at hbs
    cases hbs
  have hcounts : ∀ es s, (l.run es).conn s = (l.conn s).run (l.share s es) ∧
      (l.conn s).Counts (l.share s es) := fun es s => ⟨l.conn_run s es, (hfresh s).counts _⟩
  have hstream : ∀ es s, (l.conn s).collect takes (l.share s es) =
      (l.conn s.other).collect reads (l.share s.other es) ++ ((l.run es).wires.get s).bytes := by
    intro es s
    rw [← takes_share, hwires, List.nil_append]
  have hdatagrams : ∀ es s, ((l.run es).conn s).traffic.datagramsSent =
      ((l.run es).conn s.other).traffic.datagramsReceived +
        ((l.lost s es).map List.length).sum + (((l.run es).air.get s).map List.length).sum := by
    intro es s
    rw [(hcounts es s).1, (hcounts es s.other).1, (hcounts es s).2.datagramsSent,
      (hcounts es s.other).2.datagramsReceived, ← emits_run hlight, hair, List.map_nil,
      List.sum_nil, Nat.zero_add]
  have hahead : ∀ es s, (l.run es).areConnected = true → ((l.run es).wires.get s).bytes = [] →
      (l.run es).air.get s = [] → .lose s.other ∉ es →
      ((l.run es).conn s.other).traffic.streamReceived =
          ((l.run es).conn s).traffic.streamSent + ((l.run es).conn s).begun ∧
        ((l.run es).conn s.other).traffic.datagramsReceived =
          ((l.run es).conn s).traffic.datagramsSent := by
    intro es s hconnected hwire hquiet hlose
    have hends := areConnected_iff.1 hconnected
    constructor
    · have hpart := (hcounts es s).2.part (by rw [← (hcounts es s).1]; exact hends s)
      have hwritten := (hcounts es s).2.length_written
      rw [hpart, hstream, hwire, List.append_nil, ← (hcounts es s.other).2.streamReceived,
        ← (hcounts es s.other).1, ← (hcounts es s).1] at hwritten
      exact hwritten
    · rw [hdatagrams, lost_eq_nil (hends s.other) hlose, hquiet]
      rfl
  refine ⟨hcounts, fun es more s => ?_, hstream, hdatagrams, hahead,
    fun es hconnected hwire hquiet hlose hwhole s => ?_⟩
  · rw [show l.run (es ++ more) = (l.run es).run more from List.foldl_append, conn_run (l.run es)]
    exact Connection.traffic_le_run _ _
  · have h := hahead es s hconnected (hwire s) (hquiet s) (hlose s.other)
    rw [hwhole s, Nat.add_zero] at h
    exact h

end Link

/-! ### Handshakes -/

theorem Client.fresh_of_connect {config : ClientConfig} {n : Client.Network} {c : Connection}
    (h : (Client.connect config n).result = .ok c) : c.Fresh := by
  unfold Client.connect at h
  split at h
  · cases h
  · split at h
    · cases h
    · cases h
    · split at h
      · cases h
      · cases h
        exact Connection.fresh_start _ _ _

namespace Listener

variable {l : Listener} {id : MemberId} {x : Member}

theorem traffic_connection {cause : Cause} {old : MemberId}
    (hx : (l.step (.connection old (.disconnect cause))).2.members[id]? = some x) :
    ∃ y, l.members[id]? = some y ∧ x.connection.traffic = y.connection.traffic := by
  rw [members_connection] at hx
  split_ifs at hx
  · obtain ⟨y, hy, rfl⟩ := Option.map_eq_some_iff.1 hx
    exact ⟨y, hy, Connection.traffic_disconnectWith _ _⟩
  · exact ⟨x, hx, rfl⟩

/-- A connection that the echo of a token has just made has counted nothing, the echo neither. -/
theorem traffic_echo {source : Address} {bs : Bytes} {failure : Option Fault}
    (hid : l.members.length ≤ id) (hx : (l.echo source bs failure).2.members[id]? = some x) :
    x.connection.traffic = ⟨0, 0, 0, 0⟩ := by
  have hnewcomer : ∀ (t : Token) (entry : Pending.Entry) (y : Member),
      ((l.completing t).enroll t entry source).2.members[id]? = some y →
      y.connection.traffic = ⟨0, 0, 0, 0⟩ := by
    intro t entry y hy
    have henlisted : ∀ z, (((l.completing t).enlist ((l.completing t).newcomer t entry
        source)).members)[id]? = some z → z.connection.traffic = ⟨0, 0, 0, 0⟩ := by
      intro z hz
      have hz : (l.members ++ [(l.completing t).newcomer t entry source])[id]? = some z := hz
      rw [List.getElem?_append_right hid] at hz
      obtain rfl := List.mem_singleton.1 (List.mem_of_getElem? hz)
      rfl
    cases hold : (l.completing t).peers.get? source with
    | none =>
      rw [enroll_of_none hold] at hy
      exact henlisted y hy
    | some old =>
      rw [enroll_of_some hold] at hy
      obtain ⟨z, hz, htraffic⟩ := traffic_connection hy
      exact htraffic.trans (henlisted z hz)
  rcases l.echo_cases source bs failure with hnothing | ⟨t, entry, -, -, hecho⟩
  · rw [hnothing, List.getElem?_eq_none hid] at hx
    cases hx
  · rcases hecho with hecho | ⟨cause, hecho⟩
    · rw [hecho] at hx
      exact hnewcomer t entry x hx
    · rw [hecho] at hx
      obtain ⟨y, hy, htraffic⟩ := traffic_connection hx
      exact htraffic.trans (hnewcomer t entry y hy)

end Listener

namespace Link

/-- **The counters account for every byte.**  Those of a connection are the sums of what has
happened to it, in every run.  A connection that a handshake has just made has counted nothing, on
the side of the client and on that of the listener, whose loop hands a datagram to the connection
that is registered for its source and counts no other.  So after a handshake, what one end has sent
is what the other end has received, what is lost and what is on its way. -/
theorem accounts_for_every_byte :
    (∀ config maxBody token es, (Connection.create config maxBody token).Counts es) ∧
    (∀ client n c, (Client.connect client n).result = .ok c →
      c.traffic = ⟨0, 0, 0, 0⟩ ∧ ∀ es, c.Counts es) ∧
    (∀ (c : ListenerConfig) (as : List Listener.Act),
      let l := (Listener.create c).follow as
      (∀ x ∈ l.members, ∃ es, x.connection = (Connection.create c.toEndpointConfig
        (some c.maxBodyLength) x.connection.token).run es) ∧
      ∀ (source : Address) (bs : Bytes) (failure : Option Fault),
        (∀ id, l.peers.get? source = some id → ∃ x, l.members[id]? = some x ∧
          l.step (.datagram source bs failure) =
            ([], { l with members := l.members.set id (x.step (.datagram bs)) })) ∧
        (l.peers.get? source = none → ∀ (id : MemberId) (x : Member),
          (l.step (.datagram source bs failure)).2.members[id]? = some x →
          l.members[id]? = some x ∨ x.connection.traffic = ⟨0, 0, 0, 0⟩)) ∧
    ∀ client listener token, (established client listener token).Accounts := by
  refine ⟨fun config maxBody token es => (Connection.fresh_create config maxBody token).counts es,
    fun client n c hc => ?_, fun c as => ⟨?_, fun source bs failure =>
      ⟨fun id hsource => ?_, fun hsource id x hx => ?_⟩⟩, fun client listener token => ?_⟩
  · have hfresh := Client.fresh_of_connect hc
    exact ⟨hfresh.traffic, hfresh.counts⟩
  · exact Listener.lived_follow c as
  · exact ((Listener.registers_create c).follow as).datagram hsource bs failure
  · rw [Listener.datagram_of_none hsource] at hx
    by_cases hid : id < ((Listener.create c).follow as).members.length
    · -- those that were there before are left alone
      have hold := Listener.members_echo hsource (List.getElem?_eq_getElem hid) bs failure
      exact .inl ((List.getElem?_eq_getElem hid).trans (hold.symm.trans hx))
    · exact .inr (Listener.traffic_echo (Nat.not_lt.1 hid) hx)
  · refine accounts_of_fresh (fun s => ?_) (fun s => ?_) fun s => ?_
    · cases s <;> exact Connection.fresh_create _ _ _
    · cases s <;> rfl
    · cases s <;> rfl

/-- The server reads five bytes of a frame of six, and a datagram comes. -/
def halfway : List Event :=
  [.start .client, .start .server, .send .client [1, 2] .reliable .sent,
    .send .client [9] .unreliable .sent, .write .client (.wrote 5), .read .server 4,
    .read .server 9, .arrive .server]

/-- It reads the rest. -/
def whole : List Event := halfway ++ [.write .client (.wrote 9), .read .server 9]

/-- When the frame has come as a whole, the counts of both ends agree. -/
theorem accounts_whole :
    ((narrow.run whole).conn .server).traffic.streamReceived =
      ((narrow.run whole).conn .client).traffic.streamSent ∧
    ((narrow.run whole).conn .server).traffic.datagramsReceived =
      ((narrow.run whole).conn .client).traffic.datagramsSent := by
  obtain ⟨-, -, -, haccounts⟩ := accounts_for_every_byte
  have h := haccounts nearClient narrowListener 7
  exact h.agree whole (by decide) (fun s => by cases s <;> decide) (fun s => by cases s <;> decide)
    (fun s => by cases s <;> decide) (fun s => by cases s <;> decide) .client

/-- What each end has received is what the other one has sent whenever both are connected, all that
was written has been read and no datagram was lost. -/
def Balances (l : Link) : Prop :=
  ∀ es, (l.run es).areConnected = true → (∀ s, ((l.run es).wires.get s).bytes = []) →
    (∀ s, (l.run es).air.get s = []) → (∀ s, .lose s ∉ es) → ∀ s,
    ((l.run es).conn s.other).traffic.streamReceived = ((l.run es).conn s).traffic.streamSent ∧
      ((l.run es).conn s.other).traffic.datagramsReceived =
        ((l.run es).conn s).traffic.datagramsSent

/-- **A frame that has come in part** is ahead of the sender's count. -/
theorem not_balances_halfway :
    ((narrow.run halfway).conn .server).traffic.streamReceived =
      ((narrow.run halfway).conn .client).traffic.streamSent + 5 ∧
    ¬ narrow.Balances := by
  refine ⟨by decide, fun hall => ?_⟩
  have h := (hall halfway (by decide) (fun s => by cases s <;> decide)
    (fun s => by cases s <;> decide) (fun s => by cases s <;> decide) .client).1
  exact absurd h (by decide)

end Link

end Tandem
