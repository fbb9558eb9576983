import Tandem.Proofs.Listener.Registry

/-!
# What comes of the echo of a pending token

Looked at as an echo, the token message of a pending token makes a connection of the stream and the
endpoint, whatever else is registered under the endpoint (`Registers.completed_echo`).  But
datagrams are sorted by their source first.  One from the endpoint of a registered connection never
gets that far: it is a message for this connection, the token stays pending and nobody is greeted.
So a correct echo completes its handshake exactly if no connection is registered for its source
(`completed_datagram_iff`); in `not_completed_reused` it does not.
-/

namespace Tandem

namespace Listener

variable {l : Listener} {t : Token} {entry : Pending.Entry} {source : Address} {id : MemberId}
  {x : Member}

/-- What completing a handshake comes to: the token is not pending any more, a connected connection
of its stream and the source is registered for the source and greeted, whoever was registered there
is disconnected, and no connection is passed a message. -/
structure Completed (l : Listener) (t : Token) (entry : Pending.Entry) (source : Address)
    (r : List Effect × Listener) : Prop where
  settled : r.2.pending.entries.get? t = none
  registered : ∃ id x, r.2.peers.get? source = some id ∧ r.2.members[id]? = some x ∧
    x.connection.state = .connected ∧ x.connection.token = t ∧ x.stream = entry.stream ∧
    x.endpoint = source
  greeted : .datagram source (Handshake.encodeHello t) ∈ r.1
  replaced : ∀ id x, l.peers.get? source = some id → r.2.members[id]? = some x →
    x.connection.state = .disconnected
  undelivered : ∀ (id : MemberId) (x : Member), r.2.members[id]? = some x →
    x.connection.dispatcher.inbox.items =
      (l.members[id]?.map fun y => y.connection.dispatcher.inbox.items).getD [] ∧
    x.connection.dispatcher.calls =
      (l.members[id]?.map fun y => y.connection.dispatcher.calls).getD []

/-! ### Enrolling -/

theorem members_enroll (l : Listener) (t : Token) (entry : Pending.Entry) (source : Address)
    (h : l.Registers none) (j : MemberId) :
    (l.enroll t entry source).2.members[j]? =
      if l.peers.get? source = some j then
        l.members[j]?.map fun y => y.step (.disconnect (.plain .success))
      else (l.members ++ [l.newcomer t entry source])[j]? := by
  cases hold : l.peers.get? source with
  | none =>
    rw [enroll_of_none hold, if_neg (Option.some_ne_none j).symm]
    rfl
  | some old =>
    rw [enroll_of_some hold, members_connection]
    simp only [Option.some.injEq, eq_comm (a := old)]
    split_ifs with hj
    · rw [hj]
      exact congrArg _ (List.getElem?_append_left (h.lt_length hold))
    · rfl

theorem peers_enroll (h : l.Registers none) :
    (l.enroll t entry source).2.peers.get? source = some l.members.length := by
  have henlisted : (l.enlist (l.newcomer t entry source)).peers.get? source =
      some l.members.length := Table.get?_set_self _ _ _
  cases hold : l.peers.get? source with
  | none =>
    rw [enroll_of_none hold]
    exact henlisted
  | some old =>
    -- the one that is disconnected stands before the new one
    rw [enroll_of_some hold]
    exact (get?_peers_connection _ _ _ _ _).2
      ⟨henlisted, fun hend => Nat.ne_of_gt (h.lt_length hold) hend.1⟩

theorem dispatcher_disconnect (c : Connection) (cause : Cause) :
    (c.step (.disconnect cause)).dispatcher.inbox.items = c.dispatcher.inbox.items ∧
      (c.step (.disconnect cause)).dispatcher.calls = c.dispatcher.calls := by
  rw [Connection.step, (c.disconnectWith_eq cause).2.2]
  split_ifs <;> exact ⟨rfl, rfl⟩

theorem state_disconnect {c : Connection} (h : c.isConnected = true) (cause : Cause) :
    (c.step (.disconnect cause)).state = .disconnected := by
  have hstate : c.state = .connected := of_decide_eq_true h
  rw [Connection.step, (c.disconnectWith_eq cause).2.1, hstate]
  rfl

/-- **Looked at as an echo**, the token message of a pending token completes the handshake. -/
theorem Registers.completed_echo (h : l.Registers none)
    (hpending : l.pending.entries.get? t = some entry) (source : Address) :
    Completed l t entry source (l.echo source (Handshake.encodeToken t) none) := by
  -- taking the stream out changes neither the connections nor the peer table
  have hwithout : (l.completing t).Registers none := h
  have hmembers (j : MemberId) : ((l.completing t).enroll t entry source).2.members[j]? =
      if l.peers.get? source = some j then
        l.members[j]?.map fun y => y.step (.disconnect (.plain .success))
      else (l.members ++ [l.newcomer t entry source])[j]? :=
    members_enroll (l.completing t) t entry source hwithout j
  have hpeers : ((l.completing t).enroll t entry source).2.peers.get? source =
      some l.members.length := peers_enroll hwithout
  have hnew : ((l.completing t).enroll t entry source).2.members[l.members.length]? =
      some (l.newcomer t entry source) := by
    rw [hmembers, if_neg fun hid => Nat.lt_irrefl _ (h.lt_length hid)]
    exact List.getElem?_concat_length
  rw [echo_of_greeted hpending]
  refine ⟨?_, ⟨l.members.length, _, hpeers, hnew, rfl, rfl, rfl, rfl⟩, ?_, ?_, ?_⟩
  · rw [pending_enroll]
    exact Table.get?_erase_self _ _
  · exact List.mem_append_right _ (List.mem_singleton_self _)
  · intro id x hid hx
    obtain ⟨-, y, hy, hconnected, -⟩ := (h source id).1 hid
    rw [hmembers, if_pos hid, hy] at hx
    obtain rfl := Option.some.inj hx
    exact state_disconnect hconnected _
  · intro id x hx
    rw [hmembers] at hx
    split_ifs at hx with hid
    · obtain ⟨y, hy, rfl⟩ := Option.map_eq_some_iff.1 hx
      rw [hy]
      exact dispatcher_disconnect y.connection _
    · rcases Nat.lt_or_ge id l.members.length with hid | hid
      · rw [List.getElem?_append_left hid] at hx
        rw [hx]
        exact ⟨rfl, rfl⟩
      · -- nothing has come for the new connection yet
        rw [List.getElem?_append_right hid, List.getElem?_singleton] at hx
        split_ifs at hx
        obtain rfl := Option.some.inj hx
        rw [List.getElem?_eq_none hid]
        exact ⟨rfl, rfl⟩

/-! ### Echoes among the datagrams -/

/-- **A correct echo completes its handshake exactly if** no connection is registered for its
source.  Otherwise it is a message for this connection, and nothing else happens: the token stays
pending, the peer table stays as it is and nobody is greeted. -/
theorem completed_datagram_iff (c : ListenerConfig) (as : List Act) {t : Token}
    {entry : Pending.Entry}
    (hpending : ((create c).follow as).pending.entries.get? t = some entry) (source : Address) :
    let l := (create c).follow as
    let r := l.step (.datagram source (Handshake.encodeToken t) none)
    (Completed l t entry source r ↔ l.peers.get? source = none) ∧
    (∀ id, l.peers.get? source = some id → ∃ x, l.members[id]? = some x ∧
      x.connection.state = .connected ∧ x.endpoint = source ∧
      r = ([], { l with
        members := l.members.set id
          { x with connection := x.connection.datagram (Handshake.encodeToken t) } })) ∧
    Completed l t entry source (l.echo source (Handshake.encodeToken t) none) := by
  intro l r
  have h : l.Registers none := (registers_create c).follow as
  refine ⟨⟨fun hcompleted => ?_, fun hsource => ?_⟩, fun id hid => ?_,
    h.completed_echo hpending source⟩
  · cases hsource : l.peers.get? source with
    | none => rfl
    | some id =>
      obtain ⟨x, -, hr⟩ := h.datagram hsource (Handshake.encodeToken t) none
      have hgreeted := hcompleted.greeted
      rw [show r.1 = [] from congrArg Prod.fst hr] at hgreeted
      cases hgreeted
  · rw [show r = _ from datagram_of_none hsource]
    exact h.completed_echo hpending source
  · obtain ⟨-, y, hy, hconnected, hy'⟩ := (h source id).1 hid
    obtain ⟨x, hx, hr⟩ := h.datagram hid (Handshake.encodeToken t) none
    obtain rfl := Option.some.inj (hy.symm.trans hx)
    exact ⟨y, hy, of_decide_eq_true hconnected, hy', hr⟩

/-- A client has echoed its token 1 from the port 7; another one, whose datagrams come from the same
port, was given the token 2. -/
def reused : Listener :=
  (create ⟨{}, [], 0, none, 65535, 100, .bichannel⟩).follow
    [.event (.accepted ⟨0, ⟨[10, 0, 0, 1], 4000⟩, 5⟩ [1]),
      .event (.datagram ⟨[10, 0, 0, 1], 7⟩ (Handshake.encodeToken 1) none),
      .event (.accepted ⟨1, ⟨[10, 0, 0, 1], 4001⟩, 9⟩ [2])]

/-- From another port, the second client would be heard. -/
theorem completed_reused :
    reused.pending.entries.get? 2 = some ⟨1, ⟨[10, 0, 0, 1], 4001⟩, 9⟩ ∧
      Completed reused 2 ⟨1, ⟨[10, 0, 0, 1], 4001⟩, 9⟩ ⟨[10, 0, 0, 1], 8⟩
        (reused.step (.datagram ⟨[10, 0, 0, 1], 8⟩ (Handshake.encodeToken 2) none)) :=
  have hpending : reused.pending.entries.get? 2 = some ⟨1, ⟨[10, 0, 0, 1], 4001⟩, 9⟩ := by decide
  ⟨hpending, (completed_datagram_iff _ _ hpending _).1.2 (by decide)⟩

/-- From the port of the first client it is not. -/
theorem not_completed_reused :
    reused.pending.entries.get? 2 = some ⟨1, ⟨[10, 0, 0, 1], 4001⟩, 9⟩ ∧
      ¬ Completed reused 2 ⟨1, ⟨[10, 0, 0, 1], 4001⟩, 9⟩ ⟨[10, 0, 0, 1], 7⟩
        (reused.step (.datagram ⟨[10, 0, 0, 1], 7⟩ (Handshake.encodeToken 2) none)) := by
  refine ⟨by decide, fun hcompleted => ?_⟩
  -- the token is pending as before
  have hsettled := hcompleted.settled
  revert hsettled
  decide

end Listener

end Tandem
