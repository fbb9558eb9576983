import Tandem.Listener.Basic
import Tandem.Proofs.Connection.Course
import Tandem.Proofs.Handshake
import Mathlib.Tactic.SplitIfs

/-!
# What a step does to a listener

Whatever happens to a connection of a listener is an event of this connection
(`members_connection`); it leaves the streams that wait alone and takes at most its own entry out of
the peer table (`get?_peers_connection`).  The other steps are put together from such events: an
echo enlists a new connection and then disconnects the one that it replaces, if there is one
(`enroll_of_none`, `enroll_of_some`), and a shutdown disconnects one connection after the other
(`shutdown_eq`).
-/

namespace Tandem

theorem PeerTable.get?_remove (p : PeerTable) (a b : Address) (c : MemberId) :
    (p.remove a c).2.get? b = if b = a ∧ p.get? a = some c then none else p.get? b := by
  unfold PeerTable.remove
  split_ifs with h hb hb
  · rw [hb.1, Table.get?_erase_self]
  · exact Table.get?_erase_of_ne p fun hba => hb ⟨hba, h⟩
  · exact absurd hb.2 h
  · rfl

theorem Connection.isConnected_of_step {c : Connection} {e : Event}
    (h : (c.step e).isConnected = true) : c.isConnected = true := by
  rw [isConnected, c.state_step e] at h
  split_ifs at h
  · cases h
  · exact h

theorem Connection.isConnected_disconnect (c : Connection) (cause : Cause) :
    (c.step (.disconnect cause)).isConnected = false := by
  rw [isConnected, step, (c.disconnectWith_eq cause).2.1]
  cases hs : c.state <;> rfl

/-- What becomes of a connection of a listener by an event. -/
def Member.step (x : Member) (e : Connection.Event) : Member :=
  { x with connection := x.connection.step e }

namespace Listener

variable {l : Listener} {id : MemberId} {e : Connection.Event} {x : Member}

/-! ### Events of a connection -/

theorem connection_of_none (h : l.members[id]? = none) :
    l.step (.connection id e) = ([], l) := by
  simp only [step, modify, h]

theorem connection_of_some (h : l.members[id]? = some x) :
    l.step (.connection id e) =
      if x.connection.isConnected && !(x.step e).connection.isConnected then
        ([.close x.stream], { l with
          members := l.members.set id (x.step e), peers := (l.peers.remove x.endpoint id).2 })
      else ([], { l with members := l.members.set id (x.step e) }) := by
  simp only [step, modify, h]
  rfl

@[simp] theorem pending_connection (l : Listener) (id : MemberId) (e : Connection.Event) :
    (l.step (.connection id e)).2.pending = l.pending := by
  cases h : l.members[id]? with
  | none => rw [connection_of_none h]
  | some x =>
    rw [connection_of_some h]
    split_ifs <;> rfl

/-- **Of all connections**, the event changes the one that it happens to. -/
theorem members_connection (l : Listener) (id : MemberId) (e : Connection.Event) (j : MemberId) :
    (l.step (.connection id e)).2.members[j]? =
      if j = id then l.members[j]?.map fun x => x.step e else l.members[j]? := by
  cases h : l.members[id]? with
  | none =>
    rw [connection_of_none h]
    split_ifs with hj
    · rw [hj, h, Option.map_none]
    · rfl
  | some x =>
    have hmembers : (l.step (.connection id e)).2.members = l.members.set id (x.step e) := by
      rw [connection_of_some h]
      split_ifs <;> rfl
    rw [hmembers]
    split_ifs with hj
    · rw [hj, h, Option.map_some, List.getElem?_set_self (List.getElem?_eq_some_iff.1 h).1]
    · exact List.getElem?_set_ne fun hid => hj hid.symm

/-- **An entry goes** exactly if its own connection is ended by the event. -/
theorem get?_peers_connection (l : Listener) (id : MemberId) (e : Connection.Event) (a : Address)
    (j : MemberId) : (l.step (.connection id e)).2.peers.get? a = some j ↔
      l.peers.get? a = some j ∧ ¬ (j = id ∧ ∃ x, l.members[id]? = some x ∧ x.endpoint = a ∧
        x.connection.isConnected = true ∧ (x.connection.step e).isConnected = false) := by
  cases h : l.members[id]? with
  | none => simp [connection_of_none h]
  | some x =>
    have hstep : (x.step e).connection = x.connection.step e := rfl
    rw [connection_of_some h, hstep]
    cases hbefore : x.connection.isConnected <;> cases hafter : (x.connection.step e).isConnected
    · simp [hbefore]
    · simp [hbefore]
    · -- the connection ends and takes its entry out, if it has one
      simp only [Bool.not_false, Bool.and_true, if_true, PeerTable.get?_remove, Option.some.injEq,
        exists_eq_left', hbefore, hafter, and_true]
      split_ifs with ha
      · rw [ha.1, ha.2]
        simp only [Option.some.injEq, and_true, false_iff, not_and, not_not]
        exact fun hid => hid.symm
      · refine ⟨fun hget => ⟨hget, ?_⟩, And.left⟩
        rintro ⟨hid, hend⟩
        exact ha ⟨hend.symm, by rw [hend, hget, hid]⟩
    · simp [hafter]

/-! ### Enlisting a connection -/

/-- The connection that the echo of a token makes of the stream that waits under it. -/
def newcomer (l : Listener) (t : Token) (e : Pending.Entry) (endpoint : Address) : Member :=
  ⟨Connection.create l.config.toEndpointConfig (some l.config.maxBodyLength) t, e.stream, e.address,
    endpoint⟩

/-- Puts a connection into the peer table, in place of what is there under its endpoint. -/
def enlist (l : Listener) (x : Member) : Listener :=
  { l with
    peers := (PeerTable.insert l.peers x.endpoint l.members.length).2
    members := l.members ++ [x] }

variable {t : Token} {entry : Pending.Entry} {source : Address} {bs : Bytes}
  {failure : Option Fault}

theorem enroll_of_none (h : l.peers.get? source = none) :
    l.enroll t entry source = ([], l.enlist (l.newcomer t entry source)) := by
  simp only [enroll, PeerTable.insert, h]
  rfl

theorem enroll_of_some {old : MemberId} (h : l.peers.get? source = some old) :
    l.enroll t entry source = (l.enlist (l.newcomer t entry source)).step
      (.connection old (.disconnect (.plain .success))) := by
  simp only [enroll, PeerTable.insert, h]
  rfl

@[simp] theorem pending_enroll (l : Listener) (t : Token) (entry : Pending.Entry)
    (source : Address) : (l.enroll t entry source).2.pending = l.pending := by
  cases hold : l.peers.get? source with
  | none => rw [enroll_of_none hold]; rfl
  | some old => rw [enroll_of_some hold, pending_connection]; rfl

theorem echo_of_stranger (h : ∀ t e, l.pending.entries.get? t = some e →
    bs ≠ Handshake.encodeToken t) : l.echo source bs failure = ([], l) := by
  unfold echo
  cases htoken : Handshake.tokenOfDatagram? bs with
  | none => rfl
  | some t =>
    have hbs := Handshake.tokenOfDatagram?_eq_some_iff.1 htoken
    cases hget : l.pending.entries.get? t with
    | none => simp only [Pending.complete, hget]
    | some e => exact absurd hbs (h t e hget)

/-- The listener without the stream that waits under a token. -/
def completing (l : Listener) (t : Token) : Listener :=
  { l with pending := { l.pending with entries := l.pending.entries.erase t } }

/-- **The echo of a pending token** enlists a connection and greets it. -/
theorem echo_of_greeted (h : l.pending.entries.get? t = some entry) (source : Address) :
    l.echo source (Handshake.encodeToken t) none =
      (((l.completing t).enroll t entry source).1 ++ [.datagram source (Handshake.encodeHello t)],
        ((l.completing t).enroll t entry source).2) := by
  simp only [echo, Handshake.tokenOfDatagram?_encodeToken, Pending.complete, h]
  rfl

/-- **Whatever is looked at as an echo** comes to nothing, or enlists a connection, which ends again
where it cannot be greeted. -/
theorem echo_cases (l : Listener) (source : Address) (bs : Bytes) (failure : Option Fault) :
    l.echo source bs failure = ([], l) ∨
      ∃ t entry, l.pending.entries.get? t = some entry ∧ bs = Handshake.encodeToken t ∧
        ((l.echo source bs failure).2 = ((l.completing t).enroll t entry source).2 ∨
          ∃ cause, (l.echo source bs failure).2 = (((l.completing t).enroll t entry source).2.step
            (.connection l.members.length (.disconnect cause))).2) := by
  by_cases hpending : ∃ t entry, l.pending.entries.get? t = some entry ∧
      bs = Handshake.encodeToken t
  · obtain ⟨t, entry, hget, rfl⟩ := hpending
    refine .inr ⟨t, entry, hget, rfl, ?_⟩
    simp only [echo, Handshake.tokenOfDatagram?_encodeToken, Pending.complete, hget]
    cases failure with
    | none => exact .inl rfl
    | some f => exact .inr ⟨.ofFault f, rfl⟩
  · exact .inl (echo_of_stranger fun t entry hget hbs => hpending ⟨t, entry, hget, hbs⟩)

theorem datagram_of_some (h : l.peers.get? source = some id) :
    l.step (.datagram source bs failure) = l.step (.connection id (.datagram bs)) := by
  simp only [step, datagram, h]
  rfl

theorem datagram_of_none (h : l.peers.get? source = none) :
    l.step (.datagram source bs failure) = l.echo source bs failure := by
  simp only [step, datagram, h]

/-! ### Shutting down -/

theorem disconnectAll_cons (l : Listener) (id : MemberId) (ids : List MemberId) :
    (l.disconnectAll (id :: ids)).2 =
      ((l.step (.connection id (.disconnect (.plain .success)))).2.disconnectAll ids).2 := rfl

theorem shutdown_eq (l : Listener) :
    (l.step .shutdown).2 =
      ({ l with pending := { l.pending with entries := .empty } }.disconnectAll l.connections).2 :=
  rfl

end Listener

end Tandem
