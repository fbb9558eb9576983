import Tandem.Proofs.Listener.Steps
import Mathlib.Data.List.Nodup

/-!
# The peer table has the connected peers

An endpoint is in the peer table with a connection exactly if the connection is connected and has
this endpoint (`Listener.Registers`).  An event of a connection can only end it, and then takes its
own entry out (`Registers.connection`).  Where a new connection takes the place of another one under
its endpoint, the old one is out of the table before it is disconnected (`Registers.enlist`); when
it then tries to take itself out, it finds the entry of its successor and leaves it.

`registers_peers` is the main statement.  It also holds if a datagram is looked at as an echo
although its endpoint has got a connection in the meantime (`Act.late`), as with two loops that
receive datagrams for one listener.
-/

namespace Tandem

namespace Listener

variable {l : Listener} {id : MemberId} {e : Connection.Event} {x : Member}

/-! ### The invariant -/

/-- The connections in the peer table are the connected ones, each under its endpoint, except for
one that is not in the table. -/
def Registers (l : Listener) (hidden : Option MemberId) : Prop :=
  ∀ a id, l.peers.get? a = some id ↔
    some id ≠ hidden ∧
      ∃ x, l.members[id]? = some x ∧ x.connection.isConnected = true ∧ x.endpoint = a

variable {hidden : Option MemberId}

theorem Registers.lt_length (h : l.Registers hidden) {a : Address}
    (hget : l.peers.get? a = some id) : id < l.members.length := by
  obtain ⟨-, x, hx, -⟩ := (h a id).1 hget
  exact (List.getElem?_eq_some_iff.1 hx).1

theorem Registers.connection (h : l.Registers hidden) (id : MemberId) (e : Connection.Event) :
    (l.step (.connection id e)).2.Registers hidden := by
  intro a j
  rw [get?_peers_connection, members_connection, h a j]
  by_cases hj : j = id
  · subst hj
    simp only [if_true, true_and, Option.map_eq_some_iff, not_exists, not_and]
    constructor
    · rintro ⟨⟨hhidden, x, hx, hconnected, ha⟩, hstays⟩
      refine ⟨hhidden, _, ⟨x, hx, rfl⟩, ?_, ha⟩
      exact Bool.of_not_eq_false (hstays x hx ha hconnected)
    · rintro ⟨hhidden, _, ⟨x, hx, rfl⟩, hconnected, ha⟩
      refine ⟨⟨hhidden, x, hx, Connection.isConnected_of_step hconnected, ha⟩, ?_⟩
      intro y hy _ _ hends
      obtain rfl := Option.some.inj (hx.symm.trans hy)
      exact Bool.false_ne_true (hends.symm.trans hconnected)
  · simp only [hj, if_false, false_and, not_false_eq_true, and_true]

theorem Registers.of_disconnected (h : l.Registers (some id))
    (hid : ∀ x, l.members[id]? = some x → x.connection.isConnected = false) :
    l.Registers none := by
  intro a j
  rw [h a j]
  refine ⟨fun hx => ⟨Option.some_ne_none _, hx.2⟩, ?_⟩
  rintro ⟨-, x, hx, hconnected, ha⟩
  refine ⟨fun hj => ?_, x, hx, hconnected, ha⟩
  obtain rfl := Option.some.inj hj
  exact Bool.false_ne_true ((hid x hx).symm.trans hconnected)

/-- **A new connection** takes the place of the one that was in the table under its endpoint. -/
theorem Registers.enlist (h : l.Registers none) (hx : x.connection.isConnected = true) :
    (l.enlist x).Registers (l.peers.get? x.endpoint) := by
  intro a j
  simp only [Listener.enlist, PeerTable.insert, Table.get?_set]
  rcases Nat.lt_trichotomy j l.members.length with hj | rfl | hj
  · rw [List.getElem?_append_left hj]
    split_ifs with ha
    · -- an older connection under this endpoint is the one that is replaced
      subst ha
      refine ⟨fun heq => absurd (Option.some.inj heq) (Nat.ne_of_gt hj), ?_⟩
      rintro ⟨hne, hy⟩
      exact absurd ((h _ j).2 ⟨Option.some_ne_none _, hy⟩).symm hne
    · refine ⟨fun hget => ⟨fun heq => ?_, ((h a j).1 hget).2⟩,
        fun hy => (h a j).2 ⟨Option.some_ne_none _, hy.2⟩⟩
      obtain ⟨-, y, hy, -, hya⟩ := (h a j).1 hget
      obtain ⟨-, z, hz, -, hzx⟩ := (h x.endpoint j).1 heq.symm
      obtain rfl := Option.some.inj (hy.symm.trans hz)
      exact ha (hya.symm.trans hzx)
  · rw [List.getElem?_append_right (Nat.le_refl _), Nat.sub_self, List.getElem?_cons_zero]
    have hnew : some l.members.length ≠ l.peers.get? x.endpoint := fun heq =>
      Nat.lt_irrefl _ (h.lt_length heq.symm)
    split_ifs with ha
    · exact ⟨fun _ => ⟨hnew, x, rfl, hx, ha.symm⟩, fun _ => rfl⟩
    · refine ⟨fun hget => absurd (h.lt_length hget) (Nat.lt_irrefl _), ?_⟩
      rintro ⟨-, y, hy, -, hya⟩
      obtain rfl := Option.some.inj hy
      exact absurd hya.symm ha
  · have hnone : (l.members ++ [x])[j]? = none := by
      rw [List.getElem?_eq_none_iff, List.length_append, List.length_singleton]
      exact hj
    rw [hnone]
    simp only [reduceCtorEq, false_and, exists_false, and_false, iff_false]
    split_ifs with ha
    · exact fun heq => Nat.ne_of_lt hj (Option.some.inj heq)
    · exact fun hget => Nat.lt_asymm hj (h.lt_length hget)

theorem isConnected_of_disconnect {cause : Cause}
    (hx : (l.step (.connection id (.disconnect cause))).2.members[id]? = some x) :
    x.connection.isConnected = false := by
  rw [members_connection, if_pos rfl] at hx
  obtain ⟨y, -, rfl⟩ := Option.map_eq_some_iff.1 hx
  exact y.connection.isConnected_disconnect cause

theorem Registers.enroll (h : l.Registers none) (t : Token) (entry : Pending.Entry)
    (source : Address) : (l.enroll t entry source).2.Registers none := by
  have henlist : (l.enlist (l.newcomer t entry source)).Registers (l.peers.get? source) :=
    h.enlist rfl
  cases hold : l.peers.get? source with
  | none =>
    rw [enroll_of_none hold]
    exact hold ▸ henlist
  | some old =>
    rw [enroll_of_some hold]
    rw [hold] at henlist
    exact (henlist.connection old _).of_disconnected fun x => isConnected_of_disconnect

theorem Registers.echo (h : l.Registers none) (source : Address) (bs : Bytes)
    (failure : Option Fault) : (l.echo source bs failure).2.Registers none := by
  rcases l.echo_cases source bs failure with hnothing | ⟨t, entry, -, -, hecho⟩
  · rw [hnothing]
    exact h
  · have henroll : ((l.completing t).enroll t entry source).2.Registers none :=
      Registers.enroll (show (l.completing t).Registers none from h) t entry source
    rcases hecho with hecho | ⟨cause, hecho⟩
    · rw [hecho]
      exact henroll
    · rw [hecho]
      exact henroll.connection _ _

theorem Registers.disconnectAll (h : l.Registers none) (ids : List MemberId) :
    (l.disconnectAll ids).2.Registers none := by
  induction ids generalizing l with
  | nil => exact h
  | cons id ids ih =>
    rw [disconnectAll_cons]
    exact ih (h.connection id _)

/-- **Every step** keeps the table right. -/
theorem Registers.step (h : l.Registers none) (ev : Event) : (l.step ev).2.Registers none := by
  cases ev with
  | accepted entry draws =>
    simp only [Listener.step, accept]
    split <;> exact h
  | tokenFailed t => exact h
  | expired t => exact h
  | connection id e => exact h.connection id e
  | datagram source bs failure =>
    cases hget : l.peers.get? source with
    | none =>
      rw [datagram_of_none hget]
      exact h.echo source bs failure
    | some id =>
      rw [datagram_of_some hget]
      exact h.connection id _
  | shutdown =>
    rw [shutdown_eq]
    have hcleared : { l with pending := { l.pending with entries := .empty } }.Registers none := h
    exact hcleared.disconnectAll _

theorem registers_create (c : ListenerConfig) : (create c).Registers none := by
  intro a id
  simp [create]

/-! ### What the invariant says -/

theorem Registers.get?_peers (h : l.Registers none) (hx : l.members[id]? = some x)
    (hconnected : x.connection.isConnected = true) : l.peers.get? x.endpoint = some id :=
  (h x.endpoint id).2 ⟨Option.some_ne_none id, x, hx, hconnected, rfl⟩

/-- **The table has as many entries** as there are connected connections. -/
theorem Registers.connectionCount_eq (h : l.Registers none) :
    l.connectionCount = l.members.countP fun x => x.connection.isConnected := by
  have hvalues : l.peers.values.Nodup := by
    refine List.Nodup.map_on (fun p hp q hq heq => ?_) l.peers.nodup_keys.of_map
    -- two entries with the same connection have the same endpoint
    obtain ⟨-, x, hx, -, hxa⟩ :=
      (h p.1 p.2).1 ((Table.get?_eq_some_iff_mem l.peers p.1 p.2).2 hp)
    obtain ⟨-, y, hy, -, hya⟩ :=
      (h q.1 q.2).1 ((Table.get?_eq_some_iff_mem l.peers q.1 q.2).2 hq)
    rw [← heq, hx] at hy
    obtain rfl := Option.some.inj hy
    exact Prod.ext (hxa.symm.trans hya) heq
  have hconnected : ((l.members.zipIdx.filter fun p => p.1.connection.isConnected).map
      Prod.snd).Nodup := by
    refine (List.filter_sublist.map Prod.snd).nodup ?_
    rw [List.zipIdx_map_snd]
    exact List.nodup_range'
  have hperm : l.peers.values.Perm
      ((l.members.zipIdx.filter fun p => p.1.connection.isConnected).map Prod.snd) := by
    refine (List.perm_ext_iff_of_nodup hvalues hconnected).2 fun id => ?_
    rw [Table.mem_values_iff]
    simp only [List.mem_map, List.mem_filter, Prod.exists, exists_eq_right,
      List.mk_mem_zipIdx_iff_getElem?]
    constructor
    · rintro ⟨a, hget⟩
      obtain ⟨-, x, hx, hconnected, -⟩ := (h a id).1 hget
      exact ⟨x, hx, hconnected⟩
    · rintro ⟨x, hx, hconnected⟩
      exact ⟨x.endpoint, h.get?_peers hx hconnected⟩
  calc l.connectionCount = l.peers.values.length := (List.length_map _).symm
    _ = (l.members.zipIdx.filter fun p => p.1.connection.isConnected).length := by
      rw [hperm.length_eq, List.length_map]
    _ = l.members.zipIdx.countP fun p => p.1.connection.isConnected :=
      List.countP_eq_length_filter.symm
    _ = (l.members.zipIdx.map Prod.fst).countP fun x => x.connection.isConnected := by
      rw [List.countP_map]
      rfl
    _ = l.members.countP fun x => x.connection.isConnected := by rw [List.zipIdx_map_fst]

theorem pending_disconnectAll (l : Listener) (ids : List MemberId) :
    (l.disconnectAll ids).2.pending = l.pending := by
  induction ids generalizing l with
  | nil => rfl
  | cons id ids ih => rw [disconnectAll_cons, ih, pending_connection]

theorem notMem_of_disconnectAll {ids : List MemberId}
    (hx : (l.disconnectAll ids).2.members[id]? = some x)
    (hconnected : x.connection.isConnected = true) :
    id ∉ ids ∧ ∃ y, l.members[id]? = some y ∧ y.connection.isConnected = true := by
  induction ids generalizing l with
  | nil => exact ⟨List.not_mem_nil, x, hx, hconnected⟩
  | cons i ids ih =>
    rw [disconnectAll_cons] at hx
    obtain ⟨hids, y, hy, hyconnected⟩ := ih hx
    by_cases hi : id = i
    · subst hi
      exact absurd hyconnected (by rw [isConnected_of_disconnect hy]; exact Bool.false_ne_true)
    · rw [members_connection, if_neg hi] at hy
      exact ⟨List.not_mem_cons_of_ne_of_not_mem hi hids, y, hy, hyconnected⟩

/-- **After a shutdown** no stream waits, nobody is registered and nobody is connected. -/
theorem Registers.shutdown (h : l.Registers none) :
    (l.step .shutdown).2.pending.size = 0 ∧ (l.step .shutdown).2.connectionCount = 0 ∧
      ∀ x ∈ (l.step .shutdown).2.members, x.connection.isConnected = false := by
  have hnobody : ∀ x ∈ (l.step .shutdown).2.members, x.connection.isConnected = false := by
    intro x hx
    obtain ⟨id, hid⟩ := List.mem_iff_getElem?.1 hx
    rw [shutdown_eq] at hid
    refine Bool.not_eq_true _ |>.mp fun hconnected => ?_
    -- who is connected in the end was so in the beginning, and was registered
    obtain ⟨hlisted, y, hy, hyconnected⟩ := notMem_of_disconnectAll hid hconnected
    exact hlisted ((Table.mem_values_iff _ _).2 ⟨y.endpoint, h.get?_peers hy hyconnected⟩)
  refine ⟨?_, ?_, hnobody⟩
  · rw [shutdown_eq, pending_disconnectAll]
    rfl
  · rw [(h.step .shutdown).connectionCount_eq, List.countP_eq_zero]
    exact fun x hx => by rw [hnobody x hx]; exact Bool.false_ne_true

/-- **A datagram of a registered peer** is for its connection and changes nothing else. -/
theorem Registers.datagram (h : l.Registers none) {source : Address}
    (hsource : l.peers.get? source = some id) (bs : Bytes) (failure : Option Fault) :
    ∃ x, l.members[id]? = some x ∧ l.step (.datagram source bs failure) = ([], { l with
      members := l.members.set id { x with connection := x.connection.datagram bs } }) := by
  obtain ⟨-, x, hx, -, -⟩ := (h source id).1 hsource
  refine ⟨x, hx, ?_⟩
  -- a datagram does not end the connection
  have hstays : (x.step (.datagram bs)).connection.isConnected = x.connection.isConnected := rfl
  rw [datagram_of_some hsource, connection_of_some hx, hstays, Bool.and_not_self,
    if_neg Bool.false_ne_true]
  rfl

theorem members_echo {source : Address} (hsource : l.peers.get? source = none)
    (hx : l.members[id]? = some x) (bs : Bytes) (failure : Option Fault) :
    (l.echo source bs failure).2.members[id]? = some x := by
  have hlt : id < l.members.length := (List.getElem?_eq_some_iff.1 hx).1
  rcases l.echo_cases source bs failure with hnothing | ⟨t, entry, -, -, hecho⟩
  · rw [hnothing]
    exact hx
  · have henlisted : ((l.completing t).enroll t entry source).2.members[id]? = some x := by
      rw [enroll_of_none (show (l.completing t).peers.get? source = none from hsource)]
      exact (List.getElem?_append_left hlt).trans hx
    rcases hecho with hecho | ⟨cause, hecho⟩
    · rw [hecho]
      exact henlisted
    · rw [hecho, members_connection, if_neg (Nat.ne_of_lt hlt)]
      exact henlisted

/-! ### Every course of events -/

/-- What can happen to a listener next. -/
inductive Act where
  | event (e : Event)
  /-- a datagram is looked at as an echo, whether or not its endpoint has got a connection since it
  was looked up -/
  | late (source : Address) (bs : Bytes) (failure : Option Fault)
  deriving DecidableEq, Repr

/-- The effects of an act and what becomes of the listener. -/
def act (l : Listener) : Act → List Effect × Listener
  | .event e => l.step e
  | .late source bs failure => l.echo source bs failure

/-- What becomes of a listener by acts, one after the other. -/
def follow (l : Listener) (as : List Act) : Listener := as.foldl (fun l a => (l.act a).2) l

theorem Registers.follow (h : l.Registers none) (as : List Act) :
    (l.follow as).Registers none := by
  induction as generalizing l with
  | nil => exact h
  | cons a as ih =>
    cases a with
    | event e => exact ih (h.step e)
    | late source bs failure => exact ih (h.echo source bs failure)

/-- **The peer table is the set of connected peers**, whatever has happened.  An endpoint is in it
with a connection exactly if this is connected and has the endpoint; so there is one at most, and
the number of entries is the number of connected connections.  What happens to a connection removes
no entry but its own.  A datagram changes the connection that is registered for its source, and none
that exists if there is no such connection.  A shutdown leaves nobody. -/
theorem registers_peers (c : ListenerConfig) (as : List Act) :
    let l := (create c).follow as
    (∀ (a : Address) (id : MemberId), l.peers.get? a = some id ↔
      ∃ x, l.members[id]? = some x ∧ x.connection.state = .connected ∧ x.endpoint = a) ∧
    (∀ (id id' : MemberId) (x x' : Member), l.members[id]? = some x → l.members[id']? = some x' →
      x.connection.state = .connected → x'.connection.state = .connected →
      x.endpoint = x'.endpoint → id = id') ∧
    l.connectionCount = l.members.countP (fun x => x.connection.state = .connected) ∧
    (∀ (id : MemberId) (e : Connection.Event) (a : Address) (id' : MemberId),
      l.peers.get? a = some id' → id' ≠ id →
      (l.step (.connection id e)).2.peers.get? a = some id') ∧
    (∀ (source : Address) (bs : Bytes) (failure : Option Fault),
      (∀ id, l.peers.get? source = some id →
        ∃ x, l.members[id]? = some x ∧ l.step (.datagram source bs failure) = ([], { l with
          members := l.members.set id { x with connection := x.connection.datagram bs } })) ∧
      (l.peers.get? source = none → ∀ (id : MemberId) (x : Member), l.members[id]? = some x →
        (l.step (.datagram source bs failure)).2.members[id]? = some x)) ∧
    (l.step .shutdown).2.pending.size = 0 ∧ (l.step .shutdown).2.connectionCount = 0 ∧
    ∀ x ∈ (l.step .shutdown).2.members, x.connection.state ≠ .connected := by
  intro l
  have h : l.Registers none := (registers_create c).follow as
  have hstate (x : Member) : x.connection.isConnected = true ↔ x.connection.state = .connected :=
    decide_eq_true_iff
  obtain ⟨hpending, hcount, hnobody⟩ := h.shutdown
  refine ⟨fun a id => ?_, fun id id' x x' hx hx' hc hc' heq => ?_, h.connectionCount_eq,
    fun id e a id' hget hne => ?_, fun source bs failure =>
      ⟨fun id hsource => h.datagram hsource bs failure, fun hsource id x hx => ?_⟩,
    hpending, hcount, fun x hx hc => ?_⟩
  · rw [h a id]
    simp only [ne_eq, reduceCtorEq, not_false_eq_true, true_and, hstate]
  · have hget := h.get?_peers hx ((hstate x).2 hc)
    rw [heq, h.get?_peers hx' ((hstate x').2 hc')] at hget
    exact (Option.some.inj hget).symm
  · exact (get?_peers_connection l id e a id').2 ⟨hget, fun hend => hne hend.1⟩
  · rw [datagram_of_none hsource]
    exact members_echo hsource hx bs failure
  · exact Bool.false_ne_true ((hnobody x hx).symm.trans ((hstate x).2 hc))

end Listener

end Tandem
