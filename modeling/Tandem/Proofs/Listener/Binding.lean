import Tandem.Proofs.Listener.Pending
import Tandem.Proofs.Listener.Registry
import Mathlib.Data.List.Perm.Subperm

/-!
# What a handshake binds

A connection of a listener keeps the token, the stream and the endpoint that it was made with, its
*binding*.  Only two steps have to do with bindings (`turn`): a stream that is accepted begins to
wait under a token, and the echo of this token, from an endpoint without a connection, makes the
connection of the stream and the endpoint.  So every connection can be traced back to two events of
the run (`Origin`).  Between the two the stream waits, and after the second one it does not, which
is why nothing is bound twice.
-/

namespace Tandem

/-- What a connection of a listener keeps all its life. -/
structure Binding where
  token : Token
  stream : StreamId
  /-- where the stream comes from -/
  address : Address
  /-- where datagrams go to and come from -/
  endpoint : Address
  deriving DecidableEq, Repr

def Member.binding (x : Member) : Binding :=
  ⟨x.connection.token, x.stream, x.address, x.endpoint⟩

@[simp] theorem Member.binding_step (x : Member) (e : Connection.Event) :
    (x.step e).binding = x.binding :=
  congrArg (Binding.mk · x.stream x.address x.endpoint) (x.connection.fixed_step e).1

namespace Listener

/-- The bindings of all connections, oldest first. -/
def bindings (l : Listener) : List Binding := l.members.map Member.binding

variable {l : Listener} {t : Token} {entry : Pending.Entry} {source : Address} {ev : Event}
  {r : List Effect × Listener}

/-! ### One step -/

@[simp] theorem bindings_connection (l : Listener) (id : MemberId) (e : Connection.Event) :
    (l.step (.connection id e)).2.bindings = l.bindings := by
  refine List.ext_getElem? fun j => ?_
  simp only [bindings, List.getElem?_map, members_connection]
  split_ifs
  · cases l.members[j]? with
    | none => rfl
    | some x => exact congrArg some (x.binding_step e)
  · rfl

theorem bindings_disconnectAll (l : Listener) (ids : List MemberId) :
    (l.disconnectAll ids).2.bindings = l.bindings := by
  induction ids generalizing l with
  | nil => rfl
  | cons id ids ih => rw [disconnectAll_cons, ih, bindings_connection]

theorem bindings_enlist (l : Listener) (x : Member) :
    (l.enlist x).bindings = l.bindings ++ [x.binding] := List.map_append

theorem bindings_enroll (l : Listener) (t : Token) (entry : Pending.Entry)
    (h : l.peers.get? source = none) : (l.enroll t entry source).2.bindings =
      l.bindings ++ [⟨t, entry.stream, entry.address, source⟩] := by
  rw [enroll_of_none h]
  exact l.bindings_enlist _

/-- What a step means for bindings. -/
inductive Turn (l : Listener) : Event → List Effect × Listener → Prop
  /-- a stream begins to wait -/
  | waits {t : Token} {entry : Pending.Entry} {draws : List Token}
      (hunused : l.pending.entries.get? t = none) :
      Turn l (.accepted entry draws) ([.startSending entry.stream (Handshake.encodeToken t)],
        { l with pending := { l.pending with entries := l.pending.entries.set t entry } })
  /-- the echo of a token makes a connection -/
  | binds {t : Token} {entry : Pending.Entry} {source : Address} {failure : Option Fault}
      {r : List Effect × Listener} (hwaits : l.pending.entries.get? t = some entry)
      (hsource : l.peers.get? source = none)
      (hpending : r.2.pending = (l.completing t).pending)
      (hbindings : r.2.bindings = l.bindings ++ [⟨t, entry.stream, entry.address, source⟩]) :
      Turn l (.datagram source (Handshake.encodeToken t) failure) r
  /-- streams may cease to wait -/
  | keeps {ev : Event} {r : List Effect × Listener}
      (hpending : r.2.pending.entries.entries.Sublist l.pending.entries.entries)
      (hbindings : r.2.bindings = l.bindings) : Turn l ev r

theorem turn_accepted (l : Listener) (entry : Pending.Entry) (draws : List Token) :
    l.Turn (.accepted entry draws) (l.step (.accepted entry draws)) := by
  simp only [step, accept, Pending.register]
  cases hfresh : l.pending.fresh? draws with
  | none => exact .keeps (List.Sublist.refl _) rfl
  | some t => exact .waits (Pending.fresh?_eq_some hfresh).2

theorem turn_giveUp {o : Option StreamId} {p : Pending}
    (h : p.entries = l.pending.entries.erase t) : l.Turn ev (l.giveUp (o, p)) := by
  refine .keeps ?_ rfl
  rw [show (l.giveUp (o, p)).2.pending.entries = _ from h]
  exact List.filter_sublist

theorem turn_echo (h : l.peers.get? source = none) (bs : Bytes) (failure : Option Fault) :
    l.Turn (.datagram source bs failure) (l.echo source bs failure) := by
  rcases l.echo_cases source bs failure with hnothing | ⟨t, entry, hwaits, rfl, hecho⟩
  · rw [hnothing]
    exact .keeps (List.Sublist.refl _) rfl
  · have hbindings := bindings_enroll (l.completing t) t entry h
    rcases hecho with hecho | ⟨cause, hecho⟩
    · refine .binds hwaits h ?_ ?_
      · rw [hecho, pending_enroll]
      · rw [hecho]
        exact hbindings
    · -- that the connection ends again does not unbind it
      refine .binds hwaits h ?_ ?_
      · rw [hecho, pending_connection, pending_enroll]
      · rw [hecho, bindings_connection]
        exact hbindings

/-- **Every step** is of one of the three kinds. -/
theorem turn (l : Listener) (ev : Event) : l.Turn ev (l.step ev) := by
  cases ev with
  | accepted entry draws => exact l.turn_accepted entry draws
  | tokenFailed t => exact turn_giveUp (l.pending.entries_abandon t)
  | expired t => exact turn_giveUp (l.pending.entries_expire t)
  | datagram source bs failure =>
    cases hsource : l.peers.get? source with
    | none =>
      rw [datagram_of_none hsource]
      exact turn_echo hsource bs failure
    | some id =>
      rw [datagram_of_some hsource]
      refine .keeps ?_ (l.bindings_connection id _)
      rw [pending_connection]
  | connection id e =>
    refine .keeps ?_ (l.bindings_connection id e)
    rw [pending_connection]
  | shutdown =>
    refine .keeps ?_ ?_
    · rw [shutdown_eq, pending_disconnectAll]
      exact List.nil_sublist _
    · rw [shutdown_eq, bindings_disconnectAll]
      rfl

theorem Turn.waits_of_waits (h : l.Turn ev r) (hget : r.2.pending.entries.get? t = some entry) :
    l.pending.entries.get? t = some entry ∨
      l.pending.entries.get? t = none ∧ (∃ draws, ev = .accepted entry draws) ∧
        r.1 = [.startSending entry.stream (Handshake.encodeToken t)] := by
  cases h with
  | @waits t' entry' draws hunused =>
    rw [Table.get?_set] at hget
    split_ifs at hget with ht
    · obtain rfl := Option.some.inj hget
      subst ht
      exact .inr ⟨hunused, ⟨draws, rfl⟩, rfl⟩
    · exact .inl hget
  | @binds t' _ _ _ _ _ _ hpending _ =>
    rw [hpending] at hget
    simp only [completing, Table.get?_erase] at hget
    split_ifs at hget
    exact .inl hget
  | keeps hpending _ =>
    refine .inl ((Table.get?_eq_some_iff_mem _ _ _).2 (hpending.subset ?_))
    exact (Table.get?_eq_some_iff_mem _ _ _).1 hget

theorem Turn.bound_of_bound {id : Nat} {b : Binding} (h : l.Turn ev r)
    (hget : r.2.bindings[id]? = some b) : l.bindings[id]? = some b ∨
      l.bindings.length = id ∧ (∃ failure, ev = .datagram b.endpoint
        (Handshake.encodeToken b.token) failure) ∧ l.peers.get? b.endpoint = none ∧
      (∃ entry, l.pending.entries.get? b.token = some entry ∧ b.stream = entry.stream ∧
        b.address = entry.address) ∧ r.2.pending.entries.get? b.token = none := by
  cases h with
  | waits _ => exact .inl hget
  | @binds t entry source failure _ hwaits hsource hpending hbindings =>
    rw [hbindings] at hget
    rcases Nat.lt_trichotomy id l.bindings.length with hid | rfl | hid
    · rw [List.getElem?_append_left hid] at hget
      exact .inl hget
    · rw [List.getElem?_concat_length] at hget
      obtain rfl := Option.some.inj hget
      refine .inr ⟨rfl, ⟨failure, rfl⟩, hsource, ⟨entry, hwaits, rfl, rfl⟩, ?_⟩
      rw [hpending]
      exact Table.get?_erase_self _ _
    · rw [List.getElem?_eq_none (by rwa [List.length_append])] at hget
      cases hget
  | keeps _ hbindings => exact .inl (hbindings ▸ hget)

/-! ### Streams -/

/-- The stream that is accepted. -/
def Event.stream? : Event → Option StreamId
  | .accepted entry _ => some entry.stream
  | _ => none

/-- The streams of all connections and of those that wait. -/
def streams (l : Listener) : List StreamId :=
  l.bindings.map Binding.stream ++ l.pending.entries.values.map Pending.Entry.stream

/-- **Streams** come from nowhere but accepting, and none is there twice. -/
theorem Turn.streams_subperm (h : l.Turn ev r) :
    r.2.streams.Subperm (l.streams ++ ev.stream?.toList) := by
  cases h with
  | @waits t entry draws hunused =>
    refine List.Perm.subperm ?_
    simp only [streams, bindings, Table.values, Table.set, Table.erase_of_get?_none hunused]
    exact (List.perm_append_comm.trans ((List.perm_append_comm).cons _)).trans
      (List.perm_append_singleton _ _).symm
  | @binds t entry source failure _ hwaits _ hpending hbindings =>
    -- the stream goes over from those that wait to the connections
    have hwaiting := (Table.values_perm hwaits).map Pending.Entry.stream
    refine List.Perm.subperm ?_
    rw [streams, hbindings, hpending, List.map_append, List.append_assoc]
    exact (hwaiting.symm.append_left _).trans (List.Perm.of_eq (List.append_nil _).symm)
  | keeps hpending hbindings =>
    refine List.Sublist.subperm ?_
    rw [streams, hbindings]
    refine List.Sublist.trans ?_ (List.sublist_append_left _ _)
    exact ((hpending.map Prod.snd).map Pending.Entry.stream).append_left _

/-! ### Runs -/

theorem run_concat (l : Listener) (es : List Event) (ev : Event) :
    (l.run (es ++ [ev])).2 = ((l.run es).2.step ev).2 := by
  induction es generalizing l with
  | nil => rfl
  | cons e es ih => exact ih (l.step e).2

/-- What has become of a new listener after the first `k` events. -/
def after (c : ListenerConfig) (es : List Event) (k : Nat) : Listener :=
  ((create c).run (es.take k)).2

variable {c : ListenerConfig} {es : List Event} {i j k : Nat}

theorem after_succ (h : es[k]? = some ev) :
    after c es (k + 1) = ((after c es k).step ev).2 := by
  rw [after, List.take_add_one, h, Option.toList_some, run_concat]
  rfl

/-- From the `i`-th event on, which has accepted it and started to send the token over it, a stream
waits under a token until the `j`-th event. -/
structure Waits (c : ListenerConfig) (es : List Event) (t : Token) (entry : Pending.Entry)
    (i j : Nat) : Prop where
  accepted : ∃ draws, es[i]? = some (.accepted entry draws) ∧
    ((after c es i).step (.accepted entry draws)).1 =
      [.startSending entry.stream (Handshake.encodeToken t)]
  unused : (after c es i).pending.entries.get? t = none
  before : i < j
  waiting : ∀ k, i < k → k ≤ j → (after c es k).pending.entries.get? t = some entry

/-- Where a connection comes from: the `i`-th event has accepted its stream and started to send its
token over it, and the `j`-th event is the echo, by which it has become the connection with the
number `id`. -/
structure Origin (c : ListenerConfig) (es : List Event) (id : MemberId) (b : Binding) (i j : Nat) :
    Prop where
  waited : ∃ entry, Waits c es b.token entry i j ∧ b.stream = entry.stream ∧
    b.address = entry.address
  echoed : ∃ failure, es[j]? = some (.datagram b.endpoint (Handshake.encodeToken b.token) failure)
  unregistered : (after c es j).peers.get? b.endpoint = none
  next : (after c es j).members.length = id
  made : (after c es (j + 1)).bindings[id]? = some b
  settled : (after c es (j + 1)).pending.entries.get? b.token = none

theorem waits_of_get? (hk : k ≤ es.length)
    (hget : (after c es k).pending.entries.get? t = some entry) :
    ∃ i, Waits c es t entry i k := by
  induction k with
  | zero => cases hget
  | succ k ih =>
    have hev : es[k]? = some es[k] := List.getElem?_eq_getElem hk
    generalize es[k] = ev at hev
    rw [after_succ hev] at hget
    rcases ((after c es k).turn ev).waits_of_waits hget with hold | ⟨hunused, ⟨draws, rfl⟩, hsent⟩
    · obtain ⟨i, hi⟩ := ih (Nat.le_of_lt hk) hold
      refine ⟨i, hi.accepted, hi.unused, Nat.lt_succ_of_lt hi.before, fun m him hm => ?_⟩
      rcases Nat.lt_or_eq_of_le hm with hm | rfl
      · exact hi.waiting m him (Nat.le_of_lt_succ hm)
      · rw [after_succ hev]
        exact hget
    · refine ⟨k, ⟨draws, hev, hsent⟩, hunused, Nat.lt_succ_self k, fun m hkm hm => ?_⟩
      obtain rfl := Nat.le_antisymm hm hkm
      rw [after_succ hev]
      exact hget

theorem origin_of_bound {id : MemberId} {b : Binding} (hk : k ≤ es.length)
    (hget : (after c es k).bindings[id]? = some b) : ∃ i j, j < k ∧ Origin c es id b i j := by
  induction k with
  | zero => cases hget
  | succ k ih =>
    have hev : es[k]? = some es[k] := List.getElem?_eq_getElem hk
    generalize es[k] = ev at hev
    rw [after_succ hev] at hget
    rcases ((after c es k).turn ev).bound_of_bound hget with
      hold | ⟨hid, ⟨failure, rfl⟩, hsource, ⟨entry, hwaits, hentry⟩, hsettled⟩
    · obtain ⟨i, j, hj, horigin⟩ := ih (Nat.le_of_lt hk) hold
      exact ⟨i, j, Nat.lt_succ_of_lt hj, horigin⟩
    · obtain ⟨i, hi⟩ := waits_of_get? (Nat.le_of_lt hk) hwaits
      refine ⟨i, k, Nat.lt_succ_self k, ⟨entry, hi, hentry⟩, ⟨failure, hev⟩, hsource, ?_, ?_, ?_⟩
      · exact List.length_map _ ▸ hid
      · rw [after_succ hev]
        exact hget
      · rw [after_succ hev]
        exact hsettled

/-- **An accepted stream** is bound by one echo: after it, the stream does not wait any more. -/
theorem Origin.echo_unique {id id' : MemberId} {b b' : Binding} {j' : Nat}
    (h : Origin c es id b i j) (h' : Origin c es id' b' i j') : j = j' := by
  obtain ⟨entry, hwaits, -⟩ := h.waited
  obtain ⟨entry', hwaits', -⟩ := h'.waited
  obtain ⟨draws, haccepted, hsent⟩ := hwaits.accepted
  obtain ⟨draws', haccepted', hsent'⟩ := hwaits'.accepted
  -- what was accepted is the same, and so is what it was started to send
  have hevent := Option.some.inj (haccepted.symm.trans haccepted')
  obtain ⟨rfl, rfl⟩ := Event.accepted.inj hevent
  have htoken : b.token = b'.token := by
    have heffects := hsent.symm.trans hsent'
    simp only [List.cons.injEq, Effect.startSending.injEq, and_true, true_and] at heffects
    exact Handshake.encodeToken_injective heffects
  rcases Nat.lt_trichotomy j j' with hj | hj | hj
  · have hwaiting := hwaits'.waiting (j + 1) (Nat.lt_succ_of_lt hwaits.before) hj
    rw [← htoken, h.settled] at hwaiting
    cases hwaiting
  · exact hj
  · have hwaiting := hwaits.waiting (j' + 1) (Nat.lt_succ_of_lt hwaits'.before) hj
    rw [htoken, h'.settled] at hwaiting
    cases hwaiting

theorem streams_after (c : ListenerConfig) (es : List Event) (k : Nat) :
    (after c es k).streams.Subperm ((es.take k).filterMap Event.stream?) := by
  induction k with
  | zero => exact List.Subperm.refl _
  | succ k ih =>
    cases hev : es[k]? with
    | none =>
      have hsame : es.take (k + 1) = es.take k := by
        rw [List.take_add_one, hev]
        exact List.append_nil _
      rw [after, hsame]
      exact ih
    | some ev =>
      have hnew : (es.take (k + 1)).filterMap Event.stream? =
          (es.take k).filterMap Event.stream? ++ ev.stream?.toList := by
        rw [List.take_add_one, hev, List.filterMap_append]
        cases hstream : ev.stream? <;> simp [hstream]
      rw [after_succ hev, hnew]
      exact ((after c es k).turn ev).streams_subperm.trans ((List.subperm_append_right _).2 ih)

/-- **A handshake binds only what belongs together**, whatever has happened.  Every connection has
the stream over which it was started to send its token, and its endpoint is where the echo came
from, while the token was pending and no connection was registered for the endpoint.  No stream that
was accepted is bound by two echoes, and no echo makes two connections.  The streams that
connections have and those that wait were accepted, each as often as it is there.  Any other
datagram from an endpoint without a connection comes to nothing. -/
theorem origins (c : ListenerConfig) (es : List Event) :
    let l := ((create c).run es).2
    (∀ (id : MemberId) (x : Member), l.members[id]? = some x →
      ∃ i j, Origin c es id x.binding i j) ∧
    (∀ (id id' : MemberId) (b b' : Binding) (i i' j j' : Nat), Origin c es id b i j →
      Origin c es id' b' i' j' → i = i' ∨ j = j' → id = id') ∧
    (l.members.map Member.stream ++ l.pending.entries.values.map Pending.Entry.stream).Subperm
      (es.filterMap Event.stream?) ∧
    ∀ (source : Address) (bs : Bytes) (failure : Option Fault), l.peers.get? source = none →
      (∀ t entry, l.pending.entries.get? t = some entry → bs ≠ Handshake.encodeToken t) →
      l.step (.datagram source bs failure) = ([], l) := by
  intro l
  have hl : after c es es.length = l := by rw [after, List.take_length]
  refine ⟨fun id x hx => ?_, fun id id' b b' i i' j j' h h' hsame => ?_, ?_,
    fun source bs failure hsource hstranger => ?_⟩
  · have hbound : (after c es es.length).bindings[id]? = some x.binding := by
      rw [hl, bindings, List.getElem?_map, hx]
      rfl
    obtain ⟨i, j, -, horigin⟩ := origin_of_bound (Nat.le_refl es.length) hbound
    exact ⟨i, j, horigin⟩
  · -- the number of a connection is that of the connections before its echo
    have hj : j = j' := by
      rcases hsame with rfl | hj
      · exact h.echo_unique h'
      · exact hj
    subst hj
    exact h.next.symm.trans h'.next
  · have hstreams := streams_after c es es.length
    rw [hl, List.take_length, streams, bindings, List.map_map] at hstreams
    exact hstreams
  · rw [datagram_of_none hsource]
    exact echo_of_stranger hstranger

end Listener

end Tandem
