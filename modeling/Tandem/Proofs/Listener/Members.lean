import Tandem.Proofs.Listener.Registry

/-!
# The connections of a listener

A property that new connections have and that every event keeps is one of all connections of a
listener, whatever happens to this (`Have.step`).  Such a property is to have been made by
`Connection.create` and to be what one's own events have made of one since then (`lived_follow`).
So all that is true of every run of a connection is true of the connections of a listener, which
share the loop that receives datagrams.
-/

namespace Tandem

namespace Listener

variable {c : ListenerConfig} {l : Listener} {P : Connection → Prop}

/-- All connections of a listener with this configuration have a property. -/
structure Have (c : ListenerConfig) (P : Connection → Prop) (l : Listener) : Prop where
  config : l.config = c
  members : ∀ x ∈ l.members, P x.connection

/-- The property is one of new connections of such a listener, and every event keeps it. -/
structure Lasts (c : ListenerConfig) (P : Connection → Prop) : Prop where
  created (t : Token) : P (Connection.create c.toEndpointConfig (some c.maxBodyLength) t)
  step {x : Connection} (h : P x) (e : Connection.Event) : P (x.step e)

theorem Have.modify (h : l.Have c P) (id : MemberId) {f : Connection → Connection}
    (hf : ∀ x, P x → P (f x)) : (l.modify id f).2.Have c P := by
  unfold Listener.modify
  cases hid : l.members[id]? with
  | none => exact h
  | some x =>
    have hx := hf _ (h.members x (List.mem_of_getElem? hid))
    have hset : ∀ y ∈ l.members.set id { x with connection := f x.connection },
        P y.connection := fun y hy => by
      rcases List.mem_or_eq_of_mem_set hy with hy | rfl
      · exact h.members y hy
      · exact hx
    dsimp only
    split_ifs <;> exact ⟨h.config, hset⟩

theorem Have.connection (hP : Lasts c P) (h : l.Have c P) (id : MemberId) (e : Connection.Event) :
    (l.step (.connection id e)).2.Have c P := h.modify id fun _ hx => hP.step hx e

theorem Have.enroll (hP : Lasts c P) (h : l.Have c P) (t : Token) (entry : Pending.Entry)
    (source : Address) : (l.enroll t entry source).2.Have c P := by
  have henlist : (l.enlist (l.newcomer t entry source)).Have c P := by
    refine ⟨h.config, fun x hx => ?_⟩
    rcases List.mem_append.1 hx with hx | hx
    · exact h.members x hx
    · obtain rfl := List.mem_singleton.1 hx
      have hcreated := hP.created t
      rwa [← h.config] at hcreated
  cases hold : l.peers.get? source with
  | none =>
    rw [enroll_of_none hold]
    exact henlist
  | some old =>
    rw [enroll_of_some hold]
    exact henlist.connection hP old _

theorem Have.echo (hP : Lasts c P) (h : l.Have c P) (source : Address) (bs : Bytes)
    (failure : Option Fault) : (l.echo source bs failure).2.Have c P := by
  rcases l.echo_cases source bs failure with hnothing | ⟨t, entry, -, -, hecho⟩
  · rw [hnothing]
    exact h
  · have henroll : ((l.completing t).enroll t entry source).2.Have c P :=
      Have.enroll (l := l.completing t) hP ⟨h.config, h.members⟩ t entry source
    rcases hecho with hecho | ⟨cause, hecho⟩
    · rw [hecho]
      exact henroll
    · rw [hecho]
      exact henroll.connection hP _ _

theorem Have.disconnectAll (hP : Lasts c P) (h : l.Have c P) (ids : List MemberId) :
    (l.disconnectAll ids).2.Have c P := by
  induction ids generalizing l with
  | nil => exact h
  | cons id ids ih =>
    rw [disconnectAll_cons]
    exact ih (h.connection hP id _)

/-- **Every step** of a listener is made of events of its connections and of new connections. -/
theorem Have.step (hP : Lasts c P) (h : l.Have c P) (ev : Event) : (l.step ev).2.Have c P := by
  cases ev with
  | accepted entry draws =>
    simp only [Listener.step, accept]
    split <;> exact ⟨h.config, h.members⟩
  | tokenFailed t => exact ⟨h.config, h.members⟩
  | expired t => exact ⟨h.config, h.members⟩
  | connection id e => exact h.connection hP id e
  | datagram source bs failure =>
    cases hget : l.peers.get? source with
    | none =>
      rw [datagram_of_none hget]
      exact h.echo hP source bs failure
    | some id =>
      rw [datagram_of_some hget]
      exact h.connection hP id _
  | shutdown =>
    rw [shutdown_eq]
    have hcleared : { l with pending := { l.pending with entries := .empty } }.Have c P :=
      ⟨h.config, h.members⟩
    exact hcleared.disconnectAll hP _

theorem Have.follow (hP : Lasts c P) (h : l.Have c P) (as : List Act) : (l.follow as).Have c P := by
  induction as generalizing l with
  | nil => exact h
  | cons a as ih =>
    cases a with
    | event e => exact ih (h.step hP e)
    | late source bs failure => exact ih (h.echo hP source bs failure)

theorem have_create (c : ListenerConfig) (P : Connection → Prop) : (create c).Have c P :=
  ⟨rfl, fun _ hx => absurd hx List.not_mem_nil⟩

/-- A connection of a listener has come about by events, one after the other. -/
theorem lived_follow (c : ListenerConfig) (as : List Act) :
    ∀ x ∈ ((create c).follow as).members, ∃ es, x.connection =
      (Connection.create c.toEndpointConfig (some c.maxBodyLength) x.connection.token).run es := by
  refine ((have_create c fun x => ∃ es, x = (Connection.create c.toEndpointConfig
    (some c.maxBodyLength) x.token).run es).follow ⟨fun t => ⟨[], rfl⟩, ?_⟩ as).members
  rintro x ⟨es, hx⟩ e
  refine ⟨es ++ [e], ?_⟩
  rw [Connection.run_concat, (x.fixed_step e).1, ← hx]

end Listener

end Tandem
