import Tandem.Proofs.Listener.Members
import Tandem.Proofs.Session.Moves

/-!
# The connections of a script

Each move of a script keeps what connections are: that of a client has been made by
`Client.connect`, one of the listener by the listener, and what they have become since then their
own events and the messages sent over them have made of them (`Genuine.move`).  So what a script
reports of a connection is said of a life of one (`reports_genuine`), and all that is true of every
life is true of it.
-/

namespace Tandem

theorem Connection.live_concat (x : Connection) (ds : List Deed) (d : Deed) :
    x.live (ds ++ [d]) = (x.live ds).act d := List.foldl_concat ..

/-- The connection has been made with this configuration, and the rest has come about by deeds. -/
def Connection.Lived (config : EndpointConfig) (maxBody : Option Nat) (x : Connection) : Prop :=
  ∃ token ds, x = (Connection.create config maxBody token).live ds

theorem Connection.Lived.act {config : EndpointConfig} {maxBody : Option Nat} {x : Connection}
    (h : Lived config maxBody x) (d : Deed) : Lived config maxBody (x.act d) := by
  obtain ⟨token, ds, rfl⟩ := h
  exact ⟨token, ds ++ [d], (live_concat _ ds d).symm⟩

theorem Listener.lasts_lived (config : ListenerConfig) :
    Lasts config (Connection.Lived config.toEndpointConfig (some config.maxBodyLength)) where
  created t := ⟨t, [], rfl⟩
  step h e := h.act (.event e)

namespace Session.State

variable {c : Option ListenerConfig} {s s' : State}

/-- All connections are what has become of one that was made for the listener or by a client. -/
structure Genuine (c : Option ListenerConfig) (s : State) : Prop where
  listener : ∀ l, s.listener = some l → ∃ config, c = some config ∧
    l.Have config (Connection.Lived config.toEndpointConfig (some config.maxBodyLength))
  clients : ∀ name e, s.clients.get? name = some e → ∃ config n x ds,
    (Client.connect config n).result = .ok x ∧ e.connection = x.live ds

theorem Genuine.aside (h : s.Genuine c) (h' : s.Aside s') : s'.Genuine c where
  listener := h'.listener ▸ h.listener
  clients := h'.clients ▸ h.clients

theorem aside_effects (s : State) (effects : List Listener.Effect) :
    s.Aside (effects.foldl apply s) := by
  induction effects generalizing s with
  | nil => exact ⟨rfl, rfl⟩
  | cons f effects ih =>
    have hf := s.aside_apply f
    have hrest := ih (s.apply f)
    exact ⟨hrest.listener.trans hf.listener, hrest.clients.trans hf.clients⟩

theorem Genuine.listen (h : s.Genuine c) (e : Listener.Event) : (s.listen e).Genuine c := by
  unfold State.listen
  split
  · exact h
  · rename_i l hl
    obtain ⟨config, hconfig, hhave⟩ := h.listener l hl
    have hstep : Genuine c { s with listener := some (l.step e).2 } := by
      refine ⟨fun l' hl' => ⟨config, hconfig, ?_⟩, h.clients⟩
      obtain rfl := Option.some.inj hl'
      exact hhave.step (Listener.lasts_lived config) e
    exact hstep.aside (aside_effects _ _)

theorem Genuine.set (h : s.Genuine c) (name : String) {e : ClientEnd}
    (he : ∃ config n x ds, (Client.connect config n).result = .ok x ∧ e.connection = x.live ds) :
    Genuine c { s with clients := s.clients.set name e } where
  listener := h.listener
  clients name' e' hget := by
    rw [Table.get?_set] at hget
    split_ifs at hget
    · exact Option.some.inj hget ▸ he
    · exact h.clients name' e' hget

theorem Genuine.modify (h : s.Genuine c) (o : Owner) (d : Connection.Deed) :
    (s.modify o fun x => x.act d).Genuine c := by
  cases o with
  | client name =>
    simp only [State.modify]
    split
    · exact h
    · rename_i e hget
      obtain ⟨config, n, x, ds, hx, he⟩ := h.clients name e hget
      have hset := h.set name (e := { e with connection := e.connection.act d })
        ⟨config, n, x, ds ++ [d], hx, by rw [he, x.live_concat]⟩
      split_ifs
      · exact hset
      · exact hset.aside (aside_setWire _ _ _ _)
  | member id =>
    simp only [State.modify]
    split
    · exact h
    · rename_i l hl
      obtain ⟨config, hconfig, hhave⟩ := h.listener l hl
      have hmodify : Genuine c { s with listener := some (l.modify id fun x => x.act d).2 } := by
        refine ⟨fun l' hl' => ⟨config, hconfig, ?_⟩, h.clients⟩
        obtain rfl := Option.some.inj hl'
        exact hhave.modify id fun x hx => hx.act d
      exact hmodify.aside (aside_effects _ _)

/-- **Every move** keeps what connections are. -/
theorem Genuine.move (h : s.Genuine c) (hmove : s.Move s') : s'.Genuine c := by
  cases hmove with
  | aside haside => exact h.aside haside
  | listens e => exact h.listen e
  | acts o d => exact h.modify o d
  | @joins _ name e config n hresult hlistener hclients =>
    have hset := h.set name ⟨config, n, e.connection, [], hresult, rfl⟩
    exact hset.aside ⟨hlistener, hclients⟩

theorem Genuine.leads (h : s.Genuine c) (hleads : s.Leads s') : s'.Genuine c := by
  induction hleads with
  | refl => exact h
  | tail _ hmove ih => exact ih.move hmove

theorem genuine_initial (e : Environment) (c : Option ListenerConfig) :
    (initial e c).Genuine c where
  listener l hl := by
    obtain ⟨config, hconfig, rfl⟩ := Option.map_eq_some_iff.1 hl
    exact ⟨config, hconfig, Listener.have_create config _⟩
  clients name e hget := nomatch hget

end Session.State

/-- **What a script reports** is what has become of a listener and of connections by events and
messages, in whatever order its steps and what follows from them let these happen. -/
theorem Session.reports_genuine {e : Environment} {c : Option ListenerConfig} {steps : List Step}
    {reports : List Report} (h : run e c steps = .ok reports) :
    ∀ r ∈ reports, ∃ s, s.Genuine c ∧ Play.Shows s r := by
  unfold run at h
  split at h
  · cases h
  · rw [StateT.run'_eq] at h
    cases hrun : (Play.performAll steps).run (State.initial e c) with
    | error f => rw [hrun] at h; cases h
    | ok p =>
      rw [hrun] at h
      obtain rfl : p.1 = reports := Except.ok.inj h
      intro r hr
      obtain ⟨s, hleads, hshows⟩ := Play.shows_performAll hrun r hr
      exact ⟨s, (State.genuine_initial e c).leads hleads, hshows⟩

end Tandem
