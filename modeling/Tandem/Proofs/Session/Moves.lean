import Tandem.Session.Run
import Tandem.Proofs.Connection.Refusal
import Mathlib.Logic.Relation

/-!
# What the steps of a script come down to

A script knows only four ways to get from one state to the next (`Session.State.Move`): something
happens to the listener, to a connection, a client connects, or only the network and the records of
the script change.  Whatever a step says and however much follows from it, it is put together from
such moves (`Play.moves_perform`, `State.leads_settle`).  So whatever every move keeps holds
whenever a script reports something (`Play.shows_performAll`).
-/

namespace Tandem.Session

namespace State

variable {s s' : State} {name : String} {o : Owner}

/-- Only the network and what the script itself keeps account of may have changed. -/
structure Aside (s s' : State) : Prop where
  listener : s'.listener = s.listener
  clients : s'.clients = s.clients

/-- What can happen next. -/
inductive Move : State → State → Prop
  | aside {s s' : State} (h : s.Aside s') : Move s s'
  /-- an event of the listener, and what it does to the network -/
  | listens (s : State) (e : Listener.Event) : Move s (s.listen e)
  /-- something happens to a connection, or a message is sent over it -/
  | acts (s : State) (o : Owner) (d : Connection.Deed) : Move s (s.modify o fun c => c.act d)
  /-- a client has connected -/
  | joins {s s' : State} (name : String) {e : ClientEnd} {config : ClientConfig}
      {n : Client.Network} (hresult : (Client.connect config n).result = .ok e.connection)
      (hlistener : s'.listener = s.listener) (hclients : s'.clients = s.clients.set name e) :
      Move s s'

/-- A state leads to another one by moves. -/
abbrev Leads : State → State → Prop := Relation.ReflTransGen Move

/-! ### The network -/

variable {s'' : State} {stream : StreamId} {side : Side} {bs : Bytes}

theorem aside_setWire (s : State) (stream : StreamId) (side : Side) (w : Wire) :
    s.Aside (s.setWire stream side w) := by
  unfold setWire
  split <;> exact ⟨rfl, rfl⟩

theorem aside_push (s : State) (stream : StreamId) (side : Side) (bs : Bytes) :
    s.Aside (s.push stream side bs) := by
  unfold push
  dsimp only
  split_ifs
  · exact ⟨rfl, rfl⟩
  · exact s.aside_setWire stream side _

theorem aside_apply (s : State) (f : Listener.Effect) : s.Aside (s.apply f) := by
  cases f with
  | startSending stream bs => exact s.aside_push stream .server bs
  | datagram target bs => exact ⟨rfl, rfl⟩
  | close stream => exact s.aside_setWire stream .server _

theorem Leads.aside (h : s.Leads s') (h' : s'.Aside s'') : s.Leads s'' := h.tail (.aside h')

theorem Leads.setWire (h : s.Leads s') (w : Wire) : s.Leads (s'.setWire stream side w) :=
  h.aside (s'.aside_setWire stream side w)

theorem Leads.endWire (h : s.Leads s') : s.Leads (s'.endWire stream side) := h.setWire _

theorem Leads.push (h : s.Leads s') : s.Leads (s'.push stream side bs) :=
  h.aside (s'.aside_push stream side bs)

theorem Leads.hear (h : s.Leads s') (e : Event) : s.Leads (s'.hear name e) := h.aside ⟨rfl, rfl⟩

theorem Leads.fly (h : s.Leads s') (source target : Nat) : s.Leads (s'.fly source target bs) :=
  h.aside ⟨rfl, rfl⟩

theorem Leads.listen (h : s.Leads s') (e : Listener.Event) : s.Leads (s'.listen e) :=
  h.tail (.listens s' e)

theorem Leads.modify (h : s.Leads s') (e : Connection.Event) :
    s.Leads (s'.modify o fun c => c.step e) := h.tail (.acts s' o (.event e))

theorem Leads.foldl {α : Type} {f : State → α → State}
    (hf : ∀ (s s' : State) (a : α), s.Leads s' → s.Leads (f s' a)) (h : s.Leads s') (as : List α) :
    s.Leads (as.foldl f s') := by
  induction as generalizing s' with
  | nil => exact h
  | cons a as ih => exact ih (hf s s' a h)

/-! ### What follows from a step -/

theorem Leads.sendWith (h : s.Leads s') (ch : Channel) {f : Connection → Bool × Connection}
    {d : Connection.Deed} (hf : ∀ c, (f c).2 = c.act d) :
    s.Leads (s'.sendWith o bs ch f).2 := by
  have hmodify : s.Leads (s'.modify o fun c => (f c).2) := by
    simp only [hf]
    exact h.tail (.acts s' o d)
  unfold State.sendWith
  split
  · exact h
  · dsimp only
    split_ifs
    · exact hmodify.fly _ _
    · exact hmodify

theorem Leads.send (h : s.Leads s') (ch : Channel) : s.Leads (s'.send o bs ch).2 :=
  h.sendWith ch (d := .event (.send bs ch .sent)) fun _ => rfl

theorem Leads.arrive (h : s.Leads s') (d : Flying) : s.Leads (s'.arrive d) := by
  unfold State.arrive
  split_ifs
  · exact (h.listen _).modify .start
  · split
    · split_ifs
      · exact h.modify (.datagram d.bytes)
      · exact h
    · split
      · exact h.hear _
      · exact h

theorem leads_answer (s : State) (name : String) (o : Owner) (h : Habits) (d : Delivery) :
    s.Leads (s.answer name o h d) := by
  have hfinish : s.Leads ((s.hear name (.call (.message d))).modify o Connection.finish) :=
    (Leads.hear .refl _).modify .finish
  unfold answer
  dsimp only
  split_ifs
  · split
    · exact hfinish.send _
    · exact hfinish
  · exact hfinish

theorem leads_handle {d : Dispatcher} (h : s.handle? name o d = some s') : s.Leads s' := by
  unfold handle? at h
  cases hphase : d.phase with
  | unstarted | ended => simp only [hphase, reduceCtorEq] at h
  | idle =>
    simp only [hphase] at h
    split_ifs at h
    obtain rfl := Option.some.inj h
    exact Leads.modify .refl (.poll s.clock)
  | checking =>
    simp only [hphase] at h
    obtain rfl := Option.some.inj h
    exact Leads.modify .refl .check
  | calling =>
    simp only [hphase] at h
    split at h
    · split_ifs at h
      obtain rfl := Option.some.inj h
      exact s.leads_answer name o _ _
    · cases h
  | ending cause =>
    simp only [hphase] at h
    obtain rfl := Option.some.inj h
    exact (Leads.hear .refl _).modify .conclude

theorem leads_serve (h : s.serve? name o = some s') : s.Leads s' := by
  unfold serve? at h
  split at h
  · cases h
  · split at h
    · -- something is written
      split_ifs at h
      · obtain rfl := Option.some.inj h
        exact (Leads.push .refl).modify (.write _)
      · exact leads_handle h
    · split at h
      · obtain rfl := Option.some.inj h
        exact Leads.modify .refl .settle
      · dsimp only at h
        split_ifs at h
        · obtain rfl := Option.some.inj h
          exact (Leads.setWire .refl _).modify (.read _)
        · obtain rfl := Option.some.inj h
          exact Leads.modify .refl .readEnd
        · exact leads_handle h

theorem leads_listenRaw {r : RawPeer} (h : s.listenRaw? name r = some s') : s.Leads s' := by
  unfold listenRaw? at h
  dsimp only at h
  split_ifs at h <;> obtain rfl := Option.some.inj h
  · exact (Leads.setWire .refl _).hear _
  · exact Leads.aside .refl ⟨rfl, rfl⟩

/-- **The next thing that happens anywhere** is made of moves. -/
theorem leads_next (h : s.next? = some s') : s.Leads s' := by
  unfold next? at h
  split at h
  · rename_i d rest _
    obtain rfl := Option.some.inj h
    have hair : s.Leads { s with air := rest } := Leads.aside .refl ⟨rfl, rfl⟩
    exact hair.arrive d
  · rcases Option.or_eq_some_iff.1 h with hserve | ⟨-, hlisten⟩
    · obtain ⟨_, -, hserve⟩ := List.exists_of_findSome?_eq_some hserve
      exact leads_serve hserve
    · obtain ⟨_, -, hlisten⟩ := List.exists_of_findSome?_eq_some hlisten
      exact leads_listenRaw hlisten

theorem leads_settleUpTo (n : Nat) (s : State) : s.Leads (settleUpTo n s) := by
  induction n generalizing s with
  | zero => exact .refl
  | succ n ih =>
    rw [settleUpTo]
    split
    · exact .refl
    · rename_i s' hnext
      exact (leads_next hnext).trans (ih s')

theorem leads_settle (s : State) : s.Leads s.settle := leads_settleUpTo _ s

theorem leads_elapse (s : State) (time : Nat) : s.Leads (s.elapse time) := by
  have hclock : s.Leads { s with clock := s.clock + time } := Leads.aside .refl ⟨rfl, rfl⟩
  refine Leads.foldl (fun s s' t h => ?_)
    (Leads.foldl (fun s s' t h => h.listen (.expired t)) hclock _) _
  split
  · rename_i stream pending _
    have hpending : s.Leads { s' with pending } := h.aside ⟨rfl, rfl⟩
    exact hpending.endWire
  · exact h

theorem Leads.echo (h : s.Leads s') (socket : Nat) (n : Client.Network) :
    s.Leads (s'.echo socket n) := by
  unfold State.echo
  split
  · exact (h.listen _).modify .start
  · exact h

theorem Leads.connect (h : s.Leads s') (name : String) (c : EndpointConfig) (n : Client.Network)
    {e : Connection → ClientEnd} (he : ∀ conn, (e conn).connection = conn) :
    s.Leads (s'.connect name c n e).2 := by
  unfold State.connect
  dsimp only
  split
  · rename_i conn hresult
    have hwire := s'.aside_setWire (e conn).stream .server
    refine h.tail (.joins name (e := e conn) (hresult.trans (congrArg _ (he conn).symm)) ?_ ?_)
    · exact (hwire _).listener
    · exact congrArg (Table.set · name (e conn)) (hwire _).clients
  · exact h

theorem Leads.sendAll (h : s.Leads s') (ch : Channel) (bodies : List Bytes) :
    s.Leads (s'.sendAll o ch bodies).2 := by
  induction bodies generalizing s' with
  | nil => exact h
  | cons bs rest ih => exact ih (h.send ch)

theorem Leads.sendMessage (h : s.Leads s') (ch : Channel) : s.Leads (s'.sendMessage o bs ch).2 := by
  unfold State.sendMessage
  dsimp only
  split
  · exact h
  · rename_i x m _
    exact h.sendWith ch (d := .message x m ch .sent s'.clock) fun _ => rfl

end State

/-! ### Steps -/

namespace Play

open State

variable {α β : Type} {p : Play α} {s s' : State}

/-- Wherever it gives something, it does so by moves. -/
def Moves (p : Play α) : Prop := ∀ s a s', p.run s = .ok (a, s') → s.Leads s'

theorem run_bind_ok {f : α → Play β} {b : β} (h : (p >>= f).run s = .ok (b, s')) :
    ∃ a s₁, p.run s = .ok (a, s₁) ∧ (f a).run s₁ = .ok (b, s') := by
  rw [StateT.run_bind] at h
  cases hrun : p.run s with
  | error e => rw [hrun] at h; cases h
  | ok r =>
    rw [hrun] at h
    exact ⟨r.1, r.2, rfl, h⟩

theorem Moves.bind {f : α → Play β} (hp : p.Moves) (hf : ∀ a, (f a).Moves) :
    (p >>= f).Moves := by
  intro s b s' h
  obtain ⟨a, s₁, ha, hb⟩ := run_bind_ok h
  exact (hp s a s₁ ha).trans (hf a s₁ b s' hb)

theorem moves_pure (a : α) : (pure a : Play α).Moves := by
  intro s b s' h
  cases h
  exact .refl

theorem moves_throw (f : Failure) : (throw f : Play α).Moves := by
  intro s b s' h
  cases h

theorem moves_get : (get : Play State).Moves := by
  intro s b s' h
  cases h
  exact .refl

theorem moves_modifyGet {f : State → α × State} (h : ∀ s : State, s.Leads (f s).2) :
    (modifyGet f : Play α).Moves := by
  intro s b s' heq
  have hf : (f s).2 = s' := congrArg Prod.snd (Except.ok.inj heq)
  exact hf ▸ h s

theorem moves_modify {f : State → State} (h : ∀ s : State, s.Leads (f s)) :
    (modify f : Play PUnit).Moves := moves_modifyGet h

theorem moves_aside {f : State → State} (h : ∀ s : State, s.Aside (f s)) :
    (modify f : Play PUnit).Moves := moves_modify fun s => Leads.aside .refl (h s)

theorem moves_find (x : State → Option α) (f : Failure) : (find x f).Moves := by
  refine moves_get.bind fun s => ?_
  split
  · exact moves_pure _
  · exact moves_throw f

theorem moves_newPort : (modifyGet newPort : Play Nat).Moves :=
  moves_modifyGet fun _ => Leads.aside .refl ⟨rfl, rfl⟩

theorem moves_newStream : (modifyGet newStream : Play StreamId).Moves :=
  moves_modifyGet fun _ => Leads.aside .refl ⟨rfl, rfl⟩

theorem moves_newToken : (modifyGet newToken : Play Token).Moves :=
  moves_modifyGet fun _ => Leads.aside .refl ⟨rfl, rfl⟩

theorem moves_receive (socket : Nat) : (modifyGet (·.receive socket) : Play (List Bytes)).Moves :=
  moves_modifyGet fun _ => Leads.aside .refl ⟨rfl, rfl⟩

theorem moves_tokenOf (name : String) : (tokenOf name).Moves := by
  refine moves_get.bind fun s => ?_
  split
  · exact moves_pure _
  · exact (moves_find _ _).bind fun _ => moves_pure _

theorem moves_bytesOf (ps : List Part) : (bytesOf ps).Moves := by
  induction ps with
  | nil => exact moves_pure _
  | cons part ps ih =>
    have hrest (f : Bytes → Bytes) : (do return f (← bytesOf ps) : Play Bytes).Moves :=
      ih.bind fun _ => moves_pure _
    cases part with
    | bytes bs => exact hrest _
    | token name | nextToken name => exact (moves_tokenOf name).bind fun _ => hrest _

theorem moves_openStream (l : Listener) : (openStream l).Moves := by
  refine moves_newStream.bind fun stream => moves_newPort.bind fun port =>
    moves_newToken.bind fun t => moves_get.bind fun s => ?_
  exact (moves_modify fun s => Leads.listen .refl _).bind fun _ => moves_pure _

theorem moves_client (name : String) (c : EndpointConfig) : (client name c).Moves := by
  refine (moves_find _ _).bind fun l => moves_get.bind fun s => ?_
  split
  · exact moves_pure _
  · refine (moves_openStream l).bind fun ⟨stream, port⟩ => moves_newPort.bind fun socket =>
      moves_get.bind fun s => ?_
    refine (moves_modify fun s => Leads.echo .refl socket _).bind fun _ => ?_
    refine (moves_receive socket).bind fun hellos => ?_
    refine (moves_modifyGet fun s => Leads.connect .refl name c _ fun _ => rfl).bind
      fun outcome => ?_
    split
    · exact moves_pure _
    · exact (moves_modify fun s => Leads.endWire .refl).bind fun _ => moves_pure _

theorem moves_clientOf (name : String) (c : EndpointConfig) (server : Server) :
    (clientOf name c server).Moves := by
  refine moves_get.bind fun s => ?_
  split
  · exact moves_pure _
  · refine moves_newStream.bind fun stream => moves_newPort.bind fun port =>
      moves_newPort.bind fun socket => moves_newPort.bind fun serverPort =>
      moves_newPort.bind fun serverSocket => ?_
    refine (moves_modifyGet fun s => Leads.connect .refl name c _ fun _ => rfl).bind
      fun outcome => ?_
    refine (moves_modify fun s => ?_).bind fun _ => ?_
    · split
      · exact Leads.endWire .refl
      · exact Leads.aside .refl ⟨rfl, rfl⟩
    · split
      · refine (moves_modify fun s => ?_).bind fun _ => moves_pure _
        exact Leads.foldl (fun s s' bs h => h.fly _ _) .refl _
      · refine (moves_modify fun s => Leads.endWire ?_).bind fun _ => moves_pure _
        split
        · exact s.leads_elapse _
        · exact .refl

theorem moves_raw (name : String) : (raw name).Moves := by
  refine (moves_find _ _).bind fun l => (moves_find _ _).bind fun _ =>
    (moves_openStream l).bind fun ⟨stream, port⟩ => moves_newPort.bind fun socket =>
    moves_get.bind fun s => ?_
  refine (moves_modify fun s => Leads.setWire .refl _).bind fun _ =>
    (moves_aside fun s => ?_).bind fun _ => moves_pure _
  exact ⟨rfl, rfl⟩

theorem moves_pendingRegister (name : String) (timeout : Nat) :
    (pendingRegister name timeout).Moves := by
  refine (moves_find _ _).bind fun _ => moves_newStream.bind fun stream =>
    moves_newPort.bind fun port => moves_newPort.bind fun socket => moves_newToken.bind fun t =>
    moves_get.bind fun s => (moves_find _ _).bind fun ⟨t, pending⟩ =>
    (moves_aside fun s => ?_).bind fun _ => moves_pure _
  exact ⟨rfl, rfl⟩

theorem moves_pendingComplete (name : String) : (pendingComplete name).Moves := by
  refine (moves_find _ _).bind fun t => moves_get.bind fun s => ?_
  split
  refine (moves_aside fun s => ?_).bind fun _ => moves_get.bind fun s => moves_pure _
  exact ⟨rfl, rfl⟩

theorem leads_closeAll (s : State) (pending : Pending) (streams : List StreamId) :
    s.Leads (streams.foldl (fun s stream => s.endWire stream .server) { s with pending }) := by
  have hpending : s.Leads { s with pending } := Leads.aside .refl ⟨rfl, rfl⟩
  exact Leads.foldl (fun _ _ _ h => h.endWire) hpending streams

theorem moves_pendingAbandon (name : String) : (pendingAbandon name).Moves := by
  refine (moves_find _ _).bind fun t => moves_get.bind fun s => ?_
  split
  exact (moves_modify fun s => leads_closeAll s _ _).bind fun _ => moves_pure _

theorem moves_pendingClear : pendingClear.Moves := by
  refine moves_get.bind fun s => ?_
  split
  exact (moves_modify fun s => leads_closeAll s _ _).bind fun _ => moves_pure _

theorem moves_tableInsert (port : Nat) (name : String) : (tableInsert port name).Moves := by
  refine (moves_find _ _).bind fun _ => (moves_modify fun s => ?_).bind fun _ => ?_
  · exact Leads.foldl (fun s s' old h => h.modify (.disconnect (.plain .success))) .refl _
  · refine (moves_aside fun s => ?_).bind fun _ => moves_get.bind fun s => moves_pure _
    exact ⟨rfl, rfl⟩

theorem moves_tableRemove (port : Nat) (name : String) : (tableRemove port name).Moves := by
  refine (moves_find _ _).bind fun _ => moves_get.bind fun s =>
    (moves_aside fun s => ?_).bind fun _ => moves_pure _
  exact ⟨rfl, rfl⟩

theorem moves_landmarkPort (mark : Landmark) : (landmarkPort mark).Moves := by
  cases mark with
  | listenerStream | listenerDatagrams => exact moves_get.bind fun s => moves_pure _
  | rawDatagrams name => exact (moves_find _ _).bind fun r => moves_pure _
  | connection name =>
    exact (moves_find _ _).bind fun o => moves_get.bind fun s => moves_pure _

theorem moves_endpoint (name protocol : String) (other : Landmark) :
    (endpoint name protocol other).Moves :=
  (moves_find _ _).bind fun _ => (moves_landmarkPort other).bind fun _ =>
    moves_get.bind fun _ => moves_pure _

theorem moves_setHabits (name : String) (f : Habits → Habits) : (setHabits name f).Moves := by
  refine (moves_find _ _).bind fun o => (moves_aside fun s => ?_).bind fun _ => moves_pure _
  exact ⟨rfl, rfl⟩

/-- **Whatever a step says**, it is carried out by moves. -/
theorem moves_perform (step : Step) : (perform step).Moves := by
  cases step with
  | client name c => exact moves_client name c
  | clientRefused name c => exact moves_get.bind fun s => moves_pure _
  | clientOf name c server => exact moves_clientOf name c server
  | raw name => exact moves_raw name
  | rawSocket name =>
    refine (moves_find _ _).bind fun r => moves_newPort.bind fun socket =>
      (moves_aside fun s => ?_).bind fun _ => moves_pure _
    exact ⟨rfl, rfl⟩
  | rawDatagram name ps =>
    exact (moves_find _ _).bind fun r => (moves_bytesOf ps).bind fun bs =>
      (moves_modify fun s => Leads.fly .refl _ _).bind fun _ => moves_pure _
  | rawWrite name ps =>
    exact (moves_find _ _).bind fun r => (moves_bytesOf ps).bind fun bs =>
      (moves_modify fun s => Leads.push .refl).bind fun _ => moves_pure _
  | rawClose name =>
    exact (moves_find _ _).bind fun r =>
      (moves_modify fun s => Leads.endWire .refl).bind fun _ => moves_pure _
  | send name ps ch =>
    exact (moves_find _ _).bind fun o => (moves_bytesOf ps).bind fun bs =>
      (moves_modifyGet fun s => Leads.send .refl ch).bind fun _ => moves_pure _
  | sendMessage name bs ch =>
    exact (moves_find _ _).bind fun o =>
      (moves_modifyGet fun s => Leads.sendMessage .refl ch).bind fun _ => moves_pure _
  | burst name bodies ch =>
    exact (moves_find _ _).bind fun o =>
      (moves_modifyGet fun s => Leads.sendAll .refl ch bodies).bind fun _ => moves_pure _
  | disconnect name =>
    exact (moves_find _ _).bind fun ⟨o, c⟩ =>
      (moves_modify fun s => Leads.modify .refl (.disconnect (.plain .success))).bind
        fun _ => moves_pure _
  | shutdown =>
    exact (moves_find _ _).bind fun l =>
      (moves_modify fun s => Leads.listen .refl .shutdown).bind fun _ => moves_pure _
  | acknowledge name => exact moves_setHabits name fun h => { h with acknowledges := true }
  | hold name => exact moves_setHabits name fun h => { h with holds := true }
  | release name => exact moves_setHabits name fun h => { h with holds := false }
  | wait time => exact (moves_modify fun s => s.leads_elapse time).bind fun _ => moves_pure _
  | endpoint name protocol other => exact moves_endpoint name protocol other
  | tableInsert port name => exact moves_tableInsert port name
  | tableRemove port name => exact moves_tableRemove port name
  | tableGet port | pendingShow => exact moves_get.bind fun s => moves_pure _
  | pendingRegister name timeout => exact moves_pendingRegister name timeout
  | pendingComplete name => exact moves_pendingComplete name
  | pendingAbandon name => exact moves_pendingAbandon name
  | pendingClear => exact moves_pendingClear
  | samePort => exact (moves_find _ _).bind fun l => moves_get.bind fun s => moves_pure _
  | sameToken name other =>
    exact (moves_find _ _).bind fun ⟨_, c⟩ => (moves_find _ _).bind fun ⟨_, d⟩ => moves_pure _

/-- What a report says of a state. -/
structure Shows (s : State) (r : Report) : Prop where
  events : r.events = s.heard.entries
  connections : r.connections = s.connectionReports
  listener : r.listener = s.listener.map .of

/-- **Every report** of a script is about a state that has come about by moves. -/
theorem shows_performAll {steps : List Step} {reports : List Report} :
    (performAll steps).run s = .ok (reports, s') →
      ∀ r ∈ reports, ∃ s₁, s.Leads s₁ ∧ Shows s₁ r := by
  induction steps generalizing s s' reports with
  | nil =>
    intro h
    obtain rfl : [] = reports := congrArg Prod.fst (Except.ok.inj h)
    exact fun r hr => absurd hr List.not_mem_nil
  | cons step steps ih =>
    intro h
    obtain ⟨result, s₁, hstep, h⟩ := run_bind_ok h
    obtain ⟨_, s₂, hsettle, h⟩ := run_bind_ok h
    obtain ⟨report, s₃, hreport, h⟩ := run_bind_ok h
    obtain ⟨more, s₄, hmore, h⟩ := run_bind_ok h
    obtain rfl : report :: more = reports := congrArg Prod.fst (Except.ok.inj h)
    obtain rfl : s₁.settle = s₂ := congrArg Prod.snd (Except.ok.inj hsettle)
    obtain ⟨hshown, rfl⟩ := Prod.mk.inj (Except.ok.inj hreport)
    have hsettled : s.Leads s₁.settle :=
      (moves_perform step s result s₁ hstep).trans s₁.leads_settle
    intro r hr
    rcases List.mem_cons.1 hr with rfl | hr
    · exact ⟨s₁.settle, hsettled, hshown ▸ ⟨rfl, rfl, rfl⟩⟩
    · obtain ⟨s', hs', hshows⟩ := ih hmore r hr
      have hreported : s.Leads { s₁.settle with heard := .empty } := hsettled.aside ⟨rfl, rfl⟩
      exact ⟨s', hreported.trans hs', hshows⟩

end Play

end Tandem.Session
