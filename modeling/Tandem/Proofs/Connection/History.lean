import Tandem.Proofs.Connection.Dispatcher

/-!
# What the application is told

The handler of a connection is called with the messages in the order in which they were let into the
inbox, and then once with the end of the connection.  To state this, the dispatcher is followed
together with its past (`Dispatcher.History`): all messages that were let in, what they were when
the end was announced, and what they were when the dispatcher last looked for one.  Whatever happens
to a dispatcher and in whatever order, the handler was told the truth about that past
(`History.Faithful`).

The dispatcher does not look for messages again once it has seen the end.  So the handler is told
all that was let in before the last look, which need not be all that was let in before the end was
announced: of what came in between the last look and the announcement it hears nothing.
-/

namespace Tandem

namespace Dispatcher

/-- The dispatcher has looked for a message and found none, and has not looked again since. -/
def Phase.hasLooked : Phase → Bool
  | checking | ending _ | ended => true
  | unstarted | idle | calling => false

/-- What there was when a dispatcher looked for a message. -/
structure Look where
  /-- the messages that had been let in, oldest first -/
  accepted : List Delivery
  /-- whether the end had been announced -/
  told : Bool
  deriving DecidableEq, Repr

/-- A dispatcher with its past. -/
structure History where
  dispatcher : Dispatcher
  /-- all messages that were let in, oldest first -/
  accepted : List Delivery
  /-- the messages that had been let in when the end was announced for the first time, and its
  cause -/
  told : Option (List Delivery × Cause)
  /-- the last look -/
  looked : Look

namespace History

/-- A dispatcher that nothing has happened to. -/
def opening (capacity : Nat) : History := ⟨.create capacity, [], none, ⟨[], false⟩⟩

/-- What becomes of a dispatcher and its past by an event. -/
def step (h : History) (e : Event) : History where
  dispatcher := h.dispatcher.step e
  accepted := h.accepted ++ h.dispatcher.accepts e
  told :=
    match e with
    | .announce cause => h.told.or (some (h.accepted, cause))
    | _ => h.told
  looked :=
    match e with
    | .poll => if h.dispatcher.phase = .idle then ⟨h.accepted, h.told.isSome⟩ else h.looked
    | _ => h.looked

/-- What becomes of a dispatcher and its past by events, one after the other. -/
def run (h : History) (es : List Event) : History := es.foldl step h

theorem dispatcher_run (h : History) (es : List Event) :
    (h.run es).dispatcher = h.dispatcher.run es := by
  induction es generalizing h with
  | nil => rfl
  | cons e es ih => exact ih (h.step e)

theorem accepted_run (h : History) (es : List Event) : h.accepted <+: (h.run es).accepted := by
  induction es generalizing h with
  | nil => exact List.prefix_rfl
  | cons e es ih => exact (List.prefix_append _ _).trans (ih (h.step e))

theorem phase_run_announce (h : History) (causes : List Cause) :
    (h.run (causes.map .announce)).dispatcher.phase = h.dispatcher.phase := by
  induction causes generalizing h with
  | nil => rfl
  | cons cause causes ih => exact ih (h.step (.announce cause))

/-- **What the application has been told** goes with the past: messages in the order in which they
were let in, without gap or repetition, the others still waiting; or, at last, all messages that had
been let in when the dispatcher last looked for one, and the end with its cause.  If the end had
been announced by then, these are all that were let in before that; and if not, it was announced
while the dispatcher turned from one look to the other. -/
inductive Reports (h : History) : Prop
  | going (delivered : List Delivery) (hphase : h.dispatcher.phase ≠ .ended)
      (hcalls : h.dispatcher.calls = delivered.map .message)
      (haccepted : h.accepted = delivered ++ h.dispatcher.inbox.items)
  | ended (before : List Delivery) (cause : Cause) (hphase : h.dispatcher.phase = .ended)
      (hcalls : h.dispatcher.calls = h.looked.accepted.map .message ++ [.disconnected cause])
      (haccepted : h.looked.accepted <+: h.accepted) (htold : h.told = some (before, cause))
      (hearly : h.looked.told = true → before <+: h.looked.accepted)
      (hlate : h.looked.told = false → h.looked.accepted <+: before)

/-! ### Being faithful to the past -/

/-- The past goes together: whatever was let in at an earlier time is the beginning of what was let
in at a later one. -/
structure Coherent (h : History) : Prop where
  told_isPrefix : ∀ before cause, h.told = some (before, cause) → before <+: h.accepted
  looked_isPrefix : h.looked.accepted <+: h.accepted
  early : h.looked.told = true → ∃ before cause, h.told = some (before, cause) ∧
    before <+: h.looked.accepted
  late : h.looked.told = false → ∀ before cause, h.told = some (before, cause) →
    h.looked.accepted <+: before

/-- The handler was called with the given messages. -/
structure Faithful (h : History) (delivered : List Delivery) : Prop where
  coherent : h.Coherent
  signal_eq : h.dispatcher.signal = h.told.map Prod.snd
  going : h.dispatcher.phase ≠ .ended →
    h.dispatcher.calls = delivered.map .message ∧
      h.accepted = delivered ++ h.dispatcher.inbox.items
  looked : h.dispatcher.phase.hasLooked = true → delivered = h.looked.accepted
  ending : ∀ cause, h.dispatcher.phase = .ending cause → ∃ before, h.told = some (before, cause)
  ended : h.dispatcher.phase = .ended → ∃ before cause,
    h.dispatcher.calls = delivered.map .message ++ [.disconnected cause] ∧
      h.told = some (before, cause)

theorem coherent_opening (capacity : Nat) : (opening capacity).Coherent :=
  ⟨nofun, List.prefix_rfl, nofun, fun _ => nofun⟩

theorem faithful_opening (capacity : Nat) : Faithful (opening capacity) [] where
  coherent := coherent_opening capacity
  signal_eq := rfl
  going _ := ⟨rfl, rfl⟩
  looked h := by cases h
  ending cause h := by cases h
  ended h := by cases h

variable {h h' : History} {delivered new : List Delivery} {e : Event}

theorem Faithful.handed_eq (hf : Faithful h delivered) : h.dispatcher.handed = delivered := by
  have hmessages : (delivered.map Call.message).filterMap Call.delivery? = delivered := by
    rw [List.filterMap_map]
    exact List.filterMap_some
  by_cases hphase : h.dispatcher.phase = .ended
  · obtain ⟨before, cause, hcalls, -⟩ := hf.ended hphase
    rw [handed, hcalls, List.filterMap_append, hmessages]
    exact List.append_nil _
  · rw [handed, (hf.going hphase).1, hmessages]

theorem Faithful.accepted_isPrefix (hf : Faithful h delivered) : delivered <+: h.accepted := by
  by_cases hphase : h.dispatcher.phase = .ended
  · rw [hf.looked (by rw [hphase]; rfl)]
    exact hf.coherent.looked_isPrefix
  · exact ⟨_, (hf.going hphase).2.symm⟩

theorem Faithful.reports (hf : Faithful h delivered) : Reports h := by
  by_cases hphase : h.dispatcher.phase = .ended
  · obtain ⟨before, cause, hcalls, htold⟩ := hf.ended hphase
    rw [hf.looked (by rw [hphase]; rfl)] at hcalls
    refine .ended before cause hphase hcalls hf.coherent.looked_isPrefix htold (fun hearly => ?_)
      fun hlate => hf.coherent.late hlate before cause htold
    obtain ⟨before', cause', htold', hbefore⟩ := hf.coherent.early hearly
    rw [htold] at htold'
    cases htold'
    exact hbefore
  · obtain ⟨hcalls, haccepted⟩ := hf.going hphase
    exact .going delivered hphase hcalls haccepted

theorem Coherent.grow (hc : h.Coherent) (htold : h'.told = h.told) (hlooked : h'.looked = h.looked)
    (haccepted : h'.accepted = h.accepted ++ new) : h'.Coherent where
  told_isPrefix before cause ht := by
    rw [haccepted]
    exact (hc.told_isPrefix before cause (htold ▸ ht)).trans (List.prefix_append _ _)
  looked_isPrefix := by
    rw [haccepted, hlooked]
    exact hc.looked_isPrefix.trans (List.prefix_append _ _)
  early := by
    rw [htold, hlooked]
    exact hc.early
  late := by
    rw [htold, hlooked]
    exact hc.late

theorem Coherent.elsewhere (hc : h.Coherent) (d : Dispatcher) :
    Coherent { h with dispatcher := d } :=
  ⟨hc.told_isPrefix, hc.looked_isPrefix, hc.early, hc.late⟩

/-- As long as the handler is not called, nothing but the messages that are let in matters. -/
theorem Faithful.grow (hf : Faithful h delivered)
    (hcalls : h'.dispatcher.calls = h.dispatcher.calls)
    (hsignal : h'.dispatcher.signal = h.dispatcher.signal)
    (hphase : h'.dispatcher.phase = h.dispatcher.phase) (htold : h'.told = h.told)
    (hlooked : h'.looked = h.looked) (haccepted : h'.accepted = h.accepted ++ new)
    (hitems : h'.dispatcher.inbox.items = h.dispatcher.inbox.items ++ new) :
    Faithful h' delivered where
  coherent := hf.coherent.grow htold hlooked haccepted
  signal_eq := by rw [hsignal, htold, hf.signal_eq]
  going hgoing := by
    obtain ⟨hc, ha⟩ := hf.going (hphase ▸ hgoing)
    exact ⟨hcalls.trans hc, by rw [haccepted, ha, hitems, List.append_assoc]⟩
  looked hhas := by
    rw [hlooked]
    exact hf.looked (hphase ▸ hhas)
  ending cause hending := by
    obtain ⟨before, ht⟩ := hf.ending cause (hphase ▸ hending)
    exact ⟨before, htold.trans ht⟩
  ended hended := by
    obtain ⟨before, cause, hc, ht⟩ := hf.ended (hphase ▸ hended)
    exact ⟨before, cause, hcalls.trans hc, htold.trans ht⟩

/-- A dispatcher that has not seen the end has messages to be faithful about, and nothing else. -/
theorem faithful_of_going (hc : h.Coherent) (hsignal : h.dispatcher.signal = h.told.map Prod.snd)
    (hcalls : h.dispatcher.calls = delivered.map .message)
    (haccepted : h.accepted = delivered ++ h.dispatcher.inbox.items)
    (hlooked : h.dispatcher.phase.hasLooked = true → delivered = h.looked.accepted)
    (hgoing : h.dispatcher.isLeaving = false) : h.Faithful delivered where
  coherent := hc
  signal_eq := hsignal
  going _ := ⟨hcalls, haccepted⟩
  looked := hlooked
  ending cause hphase := by
    rw [isLeaving, hphase] at hgoing
    cases hgoing
  ended hphase := by
    rw [isLeaving, hphase] at hgoing
    cases hgoing

/-- As long as it has not reported the end, nothing keeps a dispatcher from turning to the next
message. -/
theorem Faithful.resume (hf : Faithful h delivered) (hphase : h.dispatcher.phase ≠ .ended) :
    Faithful { h with dispatcher := { h.dispatcher with phase := .idle } } delivered := by
  obtain ⟨hcalls, haccepted⟩ := hf.going hphase
  exact faithful_of_going (hf.coherent.elsewhere _) hf.signal_eq hcalls haccepted
    (fun hhas => by cases hhas) rfl

theorem told_announce {told : List Delivery × Cause} (h : History) (cause : Cause)
    (ht : h.told = some told) : (h.step (.announce cause)).told = some told := by
  simp only [step, ht, Option.some_or]

theorem Coherent.announce (hc : h.Coherent) (cause : Cause) :
    (h.step (.announce cause)).Coherent := by
  cases hold : h.told with
  | some told =>
    have htold : (h.step (.announce cause)).told = h.told := by
      rw [told_announce h cause hold, hold]
    exact hc.grow htold rfl rfl
  | none =>
    have htold : (h.step (.announce cause)).told = some (h.accepted, cause) := by
      simp only [step, hold, Option.none_or]
    have haccepted : (h.step (.announce cause)).accepted = h.accepted := List.append_nil _
    have hlooked : (h.step (.announce cause)).looked = h.looked := rfl
    refine ⟨fun before c ht => ?_, ?_, fun hearly => ?_, fun _ before c ht => ?_⟩
    · rw [htold] at ht
      cases ht
      exact haccepted ▸ List.prefix_rfl
    · rw [haccepted]
      exact hc.looked_isPrefix
    · -- what had not been announced had not been announced at the last look
      obtain ⟨before, c, ht, -⟩ := hc.early hearly
      rw [hold] at ht
      cases ht
    · rw [htold] at ht
      cases ht
      exact hc.looked_isPrefix

theorem Faithful.announce (hf : Faithful h delivered) (cause : Cause) :
    Faithful (h.step (.announce cause)) delivered where
  coherent := hf.coherent.announce cause
  signal_eq := by
    simp only [step, Dispatcher.step, Dispatcher.announce, hf.signal_eq]
    cases h.told <;> rfl
  going hphase := by
    obtain ⟨hcalls, haccepted⟩ := hf.going hphase
    exact ⟨hcalls, (List.append_nil _).trans haccepted⟩
  looked := hf.looked
  ending c hphase := by
    obtain ⟨before, ht⟩ := hf.ending c hphase
    exact ⟨before, h.told_announce cause ht⟩
  ended hphase := by
    obtain ⟨before, c, hcalls, ht⟩ := hf.ended hphase
    exact ⟨before, c, hcalls, h.told_announce cause ht⟩

/-- A look takes in all that has been let in and announced so far. -/
theorem Coherent.look (hc : h.Coherent) {d : Dispatcher} :
    Coherent ⟨d, h.accepted, h.told, ⟨h.accepted, h.told.isSome⟩⟩ where
  told_isPrefix := hc.told_isPrefix
  looked_isPrefix := List.prefix_rfl
  early hearly := by
    obtain ⟨⟨before, cause⟩, ht⟩ := Option.isSome_iff_exists.1 hearly
    exact ⟨before, cause, ht, hc.told_isPrefix before cause ht⟩
  late hlate before cause ht := by
    have hnone : h.told = none := Option.not_isSome_iff_eq_none.1 (Bool.eq_false_iff.1 hlate)
    rw [show h.told = some (before, cause) from ht] at hnone
    cases hnone

/-- **Looking for a message** calls the handler with the oldest one, or finds that all that were let
in have been passed on. -/
theorem Faithful.poll (hf : Faithful h delivered) :
    ∃ more, Faithful (h.step .poll) (delivered ++ more) := by
  obtain ⟨d, accepted, told, looked⟩ := h
  have hgoes := d.goes_step .poll
  simp only [step, accepts, List.append_nil]
  generalize d.step .poll = d' at hgoes
  cases hgoes with
  | stays _ hawaited =>
    have hphase : d.phase ≠ .idle := fun hidle => hawaited (by rw [hidle]; rfl)
    rw [if_neg hphase]
    exact ⟨[], by rwa [List.append_nil]⟩
  | @message x items held hphase _ hitems =>
    rw [if_pos hphase]
    obtain ⟨hcalls, hall⟩ := hf.going (by rw [hphase]; exact Phase.noConfusion)
    refine ⟨[x], faithful_of_going hf.coherent.look hf.signal_eq ?_ ?_ (fun h => by cases h) rfl⟩
    · rw [hcalls, List.map_append]
      rfl
    · rw [hall, hitems, List.append_assoc]
      rfl
  | misses hphase hitems =>
    rw [if_pos hphase]
    obtain ⟨hcalls, hall⟩ := hf.going (by rw [hphase]; exact Phase.noConfusion)
    refine ⟨[], ?_⟩
    rw [List.append_nil]
    refine faithful_of_going hf.coherent.look hf.signal_eq hcalls hall (fun _ => ?_) rfl
    rw [hitems, List.append_nil] at hall
    exact hall.symm

/-- **The other events of the dispatcher** have nothing to do with messages that were let in
meanwhile. -/
theorem Faithful.own (hf : Faithful h delivered) (hown : e.IsOwn) (hpoll : e ≠ .poll) :
    Faithful (h.step e) delivered := by
  obtain ⟨d, accepted, told, looked⟩ := h
  have hstep : History.step ⟨d, accepted, told, looked⟩ e = ⟨d.step e, accepted, told, looked⟩ := by
    cases hown with
    | poll => exact absurd rfl hpoll
    | start | check | finish | conclude => simp only [step, accepts, List.append_nil]
  have hgoes := d.goes_step e
  rw [hstep]
  generalize d.step e = d' at hgoes
  cases hgoes with
  | stays => exact hf
  | starts hphase | resumes hphase | returns hphase =>
    exact hf.resume (by rw [hphase]; exact Phase.noConfusion)
  | @sees cause hphase hsignal =>
    have hgoing := hf.going (by rw [hphase]; exact Phase.noConfusion)
    refine ⟨hf.coherent.elsewhere _, hf.signal_eq, fun _ => hgoing,
      fun _ => hf.looked (by rw [hphase]; rfl), fun c hc => ?_, fun hended => by cases hended⟩
    cases hc
    have hsome := hf.signal_eq
    rw [hsignal] at hsome
    obtain ⟨⟨before, cause'⟩, htold, rfl⟩ := Option.map_eq_some_iff.1 hsome.symm
    exact ⟨before, htold⟩
  | @reports cause hphase =>
    obtain ⟨hcalls, -⟩ := hf.going (by rw [hphase]; exact Phase.noConfusion)
    obtain ⟨before, htold⟩ := hf.ending cause hphase
    have hlooked := hf.looked (by rw [hphase]; rfl)
    refine ⟨hf.coherent.elsewhere _, hf.signal_eq, fun h => absurd rfl h, fun _ => hlooked,
      fun _ hending => (by cases hending), fun _ => ⟨before, cause, ?_, htold⟩⟩
    rw [hcalls]
  | message | misses => exact absurd rfl hpoll
  | offers | holds | settles | forgets | announces => cases hown

/-- **Every event** leaves the handler told the truth, and what it was told is not taken back. -/
theorem Faithful.step (hf : Faithful h delivered) (e : Event) :
    ∃ more, Faithful (h.step e) (delivered ++ more) := by
  by_cases hpoll : e = .poll
  · subst hpoll
    exact hf.poll
  -- nothing else calls the handler with a message
  refine ⟨[], ?_⟩
  rw [List.append_nil]
  cases e with
  | start => exact hf.own .start hpoll
  | check => exact hf.own .check hpoll
  | finish => exact hf.own .finish hpoll
  | conclude => exact hf.own .conclude hpoll
  | announce cause => exact hf.announce cause
  | offer _ | hold _ | settle | forget =>
    exact hf.grow rfl rfl rfl rfl rfl rfl (items_step Event.noConfusion Event.noConfusion)
  | poll => exact absurd rfl hpoll

theorem Faithful.run (hf : Faithful h delivered) (es : List Event) :
    ∃ more, Faithful (h.run es) (delivered ++ more) := by
  induction es generalizing h delivered with
  | nil => exact ⟨[], by rwa [List.append_nil]⟩
  | cons e es ih =>
    obtain ⟨more, hstep⟩ := hf.step e
    obtain ⟨evenMore, hrun⟩ := ih hstep
    exact ⟨more ++ evenMore, by rwa [List.append_assoc] at hrun⟩

end History

end Dispatcher

end Tandem
