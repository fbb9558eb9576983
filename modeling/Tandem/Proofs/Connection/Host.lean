import Tandem.Proofs.Connection.Arrivals

/-!
# A dispatcher as part of a larger system

A dispatcher is part of a connection, and of all that a connection is part of.  `Host` says what the
events of such a system are for the dispatcher, and `Host.tells` what this means for the handler.
-/

namespace Tandem.Dispatcher

/-- A system that a dispatcher is part of, and what its events are for the dispatcher. -/
structure Host (σ ε : Type) where
  step : σ → ε → σ
  history : σ → History
  events : σ → ε → List Event
  history_step : ∀ s e, history (step s e) = (history s).run (events s e)
  serves : ∀ s e, (history s).dispatcher.Serves (history (step s e)).dispatcher

namespace Host

variable {σ ε : Type} (H : Host σ ε)

/-- What becomes of a system by events, one after the other. -/
def run (s : σ) (es : List ε) : σ := es.foldl H.step s

/-- What events, one after the other, are for the dispatcher. -/
def dispatched (s : σ) : List ε → List Event
  | [] => []
  | e :: es => H.events s e ++ dispatched (H.step s e) es

/-- Events that are a turn of the dispatcher, whatever the state is. -/
def IsTurn (es : List ε) : Prop :=
  ∀ x, x = .finish ∨ x = .poll ∨ x = .check ∨ x = .conclude → ∃ e ∈ es, ∀ s, x ∈ H.events s e

/-- What the handler is told in all runs of a system. -/
structure Tells (s : σ) : Prop where
  /-- messages in order, and the end behind those that the dispatcher has looked for -/
  reports : ∀ es : List ε, (H.history (H.run s es)).Reports
  /-- by one call at a time, and nothing after the end -/
  serves : ∀ (es : List ε) (e : ε), (H.history (H.run s es)).dispatcher.Serves
    (H.history (H.step (H.run s es) e)).dispatcher
  /-- all that was let in is handed over after enough turns, whether the end is announced meanwhile
  or not, unless the dispatcher has just found no message and sees the end instead -/
  arrives : ∀ (es : List ε) (turns : List (List ε)),
    (H.history (H.run s es)).dispatcher.phase ≠ .unstarted →
    (H.history (H.run s es)).dispatcher.isLeaving = false →
    ((H.history (H.run s es)).dispatcher.phase = .checking →
      (H.history (H.run s (es ++ turns.flatten))).told = none) →
    (∀ turn ∈ turns, H.IsTurn turn) →
    2 * (H.history (H.run s es)).dispatcher.inbox.items.length ≤ turns.length →
    (H.history (H.run s es)).accepted <+:
      (H.history (H.run s (es ++ turns.flatten))).dispatcher.handed
  /-- and it is told the end after enough turns, once it was announced -/
  ends : ∀ (es : List ε) (turns : List (List ε)),
    (H.history (H.run s es)).dispatcher.phase ≠ .unstarted →
    (H.history (H.run s es)).told.isSome → (∀ turn ∈ turns, H.IsTurn turn) →
    (H.history (H.run s es)).dispatcher.remaining +
        2 * (H.history (H.run s (es ++ turns.flatten))).accepted.length ≤
      turns.length + 2 * (H.history (H.run s es)).accepted.length →
    (H.history (H.run s (es ++ turns.flatten))).dispatcher.phase = .ended

/-- When the handler is told the end, it has heard all that was let in before the end was
announced. -/
def HearsAll (s : σ) : Prop :=
  ∀ (es : List ε) (before : List Delivery) (cause : Cause),
    (H.history (H.run s es)).dispatcher.phase = .ended →
    (H.history (H.run s es)).told = some (before, cause) →
    before <+: (H.history (H.run s es)).dispatcher.handed

variable {H}

theorem history_run (s : σ) (es : List ε) :
    H.history (H.run s es) = (H.history s).run (H.dispatched s es) := by
  induction es generalizing s with
  | nil => rfl
  | cons e es ih =>
    rw [show H.run s (e :: es) = H.run (H.step s e) es from rfl, ih, H.history_step, dispatched]
    exact List.foldl_append.symm

theorem dispatched_append (s : σ) (es fs : List ε) :
    H.dispatched s (es ++ fs) = H.dispatched s es ++ H.dispatched (H.run s es) fs := by
  induction es generalizing s with
  | nil => rfl
  | cons e es ih =>
    rw [List.cons_append, dispatched, dispatched, ih, List.append_assoc]
    rfl

theorem mem_dispatched {x : Event} {e : ε} {es : List ε} (hmem : e ∈ es)
    (hx : ∀ s, x ∈ H.events s e) (s : σ) : x ∈ H.dispatched s es := by
  induction es generalizing s with
  | nil => cases hmem
  | cons e' es ih =>
    rw [dispatched, List.mem_append]
    rcases List.mem_cons.1 hmem with rfl | hmem
    · exact .inl (hx s)
    · exact .inr (ih hmem _)

theorem IsTurn.dispatched {es : List ε} (ht : H.IsTurn es) (s : σ) :
    History.IsTurn (H.dispatched s es) where
  finish := by
    obtain ⟨e, hmem, hx⟩ := ht .finish (.inl rfl)
    exact mem_dispatched hmem hx s
  poll := by
    obtain ⟨e, hmem, hx⟩ := ht .poll (.inr (.inl rfl))
    exact mem_dispatched hmem hx s
  check := by
    obtain ⟨e, hmem, hx⟩ := ht .check (.inr (.inr (.inl rfl)))
    exact mem_dispatched hmem hx s
  conclude := by
    obtain ⟨e, hmem, hx⟩ := ht .conclude (.inr (.inr (.inr rfl)))
    exact mem_dispatched hmem hx s

theorem exists_turns (s : σ) (turns : List (List ε)) (hturns : ∀ turn ∈ turns, H.IsTurn turn) :
    ∃ turns' : List (List Event), turns'.length = turns.length ∧
      (∀ turn ∈ turns', History.IsTurn turn) ∧ H.dispatched s turns.flatten = turns'.flatten := by
  induction turns generalizing s with
  | nil => exact ⟨[], rfl, fun _ h => (List.not_mem_nil h).elim, rfl⟩
  | cons turn turns ih =>
    obtain ⟨turns', hlen, hall, heq⟩ := ih (H.run s turn) fun t ht =>
      hturns t (List.mem_cons_of_mem _ ht)
    refine ⟨H.dispatched s turn :: turns', congrArg (· + 1) hlen, fun t ht => ?_, ?_⟩
    · rcases List.mem_cons.1 ht with rfl | ht
      · exact (hturns turn List.mem_cons_self).dispatched s
      · exact hall t ht
    · rw [List.flatten_cons, dispatched_append, heq, List.flatten_cons]

/-- **In every system that a dispatcher is part of**, the handler is told the messages in order, and
then the end. -/
theorem tells {s : σ} (hs : (H.history s).Faithful []) : H.Tells s where
  reports es := by
    obtain ⟨more, hf⟩ := hs.run (H.dispatched s es)
    rw [history_run]
    exact hf.reports
  serves es e := H.serves _ e
  arrives es turns hstarted hgoing hchecking hturns hlen := by
    obtain ⟨_, hf⟩ := hs.run (H.dispatched s es)
    obtain ⟨_, hlater⟩ := hs.run (H.dispatched s (es ++ turns.flatten))
    rw [← history_run] at hf hlater
    have hrun : H.run s (es ++ turns.flatten) = H.run (H.run s es) turns.flatten :=
      List.foldl_append
    obtain ⟨turns', hlength, hturns', heq⟩ := exists_turns (H.run s es) turns hturns
    have hhistory : H.history (H.run s (es ++ turns.flatten)) =
        (H.history (H.run s es)).run turns'.flatten := by
      rw [hrun, history_run (H.run s es), heq]
    rw [hhistory] at hchecking hlater ⊢
    refine hf.arrives_of_turns hstarted hgoing turns' hturns' (fun hc => ?_) (by rwa [hlength])
    -- what was not told was not announced
    have hsignal := hlater.signal_eq
    rwa [hchecking hc, Option.map_none, History.dispatcher_run] at hsignal
  ends es turns hstarted htold hturns hlen := by
    obtain ⟨more, hf⟩ := hs.run (H.dispatched s es)
    rw [← history_run] at hf
    have hending : (H.history (H.run s es)).Ending := by
      refine ⟨hstarted, ?_⟩
      rw [hf.signal_eq, Option.isSome_map]
      exact htold
    have hrun : H.run s (es ++ turns.flatten) = H.run (H.run s es) turns.flatten :=
      List.foldl_append
    obtain ⟨turns', hlength, hturns', heq⟩ := exists_turns (H.run s es) turns hturns
    rw [hrun, history_run (H.run s es), heq] at hlen ⊢
    exact hending.ended_of_turns turns' hturns' (by rwa [hlength])

end Host

end Tandem.Dispatcher
