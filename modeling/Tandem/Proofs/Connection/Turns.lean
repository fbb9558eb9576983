import Tandem.Proofs.Connection.History

/-!
# Telling the end

A dispatcher to which the end was announced waits for one event at a time: for the return of the
handler, for its turn to look for a message or for the end, or for its turn to report the end.  None
of these is in vain (`History.Ending.remaining_run_of_awaited`), so the handler is told the end once
each of them has happened often enough (`History.Ending.ended_of_turns`).
-/

namespace Tandem.Dispatcher

variable {d d' : Dispatcher} {e : Event}

/-- How many events of the kind it waits for a dispatcher needs to come to the end, if no more
messages are let in. -/
def remaining (d : Dispatcher) : Nat :=
  match d.phase with
  | .ended => 0
  | .ending _ => 2 * d.inbox.items.length + 1
  | .checking => 2 * d.inbox.items.length + 2
  | .idle => 2 * d.inbox.items.length + 3
  | .calling | .unstarted => 2 * d.inbox.items.length + 4

theorem ended_of_remaining (h : d.remaining = 0) : d.phase = .ended := by
  unfold remaining at h
  split at h
  · assumption
  all_goals omega

theorem remaining_le_of_phase {n : Nat} (hphase : d'.phase = d.phase)
    (hitems : d'.inbox.items.length = d.inbox.items.length + n) :
    d'.remaining ≤ d.remaining + 2 * n := by
  unfold remaining
  rw [hphase, hitems]
  split <;> omega

theorem remaining_step_of_awaited (h : d.phase.awaited = some e) (hsignal : d.signal.isSome) :
    (d.step e).remaining < d.remaining := by
  have hgoes := d.goes_step e
  generalize d.step e = d' at hgoes
  cases hgoes with
  | stays _ hawaited => exact absurd h hawaited
  | message hphase _ hitems =>
    simp only [remaining, hphase, hitems, List.length_cons]
    omega
  | misses hphase | sees hphase | returns hphase | reports hphase =>
    simp only [remaining, hphase]
    omega
  | resumes _ hnone =>
    rw [hnone] at hsignal
    cases hsignal
  | starts | offers | holds | settles | forgets | announces =>
    exact absurd h (awaited_ne_of_quiet (by constructor) _)

theorem phase_step_of_not_awaited (h : d.phase.awaited ≠ some e)
    (hstart : e = .start → d.phase ≠ .unstarted) : (d.step e).phase = d.phase := by
  have hgoes := d.goes_step e
  generalize d.step e = d' at hgoes
  cases hgoes with
  | stays | offers | holds | settles | forgets | announces => rfl
  | starts hphase => exact absurd hphase (hstart rfl)
  | message hphase | misses hphase | resumes hphase | sees hphase | returns hphase
  | reports hphase => exact absurd (by rw [hphase]; rfl) h

theorem phase_run_of_not_awaited {es : List Event} (h : ∀ e ∈ es, d.phase.awaited ≠ some e)
    (hstarted : d.phase ≠ .unstarted) : (d.run es).phase = d.phase := by
  induction es generalizing d with
  | nil => rfl
  | cons e es ih =>
    have hstep : (d.step e).phase = d.phase :=
      phase_step_of_not_awaited (h e List.mem_cons_self) fun _ => hstarted
    have hrest := ih (d := d.step e) (fun e' h' => hstep ▸ h e' (List.mem_cons_of_mem _ h'))
      (hstep ▸ hstarted)
    exact hrest.trans hstep

theorem items_step_of_not_awaited (h : d.phase.awaited ≠ some e) :
    (d.step e).inbox.items = d.inbox.items ++ d.accepts e := by
  refine items_step (fun he hphase => h ?_) fun he cause hphase => h ?_ <;>
    · rw [hphase, he]
      rfl

theorem started_step (h : d.phase ≠ .unstarted) (e : Event) : (d.step e).phase ≠ .unstarted := by
  have hgoes := d.goes_step e
  generalize d.step e = d' at hgoes
  cases hgoes with
  | stays | offers | holds | settles | forgets | announces => exact h
  | starts | message | misses | resumes | sees | returns | reports => exact Phase.noConfusion

theorem unstarted_step_iff (hstart : e ≠ .start) :
    (d.step e).phase = .unstarted ↔ d.phase = .unstarted := by
  constructor
  · intro h
    by_contra hne
    exact started_step hne e h
  · intro h
    have hnone : d.phase.awaited ≠ some e := by
      rw [h]
      exact (Option.some_ne_none e).symm
    rwa [phase_step_of_not_awaited hnone fun heq => absurd heq hstart]

namespace History

variable {h : History}

/-- A dispatcher that was started, and to which the end was announced. -/
structure Ending (h : History) : Prop where
  started : h.dispatcher.phase ≠ .unstarted
  signal : h.dispatcher.signal.isSome

theorem Ending.step (he : h.Ending) (e : Event) : (h.step e).Ending := by
  obtain ⟨cause, hcause⟩ := Option.isSome_iff_exists.1 he.signal
  exact ⟨started_step he.started e, Option.isSome_iff_exists.2 ⟨cause, signal_step hcause e⟩⟩

theorem Ending.remaining_step_of_awaited (he : h.Ending) {e : Event}
    (ha : h.dispatcher.phase.awaited = some e) :
    (h.step e).dispatcher.remaining + 2 * h.accepted.length <
      h.dispatcher.remaining + 2 * (h.step e).accepted.length := by
  have hlt := Dispatcher.remaining_step_of_awaited ha he.signal
  have hlen : h.accepted.length ≤ (h.step e).accepted.length := (List.prefix_append _ _).length_le
  rw [show (h.step e).dispatcher = h.dispatcher.step e from rfl]
  omega

/-- What there is to do grows with the messages that are let in only. -/
theorem Ending.remaining_step (he : h.Ending) (e : Event) :
    (h.step e).dispatcher.remaining + 2 * h.accepted.length ≤
      h.dispatcher.remaining + 2 * (h.step e).accepted.length := by
  by_cases ha : h.dispatcher.phase.awaited = some e
  · exact Nat.le_of_lt (he.remaining_step_of_awaited ha)
  · have hle := remaining_le_of_phase (phase_step_of_not_awaited ha fun _ => he.started)
      (by rw [items_step_of_not_awaited ha, List.length_append])
    have hlen : (h.step e).accepted.length =
        h.accepted.length + (h.dispatcher.accepts e).length := List.length_append
    rw [show (h.step e).dispatcher = h.dispatcher.step e from rfl]
    omega

theorem Ending.remaining_run (he : h.Ending) (es : List Event) :
    (h.run es).dispatcher.remaining + 2 * h.accepted.length ≤
      h.dispatcher.remaining + 2 * (h.run es).accepted.length := by
  induction es generalizing h with
  | nil => exact Nat.le_refl _
  | cons e es ih =>
    have hstep := he.remaining_step e
    have hrun := ih (he.step e)
    simp only [run, List.foldl_cons] at hrun ⊢
    omega

theorem Ending.run (he : h.Ending) (es : List Event) : (h.run es).Ending := by
  induction es generalizing h with
  | nil => exact he
  | cons e es ih => exact ih (he.step e)

theorem ended_run (hphase : h.dispatcher.phase = .ended) (es : List Event) :
    (h.run es).dispatcher.phase = .ended ∧ (h.run es).dispatcher.calls = h.dispatcher.calls := by
  induction es generalizing h with
  | nil => exact ⟨hphase, rfl⟩
  | cons e es ih =>
    cases h.dispatcher.serves_step e with
    | quiet hcalls _ hended =>
      obtain ⟨hp, hc⟩ := ih (h := h.step e) (hended hphase)
      exact ⟨hp, hc.trans hcalls⟩
    | message _ hidle => rw [hphase] at hidle; cases hidle
    | disconnected _ hending => rw [hphase] at hending; cases hending

/-- Whatever else happens before it, the event that the dispatcher waits for is not in vain. -/
theorem Ending.remaining_run_of_awaited (he : h.Ending) {e : Event} {es : List Event}
    (ha : h.dispatcher.phase.awaited = some e) (hmem : e ∈ es) :
    (h.run es).dispatcher.remaining + 2 * h.accepted.length <
      h.dispatcher.remaining + 2 * (h.run es).accepted.length := by
  -- over the events; up to the one that it waits for, the dispatcher stays in its phase
  induction es generalizing h with
  | nil => cases hmem
  | cons e' es ih =>
    rw [show h.run (e' :: es) = (h.step e').run es from rfl]
    by_cases heq : h.dispatcher.phase.awaited = some e'
    · have hstep := he.remaining_step_of_awaited heq
      have hrun := (he.step e').remaining_run es
      omega
    · have hne : e ≠ e' := fun h => heq (h ▸ ha)
      have hphase : (h.step e').dispatcher.phase = h.dispatcher.phase :=
        phase_step_of_not_awaited heq fun _ => he.started
      have hstep := he.remaining_step e'
      have hrun := ih (he.step e') (hphase ▸ ha) ((List.mem_cons.1 hmem).resolve_left hne)
      omega

/-- Events among which the handler returns, and the dispatcher looks for a message, looks for the
end and reports it. -/
structure IsTurn (es : List Event) : Prop where
  finish : .finish ∈ es
  poll : .poll ∈ es
  check : .check ∈ es
  conclude : .conclude ∈ es

theorem IsTurn.mem_of_awaited {es : List Event} (ht : IsTurn es) {phase : Phase} {e : Event}
    (ha : phase.awaited = some e) : e ∈ es := by
  cases phase with
  | calling => cases ha; exact ht.finish
  | idle => cases ha; exact ht.poll
  | checking => cases ha; exact ht.check
  | ending cause => cases ha; exact ht.conclude
  | unstarted | ended => cases ha

/-- Every turn takes a dispatcher nearer to the end, as far as no messages are let in. -/
theorem Ending.remaining_turns (he : h.Ending) (turns : List (List Event))
    (hturns : ∀ es ∈ turns, IsTurn es) :
    (h.run turns.flatten).dispatcher.phase = .ended ∨
      (h.run turns.flatten).dispatcher.remaining + 2 * h.accepted.length + turns.length ≤
        h.dispatcher.remaining + 2 * (h.run turns.flatten).accepted.length := by
  induction turns generalizing h with
  | nil => exact .inr (Nat.le_refl _)
  | cons es turns ih =>
    rw [List.flatten_cons, show h.run (es ++ turns.flatten) = (h.run es).run turns.flatten from
      List.foldl_append]
    rcases ih (he.run es) fun es' h' => hturns es' (List.mem_cons_of_mem _ h') with hended | hle
    · exact .inl hended
    · cases ha : h.dispatcher.phase.awaited with
      | some e =>
        have hlt := he.remaining_run_of_awaited ha
          ((hturns es List.mem_cons_self).mem_of_awaited ha)
        refine .inr ?_
        rw [List.length_cons]
        omega
      | none =>
        -- a started dispatcher that waits for nothing has come to the end
        have hended : h.dispatcher.phase = .ended := by
          cases hphase : h.dispatcher.phase with
          | unstarted => exact absurd hphase he.started
          | ended => rfl
          | idle | calling | checking | ending _ => rw [hphase] at ha; cases ha
        exact .inl (ended_run (ended_run hended es).1 _).1

/-- **The handler is told the end** once there were enough turns: two for each message that waits or
is let in, and four. -/
theorem Ending.ended_of_turns (he : h.Ending) (turns : List (List Event))
    (hturns : ∀ es ∈ turns, IsTurn es)
    (hlen : h.dispatcher.remaining + 2 * (h.run turns.flatten).accepted.length ≤
      turns.length + 2 * h.accepted.length) :
    (h.run turns.flatten).dispatcher.phase = .ended := by
  rcases he.remaining_turns turns hturns with hended | hle
  · exact hended
  · exact ended_of_remaining (by omega)

end History

end Tandem.Dispatcher
