import Tandem.Proofs.Connection.Turns

/-!
# Handing messages over

A dispatcher that has not seen the end goes on to look for messages.  As long as there are some, it
hands over one after the other, and does not get to look for the end; so all that have been let in
are handed over after enough turns, whether the end is announced meanwhile or not
(`History.Faithful.arrives_of_turns`).  Only one that has just found no message may see the end
before it looks again.
-/

namespace Tandem.Dispatcher

variable {d d' : Dispatcher} {e : Event}

theorem handed_step (d : Dispatcher) (e : Event) : d.handed <+: (d.step e).handed := by
  cases d.serves_step e with
  | quiet hcalls => rw [handed, handed, hcalls]
  | message _ _ _ hcalls | disconnected _ _ _ hcalls =>
    rw [handed, handed, hcalls, List.filterMap_append]
    exact List.prefix_append _ _

theorem handed_run (d : Dispatcher) (es : List Event) : d.handed <+: (d.run es).handed := by
  induction es generalizing d with
  | nil => exact List.prefix_rfl
  | cons e es ih => exact (d.handed_step e).trans (ih (d.step e))

theorem signal_of_run {es : List Event} (h : (d.run es).signal = none) : d.signal = none := by
  induction es generalizing d with
  | nil => exact h
  | cons e es ih =>
    cases hsignal : d.signal with
    | none => rfl
    | some cause =>
      have hstep := signal_step hsignal e
      rw [ih (d := d.step e) h] at hstep
      cases hstep

/-- How many events of the kind it waits for a dispatcher needs to have handed over `n` messages. -/
def lacking (d : Dispatcher) (n : Nat) : Nat :=
  2 * (n - d.handed.length) + if d.phase = .idle then 0 else 1

/-- A dispatcher goes on to hand messages over. -/
structure Advances (d d' : Dispatcher) (n : Nat) : Prop where
  started : d'.phase ≠ .unstarted
  going : d'.isLeaving = false
  checking : d'.phase = .checking → d.phase = .checking
  lacking_le : d'.lacking n ≤ d.lacking n

variable {n : Nat}

theorem Advances.trans {d'' : Dispatcher} (h : d.Advances d' n) (h' : d'.Advances d'' n) :
    d.Advances d'' n :=
  ⟨h'.started, h'.going, h.checking ∘ h'.checking, h'.lacking_le.trans h.lacking_le⟩

theorem advances_of_not_awaited (h : d.phase.awaited ≠ some e) (hstarted : d.phase ≠ .unstarted)
    (hgoing : d.isLeaving = false) : d.Advances (d.step e) n := by
  have hphase := phase_step_of_not_awaited h fun _ => hstarted
  have hhanded : (d.step e).handed = d.handed := by
    cases d.serves_step e with
    | quiet hcalls => rw [handed, handed, hcalls]
    | message _ hidle hcalling =>
      rw [hphase, hidle] at hcalling
      cases hcalling
    | disconnected _ hending hended =>
      rw [hphase, hending] at hended
      cases hended
  refine ⟨by rwa [hphase], by rwa [isLeaving, hphase], fun hc => by rwa [hphase] at hc, ?_⟩
  rw [lacking, lacking, hphase, hhanded]

theorem advances_idle (h : d.phase ≠ .idle) :
    d.Advances { d with phase := .idle } n ∧ lacking { d with phase := .idle } n < d.lacking n := by
  have hlt : lacking { d with phase := .idle } n < d.lacking n := by
    simp only [lacking, h, handed, if_true, if_false]
    exact Nat.lt_succ_self _
  exact ⟨⟨Phase.noConfusion, rfl, Phase.noConfusion, Nat.le_of_lt hlt⟩, hlt⟩

namespace History

variable {h : History} {delivered : List Delivery}

/-- **The event that it waits for** takes a dispatcher nearer to handing over what has been let
in. -/
theorem Faithful.advances_of_awaited (hf : h.Faithful delivered) (hn : n ≤ h.accepted.length)
    (hmore : h.dispatcher.handed.length < n) (ha : h.dispatcher.phase.awaited = some e)
    (hgoing : h.dispatcher.isLeaving = false)
    (hsignal : h.dispatcher.phase = .checking → h.dispatcher.signal = none) :
    h.dispatcher.Advances (h.dispatcher.step e) n ∧
      (h.dispatcher.step e).lacking n < h.dispatcher.lacking n := by
  have hgoes := h.dispatcher.goes_step e
  generalize h.dispatcher.step e = d' at hgoes
  cases hgoes with
  | stays _ hawaited => exact absurd ha hawaited
  | resumes hphase | returns hphase =>
    exact advances_idle (by rw [hphase]; exact Phase.noConfusion)
  | misses hphase hitems =>
    -- all that has been let in was handed over
    rw [(hf.going (by rw [hphase]; exact Phase.noConfusion)).2, hitems, List.append_nil,
      ← hf.handed_eq] at hn
    exact absurd hn (Nat.not_le.2 hmore)
  | @message x items held hphase =>
    have hhanded : (h.dispatcher.calls ++ [Call.message x]).filterMap Call.delivery? =
        h.dispatcher.handed ++ [x] := List.filterMap_append
    have hlt : Dispatcher.lacking { h.dispatcher with
        inbox := { h.dispatcher.inbox with items, held }, phase := .calling,
        calls := h.dispatcher.calls ++ [.message x] } n < h.dispatcher.lacking n := by
      rw [lacking, lacking, hphase, handed, hhanded, List.length_append, List.length_singleton]
      simp only [reduceCtorEq, if_true, if_false]
      omega
    exact ⟨⟨Phase.noConfusion, rfl, Phase.noConfusion, Nat.le_of_lt hlt⟩, hlt⟩
  | sees hphase hsome =>
    rw [hsignal hphase] at hsome
    cases hsome
  | reports hphase =>
    rw [isLeaving, hphase] at hgoing
    cases hgoing
  | starts | offers | holds | settles | forgets | announces =>
    exact absurd ha (awaited_ne_of_quiet (by constructor) _)

/-- Whatever else happens, the dispatcher goes on until the messages are handed over, and the event
that it waits for is not in vain. -/
theorem Faithful.advances_run (hf : h.Faithful delivered) (hn : n ≤ h.accepted.length)
    (hstarted : h.dispatcher.phase ≠ .unstarted) (hgoing : h.dispatcher.isLeaving = false)
    (es : List Event)
    (hsignal : h.dispatcher.phase = .checking → (h.dispatcher.run es).signal = none) :
    n ≤ (h.run es).dispatcher.handed.length ∨
      h.dispatcher.Advances (h.run es).dispatcher n ∧
        ∀ e, h.dispatcher.phase.awaited = some e → e ∈ es →
          (h.run es).dispatcher.lacking n < h.dispatcher.lacking n := by
  induction es generalizing h delivered with
  | nil => exact .inr ⟨⟨hstarted, hgoing, id, Nat.le_refl _⟩, fun e _ hmem => by cases hmem⟩
  | cons e es ih =>
    by_cases hmore : h.dispatcher.handed.length < n
    · have hnow : h.dispatcher.phase = .checking → h.dispatcher.signal = none := fun hc =>
        signal_of_run (hsignal hc)
      obtain ⟨more, hf'⟩ := hf.step e
      have hn' : n ≤ (h.step e).accepted.length := hn.trans (List.prefix_append _ _).length_le
      by_cases hawaited : h.dispatcher.phase.awaited = some e
      · obtain ⟨hstep, hlt⟩ := hf.advances_of_awaited hn hmore hawaited hgoing hnow
        rcases ih hf' hn' hstep.started hstep.going fun hc => hsignal (hstep.checking hc) with
          hdone | ⟨hrun, -⟩
        · exact .inl hdone
        · exact .inr ⟨hstep.trans hrun, fun _ _ _ => Nat.lt_of_le_of_lt hrun.lacking_le hlt⟩
      · have hstep : h.dispatcher.Advances (h.step e).dispatcher n :=
          advances_of_not_awaited hawaited hstarted hgoing
        rcases ih hf' hn' hstep.started hstep.going fun hc => hsignal (hstep.checking hc) with
          hdone | ⟨hrun, hless⟩
        · exact .inl hdone
        · -- until the event that it waits for, the dispatcher stays in its phase
          refine .inr ⟨hstep.trans hrun, fun e' ha hmem => ?_⟩
          have hne : e' ≠ e := fun heq => hawaited (heq ▸ ha)
          have hphase : (h.step e).dispatcher.phase = h.dispatcher.phase :=
            phase_step_of_not_awaited hawaited fun _ => hstarted
          exact Nat.lt_of_lt_of_le
            (hless e' (hphase ▸ ha) ((List.mem_cons.1 hmem).resolve_left hne)) hstep.lacking_le
    · refine .inl ((Nat.not_lt.1 hmore).trans ?_)
      rw [dispatcher_run]
      exact (h.dispatcher.handed_run (e :: es)).length_le

theorem Faithful.advances_turns (hf : h.Faithful delivered) (hn : n ≤ h.accepted.length)
    (hstarted : h.dispatcher.phase ≠ .unstarted) (hgoing : h.dispatcher.isLeaving = false)
    (turns : List (List Event)) (hturns : ∀ es ∈ turns, IsTurn es)
    (hsignal : h.dispatcher.phase = .checking → (h.dispatcher.run turns.flatten).signal = none) :
    n ≤ (h.run turns.flatten).dispatcher.handed.length ∨
      (h.run turns.flatten).dispatcher.lacking n + turns.length ≤ h.dispatcher.lacking n := by
  induction turns generalizing h delivered with
  | nil => exact .inr (Nat.le_refl _)
  | cons es turns ih =>
    have hrun : h.run (es :: turns).flatten = (h.run es).run turns.flatten := List.foldl_append
    have hrest : h.dispatcher.run (es :: turns).flatten =
        (h.dispatcher.run es).run turns.flatten := List.foldl_append
    have hfirst : h.dispatcher.phase = .checking → (h.dispatcher.run es).signal = none := fun hc =>
      signal_of_run (hrest ▸ hsignal hc)
    rw [hrun]
    obtain ⟨more, hf'⟩ := hf.run es
    rcases hf.advances_run hn hstarted hgoing es hfirst with hdone | ⟨hadvances, hless⟩
    · refine .inl (hdone.trans ?_)
      rw [dispatcher_run (h.run es)]
      exact ((h.run es).dispatcher.handed_run turns.flatten).length_le
    · have hnext :=
        ih hf' (hn.trans (h.accepted_run es).length_le) hadvances.started hadvances.going
        (fun es' hmem => hturns es' (List.mem_cons_of_mem _ hmem)) fun hc => by
          rw [dispatcher_run, ← hrest]
          exact hsignal (hadvances.checking hc)
      rcases hnext with hdone | hle
      · exact .inl hdone
      · -- a dispatcher that goes on waits for one of the events of a turn
        have hawaited : ∃ e, h.dispatcher.phase.awaited = some e := by
          cases hphase : h.dispatcher.phase with
          | unstarted => exact absurd hphase hstarted
          | idle | calling | checking => exact ⟨_, rfl⟩
          | ending _ | ended =>
            rw [isLeaving, hphase] at hgoing
            cases hgoing
        obtain ⟨e, ha⟩ := hawaited
        have hlt := hless e ha ((hturns es List.mem_cons_self).mem_of_awaited ha)
        refine .inr ?_
        rw [List.length_cons]
        omega

/-- **What was let in is handed over** once there were enough turns, two for each message that
waits, whether the end is announced meanwhile or not.  Only a dispatcher that has just found no
message may see the end instead. -/
theorem Faithful.arrives_of_turns (hf : h.Faithful delivered)
    (hstarted : h.dispatcher.phase ≠ .unstarted) (hgoing : h.dispatcher.isLeaving = false)
    (turns : List (List Event)) (hturns : ∀ es ∈ turns, IsTurn es)
    (hsignal : h.dispatcher.phase = .checking → (h.dispatcher.run turns.flatten).signal = none)
    (hlen : 2 * h.dispatcher.inbox.items.length ≤ turns.length) :
    h.accepted <+: (h.run turns.flatten).dispatcher.handed := by
  obtain ⟨more, hf'⟩ := hf.run turns.flatten
  have hphase : h.dispatcher.phase ≠ .ended := fun hended => by
    rw [isLeaving, hended] at hgoing
    cases hgoing
  have hall := congrArg List.length (hf.going hphase).2
  rw [List.length_append, ← hf.handed_eq] at hall
  have hle : h.accepted.length ≤ (h.run turns.flatten).dispatcher.handed.length := by
    by_contra hless
    rcases hf.advances_turns (Nat.le_refl _) hstarted hgoing turns hturns hsignal with hdone | hle
    · exact hless hdone
    · rw [lacking, lacking] at hle
      split_ifs at hle <;> omega
  rw [hf'.handed_eq] at hle ⊢
  exact List.prefix_of_prefix_length_le (h.accepted_run _) hf'.accepted_isPrefix hle

end History

end Tandem.Dispatcher
