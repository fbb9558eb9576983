import Tandem.Proofs.Connection.Inbox

/-!
# Nothing gets stuck

Bytes that are written or read, and messages that wait for the handler, are work that is left to do.
A connection that is in order (`Connection.Lively`) always has an event before it that leaves less
of it (`Connection.exists_serving`, `unheard_read`, `unwritten_write`), unless there is none.  In
particular a body of the stream waits for a place in the inbox only as long as the handler has
messages to be called with.
-/

namespace Tandem

namespace Dispatcher

variable {d : Dispatcher} {e : Event}

/-- Messages find a place, and nothing is left when the end was reported. -/
structure Orderly (d : Dispatcher) : Prop where
  fits : d.inbox.Fits
  capacity_pos : 0 < d.inbox.capacity
  ended : d.phase = .ended → d.inbox.Shut

theorem orderly_create {capacity : Nat} (h : 0 < capacity) : (create capacity).Orderly where
  fits := Inbox.fits_empty capacity
  capacity_pos := h
  ended hphase := by cases hphase

theorem Orderly.items_ne_nil (h : d.Orderly) {body : Bytes} (hheld : d.inbox.held = .waiting body) :
    d.inbox.items ≠ [] := by
  intro hitems
  have hfull := h.fits.full body hheld
  rw [hitems, List.length_nil] at hfull
  exact absurd h.capacity_pos (hfull ▸ Nat.lt_irrefl 0)

theorem Orderly.step (h : d.Orderly)
    (hhold : ∀ body, e = .hold body → d.inbox.held = .nothing) : (d.step e).Orderly := by
  obtain ⟨hfits, hcapacity⟩ := fits_step h.fits hhold
  exact ⟨hfits, hcapacity ▸ h.capacity_pos, shut_step h.ended⟩

/-! ### What the handler has yet to hear -/

/-- How much there is left to do until the handler has heard everything.  A dispatcher that looks
for an end that was not announced has to come back. -/
def unheard (d : Dispatcher) : Nat :=
  d.remaining + 3 * d.inbox.held.bodies.length +
    if d.phase = .checking ∧ d.signal = none then 2 else 0

theorem unheard_start (h : d.phase = .unstarted) : (d.step .start).unheard < d.unheard := by
  simp only [step, start, h, if_true, unheard, remaining, reduceCtorEq, false_and, if_false]
  omega

theorem unheard_finish (h : d.phase = .calling) : (d.step .finish).unheard < d.unheard := by
  simp only [step, finish, h, if_true, unheard, remaining, reduceCtorEq, false_and, if_false]
  omega

theorem unheard_conclude {cause : Cause} (h : d.phase = .ending cause) :
    (d.step .conclude).unheard < d.unheard := by
  simp only [step, conclude, h, unheard, remaining, Inbox.close, Held.bodies, List.length_nil,
    reduceCtorEq, false_and, if_false]
  omega

theorem unheard_settle {body : Bytes} (hheld : d.inbox.held = .admitted body) :
    (d.step .settle).unheard < d.unheard := by
  have hlen : (d.step .settle).inbox.items.length = d.inbox.items.length + 1 := by
    simp only [step, Inbox.settle, hheld, List.length_append, List.length_singleton]
  have hle : (d.step .settle).remaining ≤ d.remaining + 2 * 1 := remaining_le_of_phase rfl hlen
  simp only [unheard, hheld, Held.bodies, List.length_singleton]
  simp only [step, Inbox.settle, hheld, List.length_nil] at hle ⊢
  omega

theorem unheard_poll (h : d.phase = .idle) (hsome : d.inbox.items ≠ [] ∨ d.signal.isSome) :
    (d.step .poll).unheard < d.unheard := by
  have hgoes := d.goes_step .poll
  generalize d.step .poll = d' at hgoes
  cases hgoes with
  | stays _ hawaited => exact absurd (by rw [h]; rfl) hawaited
  | message _ _ hitems hheld =>
    simp only [unheard, remaining, h, hitems, hheld, List.length_cons, reduceCtorEq, false_and,
      if_false]
    omega
  | misses _ hitems =>
    have hsignal : d.signal ≠ none := fun hnone => by
      rcases hsome with hsome | hsome
      · exact hsome hitems
      · rw [hnone] at hsome
        cases hsome
    simp only [unheard, remaining, h, hsignal, and_false, if_false]
    omega

theorem unheard_check (h : d.phase = .checking) : (d.step .check).unheard < d.unheard := by
  have hgoes := d.goes_step .check
  generalize d.step .check = d' at hgoes
  cases hgoes with
  | stays _ hawaited => exact absurd (by rw [h]; rfl) hawaited
  | resumes _ hsignal =>
    simp only [unheard, remaining, h, hsignal, and_self, reduceCtorEq, false_and, if_true, if_false]
    omega
  | sees _ hsignal =>
    simp only [unheard, remaining, h, hsignal, reduceCtorEq, and_false, if_false]
    omega

theorem unheard_hold_le (d : Dispatcher) (body : Bytes) :
    (d.step (.hold body)).unheard ≤ d.unheard + 3 := by
  have hlen : (d.inbox.hold body).held.bodies.length ≤ 1 := by
    simp only [Inbox.hold]
    split_ifs <;> simp [Held.bodies]
  have hunheard : (d.step (.hold body)).unheard =
      d.remaining + 3 * (d.inbox.hold body).held.bodies.length +
        if d.phase = .checking ∧ d.signal = none then 2 else 0 := rfl
  rw [hunheard, unheard]
  omega

theorem unheard_end_le (d : Dispatcher) (cause : Cause) :
    (d.run [.forget, .announce cause]).unheard ≤ d.unheard := by
  have hremaining : (d.run [.forget, .announce cause]).remaining = d.remaining := rfl
  have hsignal : (d.run [.forget, .announce cause]).signal ≠ none := by
    simp [run, step, announce]
  simp only [unheard, hremaining, hsignal, and_false, if_false]
  exact (Nat.add_le_add_left (Nat.zero_le _) _).trans (Nat.le_add_right _ _)

end Dispatcher

namespace Connection

variable {c : Connection} {e : Event}

/-- A connection in order: it serves its sockets from the start until the end. -/
structure Lively (c : Connection) : Prop where
  orderly : c.dispatcher.Orderly
  serving : c.state = .connected → c.dispatcher.phase ≠ .unstarted → c.running = true

theorem lively_create (config : EndpointConfig) (maxBody : Option Nat) (token : Token)
    (h : 0 < config.dispatchQueueLength) : (create config maxBody token).Lively where
  orderly := Dispatcher.orderly_create h
  serving _ hphase := absurd rfl hphase

theorem Lively.step (h : c.Lively) (hv : c.Valid) (e : Event) : (c.step e).Lively := by
  cases htrigger : c.trigger? e with
  | some cause =>
    rcases hv.state with hs | hs
    · obtain ⟨assembly, traffic, heq⟩ := step_of_trigger_of_connected htrigger hs
      have hforget : (c.dispatcher.step .forget).Orderly := h.orderly.step (by rintro _ ⟨⟩)
      have hannounce := @Dispatcher.Orderly.step _ (.announce cause) hforget (by rintro _ ⟨⟩)
      rw [heq]
      exact ⟨hannounce, fun hconnected => by cases hconnected⟩
    · obtain ⟨assembly, traffic, heq⟩ := step_of_trigger_of_disconnected htrigger hs
      rw [heq]
      exact ⟨h.orderly, h.serving⟩
  | none =>
    have hgoes := goes_step htrigger
    generalize c.step e = c' at hgoes
    cases hgoes with
    | stays => exact h
    | starts => exact ⟨@Dispatcher.Orderly.step _ .start h.orderly (by rintro _ ⟨⟩),
        fun hs _ => decide_eq_true hs⟩
    | queues | sends | writes => exact ⟨h.orderly, h.serving⟩
    | @reads piece body assembly traffic hreading =>
      cases body with
      | none => exact ⟨h.orderly, h.serving⟩
      | some body =>
        exact ⟨@Dispatcher.Orderly.step _ (.hold body) h.orderly fun _ _ =>
          Course.held_of_isReading hreading, h.serving⟩
    | serves trips traffic hinner =>
      refine ⟨h.orderly.step ?_, fun hs hphase => h.serving hs ?_⟩
      · rintro body rfl
        cases hinner
      · refine fun hunstarted => hphase ((Dispatcher.unstarted_step_iff ?_).2 hunstarted)
        rintro rfl
        cases hinner

/-! ### Serving the handler -/

/-- The events that only the handler and the inbox wait for. -/
def Event.isServing : Event → Bool
  | .start | .settle | .poll _ | .check | .finish | .conclude => true
  | _ => false

/-- **The handler never gets stuck**: there is something to be done for it, or nothing is left. -/
theorem exists_serving (h : c.dispatcher.Orderly) :
    (∃ e : Event, e.isServing = true ∧ (c.step e).dispatcher.unheard < c.dispatcher.unheard) ∨
      (c.dispatcher.inbox.held = .nothing ∧ c.dispatcher.inbox.items = [] ∧
        (c.dispatcher.phase = .ended ∨
          (c.dispatcher.phase = .idle ∧ c.dispatcher.signal = none))) := by
  simp only [dispatcher_step]
  cases hphase : c.dispatcher.phase with
  | unstarted => exact .inl ⟨.start, rfl, Dispatcher.unheard_start hphase⟩
  | calling => exact .inl ⟨.finish, rfl, Dispatcher.unheard_finish hphase⟩
  | checking => exact .inl ⟨.check, rfl, Dispatcher.unheard_check hphase⟩
  | ending cause => exact .inl ⟨.conclude, rfl, Dispatcher.unheard_conclude hphase⟩
  | ended =>
    have hshut := h.ended hphase
    exact .inr ⟨hshut.held, hshut.items, .inl rfl⟩
  | idle =>
    by_cases hsome : c.dispatcher.inbox.items ≠ [] ∨ c.dispatcher.signal.isSome = true
    · exact .inl ⟨.poll 0, rfl, Dispatcher.unheard_poll hphase hsome⟩
    · obtain ⟨hitems, hsignal⟩ := not_or.1 hsome
      have hitems := not_ne_iff.1 hitems
      cases hheld : c.dispatcher.inbox.held with
      | admitted body => exact .inl ⟨.settle, rfl, Dispatcher.unheard_settle hheld⟩
      | waiting body => exact absurd hitems (h.items_ne_nil hheld)
      | nothing =>
        exact .inr ⟨rfl, hitems, .inr ⟨rfl, Option.not_isSome_iff_eq_none.1 hsignal⟩⟩

/-! ### Reading and writing -/

/-- A byte that is read is more than what it gives the handler to do. -/
theorem unheard_read {piece : Bytes} (hreading : c.isReading = true) (hpiece : piece ≠ []) :
    (c.step (.read piece)).dispatcher.unheard < c.dispatcher.unheard + 4 * piece.length := by
  have hlen : 0 < piece.length := List.length_pos_iff.2 hpiece
  rw [dispatcher_step]
  cases htrigger : c.trigger? (.read piece) with
  | some cause =>
    have hend := c.dispatcher.unheard_end_le cause
    rw [dispatches_of_trigger htrigger]
    split_ifs
    · exact Nat.lt_add_of_pos_right (by omega)
    · omega
  | none =>
    cases htake : c.assembly.take c.maxBody piece with
    | mk result assembly =>
      cases result with
      | error err => simp only [trigger?, htake, hreading, if_true, reduceCtorEq] at htrigger
      | ok body =>
        rw [dispatches_read hreading htake]
        cases body with
        | none => exact Nat.lt_add_of_pos_right (by omega)
        | some body =>
          have hhold := c.dispatcher.unheard_hold_le body
          show (c.dispatcher.step (.hold body)).unheard < _
          omega

/-- How much there is left to do until an end has written everything. -/
def unwritten (c : Connection) : Nat :=
  5 * c.pending.length + (if c.frame.isSome then 1 else 0) +
    if c.dispatcher.phase = .unstarted then 1 else 0

theorem unwritten_start (h : c.dispatcher.phase = .unstarted) :
    (c.step .start).unwritten < c.unwritten := by
  have hstep : c.step .start =
      { c with dispatcher := c.dispatcher.start, running := c.isConnected } := if_pos h
  have hstarted : c.dispatcher.start.phase = .idle := by
    simp only [Dispatcher.start, h, if_true]
  simp only [hstep, unwritten, pending, h, hstarted, if_true, reduceCtorEq, if_false]
  exact Nat.lt_succ_self _

/-- Where there is a frame to be written, there is something of it left or it counts as one. -/
theorem exists_nextFrame (h : ¬(c.outbound = [] ∧ c.frame = none)) :
    ∃ next outbound, c.nextFrame = (some next, outbound) ∧
      0 < next.left.offered.length + (if c.frame.isSome then 1 else 0) := by
  unfold nextFrame
  cases hframe : c.frame with
  | some frame => exact ⟨frame, c.outbound, rfl, Nat.succ_pos _⟩
  | none =>
    cases hout : c.outbound with
    | nil => exact absurd ⟨hout, hframe⟩ h
    | cons body rest =>
      refine ⟨_, rest, rfl, Nat.add_pos_left ?_ _⟩
      rw [Frame.Transfer.offered_ofBody, Frame.encode, List.length_append, Bytes.length_bigEndian]
      exact Nat.add_pos_left (Nat.succ_pos _) _

/-- A stream that takes all that it is offered takes the rest of a frame. -/
theorem write_all {next : OutgoingFrame} {outbound : List Bytes} (hrunning : c.running = true)
    (hnext : c.nextFrame = (some next, outbound)) :
    ∃ traffic, c.write (.wrote (next.left.offered.length + 1)) =
      (next.left.offered, { c with outbound, frame := none, traffic }) := by
  have hattempt : next.left.attempt (.wrote (next.left.offered.length + 1)) =
      .ok (next.left.offered, next.left.advance (next.left.offered.length + 1)) := by
    show Except.ok (next.left.offered.take _, _) = _
    rw [List.take_of_length_le (Nat.le_succ _)]
  have hdone : (next.left.advance (next.left.offered.length + 1)).isDone = true := by
    rw [Frame.Transfer.isDone_iff, Frame.Transfer.offered_advance]
    exact List.drop_of_length_le (Nat.le_succ _)
  simp only [write, hrunning, if_true, hnext, hattempt, hdone]
  exact ⟨_, rfl⟩

theorem unwritten_write (hrunning : c.running = true)
    (hsome : ¬(c.outbound = [] ∧ c.frame = none)) :
    ∃ n, (c.step (.write (.wrote (n + 1)))).unwritten +
      4 * (c.takes (.write (.wrote (n + 1)))).length < c.unwritten := by
  obtain ⟨next, outbound, hnext, hpos⟩ := exists_nextFrame hsome
  obtain ⟨traffic, hwrite⟩ := write_all hrunning hnext
  refine ⟨next.left.offered.length, ?_⟩
  simp only [takes, step, hwrite, unwritten, (pending_of_nextFrame hnext).1, List.length_append]
  simp only [pending, List.nil_append, Option.isSome_none, Bool.false_eq_true, if_false]
  omega

end Connection

end Tandem
