import Tandem.Proofs.Connection.Liveness
import Tandem.Proofs.Link.Passing

/-!
# Everything on its way can be moved on

What an end of a link has sent and the handler at the other end has not heard is on its way: not
written yet, on the wire, or in the inbox there (`Link.inFlight`).  Unless nothing of it is left
(`Link.Settled`), one of the two ends or the handler can move something of it on
(`Passes.settled_or_moves`); so however full the inboxes are and however the ends have got there,
everything arrives after a number of such moves (`Passes.exists_settled`).
-/

namespace Tandem.Link

variable {l l' : Link} {s : Side} {x : Connection.Event} {bodies : List Bytes}
  {course : Connection.Course} {seen : Bytes} {delivered : List Delivery}

/-- Nothing that an end has sent is on its way any more.  If the other end was ended, nothing is
read there, but its handler has been told so. -/
structure Settled (l : Link) (s : Side) : Prop where
  written : (l.conn s.other).isConnected = true → (l.conn s).outbound = [] ∧ (l.conn s).frame = none
  arrived : (l.conn s.other).isConnected = true → (l.wires.get s).bytes = []
  taken : (l.conn s.other).dispatcher.inbox.held = .nothing ∧
    (l.conn s.other).dispatcher.inbox.items = []
  told : (l.conn s.other).isConnected = false → (l.conn s.other).dispatcher.phase = .ended

/-- Events that move something on: they neither send, nor end a connection, nor lose anything. -/
def Event.isMove : Event → Bool
  | .start _ | .write _ (.wrote (_ + 1)) | .read _ _ | .settle _ | .poll _ _ | .check _
  | .finish _ | .conclude _ => true
  | _ => false

/-- How much there is left to do until everything has been moved on that an end has sent. -/
def inFlight (l : Link) (s : Side) : Nat :=
  (l.conn s).unwritten + 4 * (l.wires.get s).bytes.length +
    (l.conn s.other).dispatcher.unheard

/-- Both ends are in order. -/
def Lively (l : Link) : Prop := ∀ s, (l.conn s).Lively

theorem Lively.step (h : l.Lively) (hs : l.Sound) (e : Event) : (l.step e).Lively := by
  intro t
  cases hacts : l.acts e with
  | none =>
    rw [conn, (stays_step hacts).1]
    exact h t
  | some act =>
    obtain ⟨s, x⟩ := act
    have hm := moves_step hacts
    rcases Decidable.eq_or_ne t s with rfl | hne
    · rw [hm.conn]
      exact (h t).step (hs.valid t) x
    · obtain rfl := Side.eq_other_of_ne hne
      rw [hm.other]
      exact h _

theorem Lively.run (h : l.Lively) (hs : l.Sound) (es : List Event) : (l.run es).Lively := by
  induction es generalizing l with
  | nil => exact h
  | cons e es ih => exact ih (h.step hs e) (hs.step e)

/-! ### One move -/

theorem Moves.inFlight_receiver (hm : Moves l l' s.other x)
    (h : ((l.conn s.other).step x).dispatcher.unheard <
      (l.conn s.other).dispatcher.unheard + 4 * ((l.conn s.other).reads x).length) :
    l'.inFlight s < l.inFlight s := by
  have hother := hm.other
  have hlen := congrArg List.length hm.read
  rw [Side.other_other] at hother hlen
  rw [List.length_append] at hlen
  rw [inFlight, inFlight, hother, hm.conn]
  omega

theorem Moves.inFlight_sender (hm : Moves l l' s x)
    (h : ((l.conn s).step x).unwritten + 4 * ((l.conn s).takes x).length < (l.conn s).unwritten) :
    l'.inFlight s < l.inFlight s := by
  have hlen := congrArg List.length hm.written
  rw [List.length_append] at hlen
  rw [inFlight, inFlight, hm.other, hm.conn]
  omega

/-- What serves the handler of a connection can happen to a link at any time. -/
theorem exists_move_of_isServing (hx : x.isServing = true) (t : Side) :
    ∃ e : Event, e.isMove = true ∧ l.acts e = some (t, x) := by
  cases x with
  | start => exact ⟨.start t, rfl, rfl⟩
  | settle => exact ⟨.settle t, rfl, rfl⟩
  | poll now => exact ⟨.poll t now, rfl, rfl⟩
  | check => exact ⟨.check t, rfl, rfl⟩
  | finish => exact ⟨.finish t, rfl, rfl⟩
  | conclude => exact ⟨.conclude t, rfl, rfl⟩
  | send _ _ _ | write _ | read _ | readEnd | readFailed _ | datagram _ | datagramFailed _
  | disconnect _ => cases hx

theorem exists_read (hreading : (l.conn s.other).isReading = true)
    (hwanted : 0 < (l.conn s.other).wanted) (hbytes : (l.wires.get s).bytes ≠ []) :
    ∃ e : Event, e.isMove = true ∧ (l.step e).inFlight s < l.inFlight s := by
  have hpos : 0 < (l.wires.get s).bytes.length := List.length_pos_iff.2 hbytes
  have hne : (l.wires.get s).bytes.take (l.conn s.other).wanted ≠ [] := by
    rw [← List.length_pos_iff, List.length_take]
    omega
  have hacts : l.acts (.read s.other (l.conn s.other).wanted) =
      some (s.other, .read ((l.wires.get s).bytes.take (l.conn s.other).wanted)) := by
    simp only [acts, hreading, Bool.not_true, Bool.false_eq_true, if_false, Side.other_other,
      List.isEmpty_iff, hbytes, Nat.min_self, Nat.ne_of_gt hwanted]
  refine ⟨_, rfl, (moves_step hacts).inFlight_receiver ?_⟩
  rw [Connection.reads, if_pos hreading]
  exact Connection.unheard_read hreading hne

/-- An end that has something to write puts it on the wire, once it was started. -/
theorem exists_write (hl : (l.conn s).Lively) (hconnected : (l.conn s).state = .connected)
    (hsome : ¬((l.conn s).outbound = [] ∧ (l.conn s).frame = none)) :
    ∃ e : Event, e.isMove = true ∧ (l.step e).inFlight s < l.inFlight s := by
  by_cases hphase : (l.conn s).dispatcher.phase = .unstarted
  · have hm : Moves l (l.step (.start s)) s .start := moves_step rfl
    exact ⟨_, rfl, hm.inFlight_sender (Connection.unwritten_start hphase)⟩
  · obtain ⟨n, hlt⟩ := Connection.unwritten_write (hl.serving hconnected hphase) hsome
    have hm : Moves l (l.step (.write s (.wrote (n + 1)))) s (.write (.wrote (n + 1))) :=
      moves_step rfl
    exact ⟨_, rfl, hm.inFlight_sender hlt⟩

/-- An end that was ended has told its handler, where there is nothing more to be done for it. -/
theorem Passes.settled_of_over {before : List Delivery} {cause : Cause}
    (h : l.Passes s bodies course seen delivered) (hover : course.Over seen before cause)
    (hheld : (l.conn s.other).dispatcher.inbox.held = .nothing)
    (hitems : (l.conn s.other).dispatcher.inbox.items = [])
    (hphase : (l.conn s.other).dispatcher.phase = .ended ∨
      ((l.conn s.other).dispatcher.phase = .idle ∧ (l.conn s.other).dispatcher.signal = none)) :
    l.Settled s := by
  have hnot : (l.conn s.other).isConnected ≠ true := by
    rw [← h.connection, Connection.isConnected, hover.state]
    decide
  have hsignal : (l.conn s.other).dispatcher.signal = some cause := by
    rw [← h.connection]
    have heq := h.faithful.signal_eq
    rwa [show course.history.told = course.won from rfl, hover.won] at heq
  refine ⟨fun hc => absurd hc hnot, fun hc => absurd hc hnot, ⟨hheld, hitems⟩, fun _ => ?_⟩
  rcases hphase with hended | ⟨-, hnone⟩
  · exact hended
  · rw [hsignal] at hnone
    cases hnone

/-- **Nothing is stuck**: as long as something is on its way, something can be moved on. -/
theorem Passes.settled_or_moves (h : l.Passes s bodies course seen delivered) (hs : l.Sound)
    (hl : l.Lively) :
    l.Settled s ∨ ∃ e : Event, e.isMove = true ∧ (l.step e).inFlight s < l.inFlight s := by
  rcases Connection.exists_serving (hl s.other).orderly with
    ⟨x, hx, hlt⟩ | ⟨hheld, hitems, hphase⟩
  · obtain ⟨e, hmove, hacts⟩ := exists_move_of_isServing (l := l) hx s.other
    exact .inr ⟨e, hmove, (moves_step hacts).inFlight_receiver (Nat.lt_add_right _ hlt)⟩
  -- the handler has nothing to do, so it is up to the stream
  cases h.hears with
  | ended hover => exact .inl (h.settled_of_over hover hheld hitems hphase)
  | going hgoing =>
    have hstate : (l.conn s.other).state = .connected := h.connection ▸ hgoing.state
    have hidle : (l.conn s.other).dispatcher.phase ≠ .unstarted := by
      rcases hphase with hphase | ⟨hphase, -⟩ <;> rw [hphase] <;> exact Dispatcher.Phase.noConfusion
    have hreading : (l.conn s.other).isReading = true := by
      rw [Connection.isReading, (hl s.other).serving hstate hidle, hheld]
      rfl
    have hwanted : 0 < (l.conn s.other).wanted := h.connection ▸ hgoing.took.wanted_pos
    by_cases hbytes : (l.wires.get s).bytes = []
    · by_cases hwritten : (l.conn s).outbound = [] ∧ (l.conn s).frame = none
      · refine .inl ⟨fun _ => hwritten, fun _ => hbytes, ⟨hheld, hitems⟩, fun hnot => ?_⟩
        exact absurd hstate (of_decide_eq_false hnot)
      · rcases (hs.valid s).state with hconnected | hdisconnected
        · exact .inr (exists_write (hl s) hconnected hwritten)
        · exact absurd ((hs.valid s).stopped hdisconnected) hwritten
    · exact .inr (exists_read hreading hwanted hbytes)

/-! ### All moves -/

/-- **Everything on its way arrives** after some moves. -/
theorem Passes.exists_settled (h : l.Passes s bodies course seen delivered) (hs : l.Sound)
    (hl : l.Lively) :
    ∃ moves : List Event, (∀ e ∈ moves, e.isMove = true) ∧ (l.run moves).Settled s := by
  -- over what is left to be moved on
  induction hn : l.inFlight s using Nat.strong_induction_on generalizing l bodies course seen
    delivered with
  | _ n ih =>
    rcases h.settled_or_moves hs hl with hsettled | ⟨e, hmove, hlt⟩
    · exact ⟨[], fun _ hmem => absurd hmem List.not_mem_nil, hsettled⟩
    · obtain ⟨_, _, _, hstep, -⟩ := h.step hs e
      obtain ⟨moves, hmoves, hsettled⟩ := ih _ (hn ▸ hlt) hstep (hs.step e) (hl.step hs e) rfl
      exact ⟨e :: moves, List.forall_mem_cons.2 ⟨hmove, hmoves⟩, hsettled⟩

theorem Event.isCalm_of_isMove {e : Event} (h : e.isMove = true) : e.isCalm = true := by
  cases e with
  | write t a =>
    cases a with
    | wrote n =>
      cases n with
      | zero => cases h
      | succ n => rfl
    | busy | failed _ => cases h
  | start _ | read _ _ | settle _ | poll _ _ | check _ | finish _ | conclude _ => rfl
  | send _ _ _ _ | arrive _ | lose _ | disconnect _ _ => cases h

theorem sent_append_of_isMove {es moves : List Event} (h : ∀ e ∈ moves, e.isMove = true) :
    l.sent s (es ++ moves) = l.sent s es := by
  induction es generalizing l with
  | cons e es ih => exact congrArg (l.sends s e ++ ·) ih
  | nil =>
    induction moves generalizing l with
    | nil => rfl
    | cons e moves ih =>
      obtain ⟨hmove, hmoves⟩ := List.forall_mem_cons.1 h
      have hsends : l.sends s e = [] := by
        cases e with
        | send _ _ _ _ => cases hmove
        | _ => rfl
      exact (congrArg (· ++ (l.step e).sent s moves) hsends).trans (ih hmoves)

theorem isUndisturbed_append_of_isMove {es moves : List Event} (h : ∀ e ∈ moves, e.isMove = true) :
    l.isUndisturbed (es ++ moves) = l.isUndisturbed es := by
  induction es generalizing l with
  | cons e es ih => exact congrArg ((!l.areConnected || e.isCalm) && ·) ih
  | nil =>
    induction moves generalizing l with
    | nil => rfl
    | cons e moves ih =>
      obtain ⟨hmove, hmoves⟩ := List.forall_mem_cons.1 h
      have hstep : l.isUndisturbed (e :: moves) =
          ((!l.areConnected || e.isCalm) && (l.step e).isUndisturbed moves) := rfl
      rw [List.nil_append, hstep, Event.isCalm_of_isMove hmove, Bool.or_true, Bool.true_and]
      exact ih hmoves

end Tandem.Link
