import Tandem.Proofs.Link.Moves

/-!
# From one end of a link to the other

What an end of a link has taken on for the stream is, in its frames, what the other end has read,
what is on the wire and what is still to be written, one behind the other (`Link.Passes.flowing`).
When the end is ended, what is still to be written is given up, and the rest is the beginning of
what it has taken on.  So what the other end makes of the bytes that it reads, it makes of the
stream of these bodies.  A step of either end keeps this (`Passes.step_sender`,
`Passes.step_receiver`), hence every run does (`Passes.run`).
-/

namespace Tandem.Link

open Connection (Course)

variable {l l' : Link} {s t : Side} {e : Event} {x : Connection.Event}
  {course : Course} {seen : Bytes} {delivered : List Delivery}

/-- The bodies that an event takes on for the stream at an end: sending succeeds. -/
def sends (l : Link) (s : Side) : Event → List Bytes
  | .send t bs .reliable a => if t = s ∧ (l.send t bs .reliable a).1 = true then [bs] else []
  | _ => []

/-- The bodies that are taken on for the stream at an end in a run, oldest first. -/
def sent (l : Link) (s : Side) : List Event → List Bytes
  | [] => []
  | e :: es => l.sends s e ++ (l.step e).sent s es

theorem sends_of_acts (h : l.acts e = some (t, x)) :
    l.sends s e = if t = s then (l.conn s).sends x else [] := by
  cases e with
  | send _ bs ch a =>
    cases h
    cases ch with
    | unreliable => exact (ite_self _).symm
    | reliable =>
      have haccepted : (l.send t bs .reliable a).1 = ((l.conn t).sendBytes bs .reliable a).1 := rfl
      rw [sends, haccepted]
      by_cases hts : t = s
      · subst hts
        simp only [true_and, if_true, Connection.sends]
      · simp only [hts, false_and, if_false]
  | read _ _ =>
    simp only [acts] at h
    split_ifs at h <;> cases h <;> exact (ite_self _).symm
  | arrive r =>
    cases hair : l.air.get r.other with
    | nil =>
      simp only [acts, hair] at h
      cases h
    | cons bs rest =>
      simp only [acts, hair] at h
      split_ifs at h
      cases h
      exact (ite_self _).symm
  | lose _ => cases h
  | start _ | write _ _ | settle _ | poll _ _ | check _ | finish _ | conclude _
  | disconnect _ _ =>
    cases h
    exact (ite_self _).symm

theorem sends_of_stays (h : l.acts e = none) : l.sends s e = [] := by
  cases e with
  | send _ _ _ _ => cases h
  | _ => rfl

/-! ### One direction -/

variable {bodies : List Bytes}

/-- What is true of the ends of a link and of the wires from them. -/
structure Sound (l : Link) : Prop where
  valid : ∀ s, (l.conn s).Valid
  /-- only the wire from a connection that was ended has an end -/
  ended : ∀ s, (l.wires.get s).ended → (l.conn s).isConnected = false

/-- What an end has taken on for the stream, what the other end has made of it, and what is on its
way between them. -/
structure Passes (l : Link) (s : Side) (bodies : List Bytes) (course : Course) (seen : Bytes)
    (delivered : List Delivery) : Prop where
  connection : course.connection = l.conn s.other
  faithful : course.history.Faithful delivered
  hears : course.Hears seen
  short : ∀ body ∈ bodies, body.length ≤ Kind.maxCount
  flowing : (l.conn s).state = .connected →
    Frame.encodeAll bodies = seen ++ (l.wires.get s).bytes ++ (l.conn s).pending
  isPrefix : seen ++ (l.wires.get s).bytes <+: Frame.encodeAll bodies

theorem Sound.step (h : l.Sound) (e : Event) : (l.step e).Sound := by
  cases hacts : l.acts e with
  | none =>
    obtain ⟨hends, hwires⟩ := stays_step hacts
    refine ⟨fun s => ?_, fun s hended => ?_⟩
    · rw [conn, hends]
      exact h.valid s
    · rw [conn, hends]
      exact h.ended s (hwires ▸ hended)
  | some act =>
    obtain ⟨s, x⟩ := act
    have hm := moves_step hacts
    have hthis : ((l.step e).conn s).Valid := hm.conn ▸ (h.valid s).step x
    have hstays : (l.conn s).isConnected = false → ((l.step e).conn s).isConnected = false := by
      intro hc
      rw [hm.conn, Connection.isConnected, decide_eq_false_iff_not]
      intro hconnected
      exact of_decide_eq_false hc ((h.valid s).pending_step x hconnected).1
    refine ⟨fun t => ?_, fun t hended => ?_⟩
    · rcases Decidable.eq_or_ne t s with rfl | hne
      · exact hthis
      · obtain rfl := Side.eq_other_of_ne hne
        rw [hm.other]
        exact h.valid _
    · rcases Decidable.eq_or_ne t s with rfl | hne
      · exact (hm.ends hended).elim (fun hold => hstays (h.ended _ hold)) id
      · obtain rfl := Side.eq_other_of_ne hne
        rw [hm.other]
        exact h.ended _ (hm.otherEnds ▸ hended)

/-- **A step of the end that sends** puts what it takes on behind the rest. -/
theorem Passes.step_sender (h : l.Passes s bodies course seen delivered) (hs : l.Sound)
    (hm : Moves l l' s x) :
    l'.Passes s (bodies ++ (l.conn s).sends x) course seen delivered := by
  have hv := hs.valid s
  have hlong : seen ++ (l'.wires.get s).bytes <+: Frame.encodeAll (bodies ++ (l.conn s).sends x) ∧
      ((l'.conn s).state = .connected → Frame.encodeAll (bodies ++ (l.conn s).sends x) =
        seen ++ (l'.wires.get s).bytes ++ (l'.conn s).pending) := by
    rw [Frame.encodeAll_append, hm.written, hm.conn]
    -- where the step ends the connection, what was not written is given up
    by_cases hstate : ((l.conn s).step x).state = .connected
    · obtain ⟨hold, hpending⟩ := hv.pending_step x hstate
      have heq : Frame.encodeAll bodies ++ Frame.encodeAll ((l.conn s).sends x) =
          seen ++ ((l.wires.get s).bytes ++ (l.conn s).takes x) ++ ((l.conn s).step x).pending := by
        rw [h.flowing hold, List.append_assoc, hpending]
        simp only [List.append_assoc]
      exact ⟨⟨_, heq.symm⟩, fun _ => heq⟩
    · obtain ⟨hsends, htakes⟩ := hv.stopped_step x hstate
      rw [hsends, htakes, Frame.encodeAll_nil, List.append_nil, List.append_nil]
      exact ⟨h.isPrefix, fun hc => absurd hc hstate⟩
  refine ⟨?_, h.faithful, h.hears, fun body hbody => ?_, hlong.2, hlong.1⟩
  · rw [hm.other, h.connection]
  · rcases List.mem_append.1 hbody with hbody | hbody
    · exact h.short body hbody
    · exact Connection.length_of_mem_sends hbody

/-- **A step of the end that receives** takes from the wire what it reads. -/
theorem Passes.step_receiver (h : l.Passes s bodies course seen delivered) (hs : l.Sound)
    (hm : Moves l l' s.other x) :
    ∃ more, l'.Passes s bodies (course.step x) (seen ++ (l.conn s.other).reads x)
      (delivered ++ more) := by
  have hread := hm.read
  have hother := hm.other
  rw [Side.other_other] at hread hother
  obtain ⟨more, hf⟩ := h.faithful.run (course.connection.dispatches x)
  rw [← course.history_step] at hf
  refine ⟨more, ?_, hf, ?_, h.short, fun hstate => ?_, ?_⟩
  · rw [hm.conn, ← h.connection]
    rfl
  · rw [← h.connection]
    refine h.hears.step (h.connection ▸ hs.valid _) h.faithful fun piece hx => ?_
    rw [h.connection]
    exact hm.wanted piece hx
  · rw [hother] at hstate ⊢
    rw [h.flowing hstate, hread, List.append_assoc, List.append_assoc]
    simp only [List.append_assoc]
  · have hprefix := h.isPrefix
    rwa [hread, ← List.append_assoc] at hprefix

/-! ### Disturbances -/

/-- Both ends are connected. -/
def areConnected (l : Link) : Bool := (l.conn .client).isConnected && (l.conn .server).isConnected

/-- Nobody asks for the end of a connection, and no socket fails. -/
def Event.isCalm : Event → Bool
  | .disconnect _ _ => false
  | .send _ _ .unreliable (.failed _) => false
  | .write _ (.failed _) | .write _ (.wrote 0) => false
  | _ => true

/-- As long as both ends are connected, nobody asks for the end and no socket fails. -/
def isUndisturbed (l : Link) : List Event → Bool
  | [] => true
  | e :: es => (!l.areConnected || e.isCalm) && (l.step e).isUndisturbed es

theorem areConnected_iff : l.areConnected = true ↔ ∀ s, (l.conn s).isConnected = true := by
  rw [areConnected, Bool.and_eq_true]
  exact ⟨fun h s => by cases s <;> [exact h.1; exact h.2], fun h => ⟨h _, h _⟩⟩

/-- Where nobody asks for the end and no socket fails, only the bytes that are read can end a
connection. -/
theorem read_of_trigger {cause : Cause} (hcalm : e.isCalm = true) (hacts : l.acts e = some (t, x))
    (hopen : (l.wires.get t.other).ended = false)
    (htrigger : (l.conn t).trigger? x = some cause) : ∃ piece, x = .read piece := by
  cases e with
  | start _ | settle _ | poll _ _ | check _ | finish _ | conclude _ =>
    cases hacts
    cases htrigger
  | lose _ => cases hacts
  | disconnect _ _ => cases hcalm
  | send _ bs ch a =>
    cases hacts
    cases ch with
    | reliable => cases htrigger
    | unreliable =>
      cases a with
      | sent | busy => cases htrigger
      | failed f => cases hcalm
  | write _ a =>
    cases hacts
    cases hnext : (l.conn t).nextFrame.1 with
    | none =>
      simp only [Connection.trigger?, hnext] at htrigger
      cases htrigger
    | some frame =>
      simp only [Connection.trigger?, hnext] at htrigger
      cases a with
      | failed f => cases hcalm
      | busy => cases htrigger
      | wrote n =>
        cases n with
        | zero => cases hcalm
        | succ n => cases htrigger
  | arrive s =>
    cases hair : l.air.get s.other with
    | nil =>
      simp only [acts, hair] at hacts
      cases hacts
    | cons bs rest =>
      simp only [acts, hair] at hacts
      split_ifs at hacts
      cases hacts
      cases htrigger
  | read _ n =>
    simp only [acts] at hacts
    split_ifs at hacts with _ _ hended
    · cases hacts
      rw [hopen] at hended
      cases hended
    · cases hacts
      exact ⟨_, rfl⟩

theorem Passes.connected_or_refused (h : l.Passes s bodies course seen delivered) (hs : l.Sound)
    (hconnected : l.areConnected = true) (hcalm : e.isCalm = true)
    (hacts : l.acts e = some (s.other, x)) :
    ((l.step e).conn s.other).isConnected = true ∨
      (Frame.split (l.conn s.other).maxBody (seen ++ (l.conn s.other).reads x)).error.isSome := by
  have hm := moves_step hacts
  have hstate := of_decide_eq_true (areConnected_iff.1 hconnected s.other)
  rw [hm.conn]
  cases htrigger : (l.conn s.other).trigger? x with
  | none =>
    refine .inl (decide_eq_true ?_)
    rw [Connection.state_step, Course.wins_of_trigger_none htrigger, hstate]
    rfl
  | some cause =>
    -- a connected end does not end its wire
    have hopen : (l.wires.get s.other.other).ended = false := by
      rw [Side.other_other, Bool.eq_false_iff]
      intro hended
      have hnot := hs.ended s hended
      rw [areConnected_iff.1 hconnected s] at hnot
      cases hnot
    obtain ⟨piece, rfl⟩ := read_of_trigger hcalm hacts hopen htrigger
    rw [← h.connection] at hstate htrigger ⊢
    cases h.hears with
    | ended hover =>
      rw [hover.state] at hstate
      cases hstate
    | going hgoing => exact .inr (hgoing.refuse htrigger (h.connection ▸ hm.wanted piece rfl)).1

/-! ### Looking once more -/

/-- The dispatcher at an end looks for a message, and the connection there was ended before. -/
def looks (l : Link) (s : Side) : Event → Bool
  | .poll t _ => t = s && (l.conn s).dispatcher.phase = .idle && !(l.conn s).isConnected
  | _ => false

/-- The dispatcher at an end looks for a message after the connection there was ended. -/
def looksLate (l : Link) (s : Side) : List Event → Bool
  | [] => false
  | e :: es => l.looks s e || (l.step e).looksLate s es

theorem acts_of_looks (h : l.looks s e = true) :
    ∃ now, l.acts e = some (s, .poll now) ∧ (l.conn s).dispatcher.phase = .idle ∧
      (l.conn s).isConnected = false := by
  cases e with
  | poll t now =>
    simp only [looks, Bool.and_eq_true, decide_eq_true_eq, Bool.not_eq_true'] at h
    obtain ⟨⟨rfl, hphase⟩, hconnected⟩ := h
    exact ⟨now, rfl, hphase, hconnected⟩
  | _ => cases h

theorem Passes.told_of_looks (h : l.Passes s bodies course seen delivered)
    (hacts : l.acts e = some (s.other, x)) (hlate : l.looks s.other e = true) :
    (course.step x).looked.told = true := by
  obtain ⟨now, hpoll, hphase, hconnected⟩ := acts_of_looks hlate
  rw [hacts, Option.some.injEq, Prod.mk.injEq] at hpoll
  obtain ⟨-, rfl⟩ := hpoll
  rw [← h.connection] at hphase hconnected
  have hlooked : (course.step (.poll now)).looked = ⟨course.accepted, course.won.isSome⟩ :=
    if_pos hphase
  rw [hlooked]
  cases h.hears with
  | going hgoing =>
    rw [Connection.isConnected, hgoing.state] at hconnected
    cases hconnected
  | ended hover => rw [hover.won, Option.isSome_some]

/-! ### Runs -/

theorem Passes.stays (h : l.Passes s bodies course seen delivered) (hends : l'.ends = l.ends)
    (hwires : l'.wires = l.wires) : l'.Passes s bodies course seen delivered := by
  have hconn : ∀ t, l'.conn t = l.conn t := fun t => by rw [conn, conn, hends]
  refine ⟨by rw [hconn, h.connection], h.faithful, h.hears, h.short, ?_, ?_⟩
  · rw [hconn, hwires]
    exact h.flowing
  · rw [hwires]
    exact h.isPrefix

/-- **Every event** keeps what an end has taken on, what the other end has made of it and what is on
its way together.  Where nobody asks for the end and no socket fails, the other end stays connected
unless it refuses a length. -/
theorem Passes.step (h : l.Passes s bodies course seen delivered) (hs : l.Sound) (e : Event) :
    ∃ course' seen' delivered',
      (l.step e).Passes s (bodies ++ l.sends s e) course' seen' delivered' ∧ seen <+: seen' ∧
        (course.looked.told = true ∨ l.looks s.other e = true → course'.looked.told = true) ∧
        (l.areConnected = true → e.isCalm = true →
          ((l.step e).conn s.other).isConnected = true ∨
            (Frame.split (l.conn s.other).maxBody seen').error.isSome) := by
  cases hacts : l.acts e with
  | none =>
    obtain ⟨hends, hwires⟩ := stays_step hacts
    refine ⟨course, seen, delivered, ?_, List.prefix_rfl,
      fun hlooks => hlooks.resolve_right fun hlate => ?_, fun hconnected _ => .inl ?_⟩
    · rw [sends_of_stays hacts, List.append_nil]
      exact h.stays hends hwires
    · obtain ⟨now, hpoll, -⟩ := acts_of_looks hlate
      rw [hpoll] at hacts
      cases hacts
    · rw [conn, hends]
      exact areConnected_iff.1 hconnected s.other
  | some act =>
    obtain ⟨t, x⟩ := act
    have hm := moves_step hacts
    rw [sends_of_acts hacts]
    -- it is a step of the end that sends or of the one that receives
    by_cases hts : t = s
    · subst hts
      refine ⟨course, seen, delivered, ?_, List.prefix_rfl,
        fun hlooks => hlooks.resolve_right fun hlate => ?_, fun hconnected _ => .inl ?_⟩
      · rw [if_pos rfl]
        exact h.step_sender hs hm
      · obtain ⟨now, hpoll, -⟩ := acts_of_looks hlate
        rw [hpoll, Option.some.injEq, Prod.mk.injEq] at hacts
        exact absurd hacts.1.symm t.ne_other
      · rw [hm.other]
        exact areConnected_iff.1 hconnected t.other
    · obtain rfl := Side.eq_other_of_ne hts
      obtain ⟨more, hp⟩ := h.step_receiver hs hm
      refine ⟨course.step x, _, delivered ++ more, ?_, List.prefix_append _ _, fun hlooks => ?_,
        fun hconnected hcalm => h.connected_or_refused hs hconnected hcalm hacts⟩
      · rw [if_neg hts, List.append_nil]
        exact hp
      · rcases hlooks with htold | hlate
        · exact Course.told_step h.faithful htold x
        · exact h.told_of_looks hacts hlate

theorem Sound.run (h : l.Sound) (es : List Event) : (l.run es).Sound := by
  induction es generalizing l with
  | nil => exact h
  | cons e es ih => exact ih (h.step e)

theorem Passes.run (h : l.Passes s bodies course seen delivered) (hs : l.Sound) (es : List Event) :
    ∃ course' seen' delivered',
      (l.run es).Passes s (bodies ++ l.sent s es) course' seen' delivered' := by
  induction es generalizing l bodies course seen delivered with
  | nil => exact ⟨course, seen, delivered, by rwa [sent, List.append_nil]⟩
  | cons e es ih =>
    obtain ⟨course', seen', delivered', hstep, -⟩ := h.step hs e
    have hrun := ih hstep (hs.step e)
    rwa [List.append_assoc] at hrun

theorem maxBody_step (l : Link) (e : Event) (s : Side) :
    ((l.step e).conn s).maxBody = (l.conn s).maxBody := by
  cases hacts : l.acts e with
  | none => rw [conn, conn, (stays_step hacts).1]
  | some act =>
    obtain ⟨t, x⟩ := act
    have hm := moves_step hacts
    rcases Decidable.eq_or_ne s t with rfl | hne
    · rw [hm.conn, Course.maxBody_step]
    · obtain rfl := Side.eq_other_of_ne hne
      rw [hm.other]

theorem maxBody_run (l : Link) (es : List Event) (s : Side) :
    ((l.run es).conn s).maxBody = (l.conn s).maxBody := by
  induction es generalizing l with
  | nil => rfl
  | cons e es ih => exact (ih (l.step e)).trans (l.maxBody_step e s)

end Tandem.Link
