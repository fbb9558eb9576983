import Tandem.Proofs.Connection.Datagrams
import Tandem.Proofs.Frame.Encoding

/-!
# What the counters of a connection say

A connection counts bytes in different places and at different moments: what it reads with every
piece of the stream, a frame that it writes with its last byte, a datagram that it sends when the
socket has taken it, and one that comes before it is known whether there is a place for it.  Each of
the four counts is nevertheless a sum over what has happened (`Connection.counts_run`).  An event
adds to the counts and takes nothing away (`traffic_step`), and what has been written is cut by
`Frame.split` into the frames that were counted and the part of one that is not counted yet
(`Wrote.split_eq`).
-/

namespace Tandem

/-- No count is smaller. -/
instance : LE Traffic where
  le t u := t.streamSent ≤ u.streamSent ∧ t.streamReceived ≤ u.streamReceived ∧
    t.datagramsSent ≤ u.datagramsSent ∧ t.datagramsReceived ≤ u.datagramsReceived

theorem Traffic.le_refl (t : Traffic) : t ≤ t :=
  ⟨Nat.le_refl _, Nat.le_refl _, Nat.le_refl _, Nat.le_refl _⟩

theorem Traffic.le_trans {t u v : Traffic} (h : t ≤ u) (h' : u ≤ v) : t ≤ v :=
  ⟨Nat.le_trans h.1 h'.1, Nat.le_trans h.2.1 h'.2.1, Nat.le_trans h.2.2.1 h'.2.2.1,
    Nat.le_trans h.2.2.2 h'.2.2.2⟩

namespace Frame

variable {max : Option Nat} {body part rest : Bytes} {bodies : List Bytes}

theorem length_encode (body : Bytes) : (encode body).length = 4 + body.length := by
  rw [encode, List.length_append, Bytes.length_bigEndian, headerLength]

theorem length_encodeAll (bodies : List Bytes) :
    (encodeAll bodies).length = (bodies.map (4 + ·.length)).sum := by
  induction bodies with
  | nil => rfl
  | cons body bodies ih =>
    rw [encodeAll_cons, List.length_append, length_encode, ih, List.map_cons, List.sum_cons]

theorem split_of_part (hlen : body.length ≤ Kind.maxCount) (hframe : part ++ rest = encode body)
    (hrest : rest ≠ []) : split none part = ⟨[], none, part⟩ := by
  by_cases hshort : part.length < 4
  · exact split_of_short hshort
  · have hlength := congrArg List.length hframe
    rw [List.length_append, length_encode] at hlength
    have hpos : 0 < rest.length := List.length_pos_iff.2 hrest
    -- the header is there, but not all of the body
    have hhead : part.take 4 = lengthBytes body.length := by
      have htake := congrArg (List.take 4) hframe
      rwa [encode_eq hlen, List.take_append_of_le_length (Nat.not_lt.1 hshort),
        List.take_left' (length_lengthBytes _)] at htake
    have haccept := @accept_of_isBelow none _ hlen rfl
    rw [← hhead] at haccept
    have hlacks : (part.drop 4).length < body.length := by
      rw [List.length_drop]
      omega
    have hcut := split_incomplete (List.length_take_of_le (Nat.not_lt.1 hshort)) haccept hlacks
    rwa [List.take_append_drop] at hcut

theorem split_encodeAll_append (hbodies : ∀ body ∈ bodies, body.length ≤ Kind.maxCount)
    (hpart : split none part = ⟨[], none, part⟩) :
    split none (encodeAll bodies ++ part) = ⟨bodies, none, part⟩ := by
  induction bodies with
  | nil => exact hpart
  | cons body bodies ih =>
    rw [encodeAll_cons, List.append_assoc,
      split_encode_append (hbodies body List.mem_cons_self) rfl,
      ih fun b hb => hbodies b (List.mem_cons_of_mem _ hb)]

end Frame

namespace Connection

variable {c : Connection} {e : Event}

theorem trigger?_of_isConnected (h : (c.step e).isConnected = true) : c.trigger? e = none := by
  rw [Option.eq_none_iff_forall_ne_some]
  intro cause hcause
  obtain ⟨assembly, traffic, heq⟩ :=
    step_of_trigger_of_connected hcause (of_decide_eq_true (isConnected_of_step h))
  rw [heq] at h
  cases h

theorem isConnected_of_run {es : List Event} (h : (c.run es).isConnected = true) :
    c.isConnected = true := by
  induction es generalizing c with
  | nil => exact h
  | cons e es ih => exact isConnected_of_step (ih h)

/-! ### What an event adds -/

/-- The datagrams that an event sends: the socket takes them. -/
def emits (c : Connection) : Event → List Bytes
  | .send bs .unreliable a => if (c.sendBytes bs .unreliable a).1 then [bs] else []
  | _ => []

/-- The datagrams that an event brings to a connection, as far as they are taken, whatever becomes
of them there. -/
def meets (_ : Connection) : Event → List Bytes
  | .datagram bs => [fitting bs]
  | _ => []

/-- What is sent is not too long to be taken as a whole. -/
theorem fitting_of_mem_emits {bs : Bytes} (h : bs ∈ c.emits e) : fitting bs = bs := by
  cases e with
  | send bs' ch a =>
    cases ch with
    | reliable => cases h
    | unreliable =>
      simp only [emits] at h
      split_ifs at h with hsent
      · obtain rfl := List.mem_singleton.1 h
        refine List.take_of_length_le (Nat.not_lt.1 fun hlong => ?_)
        rw [sendBytes_of_tooLong hlong] at hsent
        cases hsent
      · cases h
  | _ => cases h

@[simp] theorem traffic_disconnectWith (c : Connection) (cause : Cause) :
    (c.disconnectWith cause).2.traffic = c.traffic := by
  unfold disconnectWith
  split
  split_ifs <;> rfl

theorem traffic_noteAcknowledgement (c : Connection) (bs : Bytes) (now : Nat) :
    (c.noteAcknowledgement bs now).traffic = c.traffic := by
  obtain ⟨trips, heq⟩ := c.noteAcknowledgement_frame bs now
  rw [heq]

/-- **One attempt to write** comes to nothing, ends the connection, or the stream takes something of
the frame that comes next. -/
theorem write_cases (c : Connection) (a : Frame.Attempt) :
    c.write a = ([], c) ∨ (∃ cause, c.write a = ([], (c.disconnectWith cause).2)) ∨
      ∃ next outbound taken left, c.running = true ∧ c.nextFrame = (some next, outbound) ∧
        next.left.attempt a = .ok (taken, left) ∧
        c.write a = (taken, if left.isDone then
            { c with
              outbound
              frame := none
              traffic := { c.traffic with streamSent :=
                c.traffic.streamSent + (Frame.headerLength + next.bodyLength) } }
          else { c with outbound, frame := some { next with left } }) := by
  unfold write
  by_cases hrunning : c.running = true
  · rw [if_pos hrunning]
    cases hnext : c.nextFrame with
    | mk next outbound =>
      cases next with
      | none => exact .inl rfl
      | some next =>
        cases hattempt : next.left.attempt a with
        | error fault => exact .inr (.inl ⟨.ofFault fault, by simp only [hattempt]⟩)
        | ok result =>
          obtain ⟨taken, left⟩ := result
          refine .inr (.inr ⟨next, outbound, taken, left, hrunning, rfl, hattempt, ?_⟩)
          simp only [hattempt]
          split_ifs <;> rfl
  · exact .inl (if_neg hrunning)

theorem traffic_send (c : Connection) (bs : Bytes) (ch : Channel) (a : DatagramAttempt) :
    (c.sendBytes bs ch a).2.traffic = { c.traffic with
      datagramsSent :=
        c.traffic.datagramsSent + ((c.emits (.send bs ch a)).map List.length).sum } := by
  cases ch with
  | reliable =>
    rw [sendBytes_reliable]
    split_ifs <;> rfl
  | unreliable =>
    by_cases hconnected : c.isConnected = true
    · by_cases hlen : maxDatagram < bs.length
      · rw [emits, sendBytes_of_tooLong hlen]
        rfl
      · rw [emits, sendBytes_of_connected hconnected (Nat.not_lt.1 hlen)]
        cases a with
        | sent | busy => rfl
        | failed f => exact traffic_disconnectWith _ _
    · have hsend : c.sendBytes bs .unreliable a = (false, c) := if_neg hconnected
      rw [emits, hsend]
      rfl

theorem traffic_read (c : Connection) (piece : Bytes) :
    (c.read piece).traffic = { c.traffic with
      streamReceived := c.traffic.streamReceived + (c.reads (.read piece)).length } := by
  simp only [read, reads]
  split_ifs with hreading
  · split
    · rfl
    · rfl
    · rw [traffic_disconnectWith]
  · rfl

/-- **Every event** adds to the counts what it reads, sends and brings, and a frame if it writes the
last byte of one. -/
theorem traffic_step (c : Connection) (e : Event) :
    ∃ finished, ((∀ a, e ≠ .write a) → finished = 0) ∧ (c.step e).traffic = {
      streamSent := c.traffic.streamSent + finished
      streamReceived := c.traffic.streamReceived + (c.reads e).length
      datagramsSent := c.traffic.datagramsSent + ((c.emits e).map List.length).sum
      datagramsReceived := c.traffic.datagramsReceived + ((c.meets e).map List.length).sum } := by
  cases e with
  | write a =>
    rcases c.write_cases a with h | ⟨cause, h⟩ | ⟨next, outbound, taken, left, -, -, -, h⟩
    · exact ⟨0, fun _ => rfl, by rw [step, h]; rfl⟩
    · exact ⟨0, fun _ => rfl, by rw [step, h, traffic_disconnectWith]; rfl⟩
    · refine ⟨if left.isDone then Frame.headerLength + next.bodyLength else 0,
        fun hnot => absurd rfl (hnot a), ?_⟩
      rw [step, h]
      split_ifs <;> rfl
  | send bs ch a => exact ⟨0, fun _ => rfl, c.traffic_send bs ch a⟩
  | read piece => exact ⟨0, fun _ => rfl, c.traffic_read piece⟩
  | start =>
    refine ⟨0, fun _ => rfl, ?_⟩
    simp only [step, start]
    split_ifs <;> rfl
  | poll now =>
    refine ⟨0, fun _ => rfl, ?_⟩
    simp only [step, poll]
    split
    · rfl
    · exact traffic_noteAcknowledgement _ _ _
  | datagram _ | settle | check | finish | conclude => exact ⟨0, fun _ => rfl, rfl⟩
  | disconnect cause => exact ⟨0, fun _ => rfl, traffic_disconnectWith _ _⟩
  | readEnd =>
    refine ⟨0, fun _ => rfl, ?_⟩
    simp only [step, readEnd]
    split_ifs
    · exact traffic_disconnectWith _ _
    · rfl
  | readFailed f =>
    refine ⟨0, fun _ => rfl, ?_⟩
    simp only [step, readFailed]
    split_ifs
    · exact traffic_disconnectWith _ _
    · rfl
  | datagramFailed f =>
    refine ⟨0, fun _ => rfl, ?_⟩
    simp only [step, datagramFailed]
    split_ifs
    · exact traffic_disconnectWith _ _
    · rfl

/-- **No count ever decreases.** -/
theorem traffic_le_run (c : Connection) (es : List Event) : c.traffic ≤ (c.run es).traffic := by
  induction es generalizing c with
  | nil => exact Traffic.le_refl _
  | cons e es ih =>
    obtain ⟨finished, -, hstep⟩ := c.traffic_step e
    refine Traffic.le_trans ?_ (ih (c.step e))
    rw [hstep]
    exact ⟨Nat.le_add_right _ _, Nat.le_add_right _ _, Nat.le_add_right _ _, Nat.le_add_right _ _⟩

/-- What was read, sent and met is what was counted. -/
theorem traffic_run (c : Connection) (es : List Event) :
    (c.run es).traffic.streamReceived =
        c.traffic.streamReceived + (c.collect reads es).length ∧
      (c.run es).traffic.datagramsSent =
        c.traffic.datagramsSent + ((c.collect emits es).map List.length).sum ∧
      (c.run es).traffic.datagramsReceived =
        c.traffic.datagramsReceived + ((c.collect meets es).map List.length).sum := by
  induction es generalizing c with
  | nil => exact ⟨rfl, rfl, rfl⟩
  | cons e es ih =>
    obtain ⟨finished, -, hstep⟩ := c.traffic_step e
    obtain ⟨hreceived, hemitted, hmet⟩ := ih (c.step e)
    rw [hstep] at hreceived hemitted hmet
    simp only [collect, List.length_append, List.map_append, List.sum_append, ← Nat.add_assoc]
    exact ⟨hreceived, hemitted, hmet⟩

/-! ### The frames that were counted -/

/-- How much of the frame that is being written the stream has taken. -/
def begun (c : Connection) : Nat :=
  match c.frame with
  | some f => 4 + f.bodyLength - f.left.offered.length
  | none => 0

/-- What a connection that has taken on these bodies has written: the frames of some of them and a
part of one more. -/
structure Wrote (c : Connection) (bodies : List Bytes) (written : Bytes) (done : List Bytes)
    (part : Bytes) : Prop where
  eq_append : written = Frame.encodeAll done ++ part
  counted : c.traffic.streamSent = (done.map (4 + ·.length)).sum
  isPrefix : done <+: bodies
  uncut : Frame.split none part = ⟨[], none, part⟩
  /-- the rest of the frame and the other bodies are still to be written, unless the connection has
  ended -/
  going : c.isConnected = true → match c.frame with
    | some f => ∃ body, bodies = done ++ body :: c.outbound ∧ f.bodyLength = body.length ∧
        part ++ f.left.offered = Frame.encode body ∧ f.left.offered ≠ []
    | none => bodies = done ++ c.outbound ∧ part = []

variable {bodies done : List Bytes} {written part : Bytes}

theorem Wrote.split_eq (h : c.Wrote bodies written done part)
    (hbodies : ∀ body ∈ bodies, body.length ≤ Kind.maxCount) :
    Frame.split none written = ⟨done, none, part⟩ := by
  rw [h.eq_append]
  exact Frame.split_encodeAll_append (fun body hbody => hbodies body (h.isPrefix.subset hbody))
    h.uncut

theorem Wrote.begun_eq (h : c.Wrote bodies written done part) (hconnected : c.isConnected = true) :
    part.length = c.begun := by
  have hgoing := h.going hconnected
  rw [begun]
  cases hframe : c.frame with
  | none =>
    rw [hframe] at hgoing
    rw [hgoing.2]
    rfl
  | some f =>
    rw [hframe] at hgoing
    obtain ⟨body, -, hlen, heq, -⟩ := hgoing
    have hlength := congrArg List.length heq
    rw [List.length_append, Frame.length_encode] at hlength
    dsimp only
    omega

theorem Wrote.next (h : c.Wrote bodies written done part) (hconnected : c.isConnected = true)
    {next : OutgoingFrame} {outbound : List Bytes} (hnext : c.nextFrame = (some next, outbound)) :
    ∃ body, bodies = done ++ body :: outbound ∧ next.bodyLength = body.length ∧
      part ++ next.left.offered = Frame.encode body := by
  have hgoing := h.going hconnected
  unfold nextFrame at hnext
  split at hnext
  · next f rest hframe =>
    cases hnext
    rw [hframe] at hgoing
    obtain ⟨body, hbodies, hlen, heq, -⟩ := hgoing
    exact ⟨body, hbodies, hlen, heq⟩
  · cases hnext
  · next body rest hframe hout =>
    cases hnext
    rw [hframe, hout] at hgoing
    obtain ⟨hbodies, rfl⟩ := hgoing
    exact ⟨body, hbodies, rfl, Frame.Transfer.offered_ofBody body⟩

/-- **Writing** goes on with the frame, and counts it when it is there as a whole. -/
theorem Wrote.write (h : c.Wrote bodies written done part) (hv : c.Valid)
    (hbodies : ∀ body ∈ bodies, body.length ≤ Kind.maxCount) (a : Frame.Attempt) :
    ∃ done' part',
      (c.step (.write a)).Wrote bodies (written ++ c.takes (.write a)) done' part' := by
  rw [step, takes]
  rcases c.write_cases a with hw | ⟨cause, hw⟩ |
    ⟨next, outbound, taken, left, hrunning, hnext, hattempt, hw⟩
  · rw [hw, List.append_nil]
    exact ⟨done, part, h⟩
  · rw [hw, List.append_nil]
    refine ⟨done, part, h.eq_append, ?_, h.isPrefix, h.uncut, fun hconnected => ?_⟩
    · rw [traffic_disconnectWith]
      exact h.counted
    · rw [isConnected, (c.disconnectWith_eq cause).2.1] at hconnected
      cases hs : c.state <;> rw [hs] at hconnected <;> cases hconnected
  · have hconnected : c.isConnected = true := decide_eq_true (hv.running hrunning)
    obtain ⟨body, rfl, hlen, hoffered⟩ := h.next hconnected hnext
    rw [Frame.Transfer.offered_of_attempt hattempt, ← List.append_assoc] at hoffered
    have hbody := hbodies body (List.mem_append_right _ List.mem_cons_self)
    rw [hw, h.eq_append, List.append_assoc]
    by_cases hdone : left.isDone = true
    · rw [if_pos hdone]
      rw [(Frame.Transfer.isDone_iff left).1 hdone, List.append_nil] at hoffered
      refine ⟨done ++ [body], [], ?_, ?_, ⟨outbound, by simp⟩, rfl, fun _ => ⟨by simp, rfl⟩⟩
      · rw [hoffered, Frame.encodeAll_append, Frame.encodeAll_cons, Frame.encodeAll_nil,
          List.append_nil, List.append_nil]
      · simp only [h.counted, hlen, Frame.headerLength, List.map_append, List.sum_append,
          List.map_cons, List.map_nil, List.sum_cons, List.sum_nil, Nat.add_zero]
    · rw [if_neg hdone]
      have hleft : left.offered ≠ [] := fun hnil => hdone ((Frame.Transfer.isDone_iff left).2 hnil)
      exact ⟨done, part ++ taken, rfl, h.counted, h.isPrefix,
        Frame.split_of_part hbody hoffered hleft, fun _ => ⟨body, rfl, hlen, hoffered, hleft⟩⟩

theorem takes_of_not_write (hnot : ∀ a, e ≠ .write a) : c.takes e = [] := by
  cases e with
  | write a => exact absurd rfl (hnot a)
  | _ => rfl

theorem frame_step (hnot : ∀ a, e ≠ .write a) (htrigger : c.trigger? e = none) :
    (c.step e).frame = c.frame ∧ (c.step e).outbound = c.outbound ++ c.sends e := by
  have hgoes := goes_step htrigger
  generalize c.step e = c' at hgoes
  cases hgoes with
  | stays _ _ hsends => exact ⟨rfl, by rw [hsends, List.append_nil]⟩
  | queues a _ _ hsends => exact ⟨rfl, by rw [hsends]⟩
  | writes => exact absurd rfl (hnot _)
  | starts | sends | reads => exact ⟨rfl, (List.append_nil _).symm⟩
  | serves trips traffic hinner => cases hinner <;> exact ⟨rfl, (List.append_nil _).symm⟩

theorem Wrote.step (h : c.Wrote bodies written done part) (hv : c.Valid)
    (hbodies : ∀ body ∈ bodies, body.length ≤ Kind.maxCount) (e : Event) :
    ∃ done' part',
      (c.step e).Wrote (bodies ++ c.sends e) (written ++ c.takes e) done' part' := by
  by_cases hwrite : ∃ a, e = .write a
  · obtain ⟨a, rfl⟩ := hwrite
    rw [show c.sends (.write a) = [] from rfl, List.append_nil]
    exact h.write hv hbodies a
  · have hnot : ∀ a, e ≠ .write a := fun a ha => hwrite ⟨a, ha⟩
    have hcounted : (c.step e).traffic.streamSent = c.traffic.streamSent := by
      obtain ⟨finished, hzero, hstep⟩ := c.traffic_step e
      rw [hstep, hzero hnot]
      rfl
    rw [takes_of_not_write hnot, List.append_nil]
    refine ⟨done, part, h.eq_append, hcounted.trans h.counted,
      h.isPrefix.trans (List.prefix_append _ _), h.uncut, fun hconnected => ?_⟩
    have hbefore : c.isConnected = true := isConnected_of_step hconnected
    obtain ⟨hframe, hout⟩ := frame_step hnot (trigger?_of_isConnected hconnected)
    have hgoing := h.going hbefore
    rw [hframe, hout]
    cases hf : c.frame with
    | none =>
      rw [hf] at hgoing
      exact ⟨by rw [hgoing.1, List.append_assoc], hgoing.2⟩
    | some f =>
      rw [hf] at hgoing
      obtain ⟨body, hsent, hrest⟩ := hgoing
      exact ⟨body, by rw [hsent, List.append_assoc, List.cons_append], hrest⟩

theorem wrote_run (hv : c.Valid) (h : c.Wrote bodies written done part)
    (hbodies : ∀ body ∈ bodies, body.length ≤ Kind.maxCount) (es : List Event) :
    (∀ body ∈ bodies ++ c.collect sends es, body.length ≤ Kind.maxCount) ∧
      ∃ done' part', (c.run es).Wrote (bodies ++ c.collect sends es)
        (written ++ c.collect takes es) done' part' := by
  induction es generalizing c bodies written done part with
  | nil =>
    simp only [collect, List.append_nil]
    exact ⟨hbodies, done, part, h⟩
  | cons e es ih =>
    obtain ⟨done', part', hstep⟩ := h.step hv hbodies e
    have hrun := ih (hv.step e) hstep fun body hbody => by
      rcases List.mem_append.1 hbody with hbody | hbody
      · exact hbodies body hbody
      · exact length_of_mem_sends hbody
    simp only [List.append_assoc] at hrun
    exact hrun

/-! ### The main statement about one connection -/

/-- What the counters of a connection say after a run that began where they were zero. -/
structure Counts (c : Connection) (es : List Event) : Prop where
  /-- the frames that were written completely, with their headers -/
  streamSent : (c.run es).traffic.streamSent =
    ((Frame.split none (c.collect takes es)).bodies.map (4 + ·.length)).sum
  /-- they are the frames of the first bodies that were taken on -/
  frames : (Frame.split none (c.collect takes es)).bodies <+: c.collect sends es
  /-- what was written besides them is a part of one more frame, of the one that is being written -/
  written : c.collect takes es =
    Frame.encodeAll (Frame.split none (c.collect takes es)).bodies ++
      (Frame.split none (c.collect takes es)).rest
  error : (Frame.split none (c.collect takes es)).error = none
  part : (c.run es).isConnected = true →
    (Frame.split none (c.collect takes es)).rest.length = (c.run es).begun
  /-- all that was read of the stream -/
  streamReceived : (c.run es).traffic.streamReceived = (c.collect reads es).length
  /-- the datagrams that were sent -/
  datagramsSent : (c.run es).traffic.datagramsSent = ((c.collect emits es).map List.length).sum
  /-- the datagrams that came -/
  datagramsReceived : (c.run es).traffic.datagramsReceived =
    ((c.collect meets es).map List.length).sum

/-- A connection for which nothing has been written or counted. -/
structure Fresh (c : Connection) : Prop where
  valid : c.Valid
  traffic : c.traffic = ⟨0, 0, 0, 0⟩
  outbound : c.outbound = []
  frame : c.frame = none

theorem fresh_create (config : EndpointConfig) (maxBody : Option Nat) (token : Token) :
    (create config maxBody token).Fresh := ⟨valid_create config maxBody token, rfl, rfl, rfl⟩

theorem fresh_start (config : EndpointConfig) (maxBody : Option Nat) (token : Token) :
    (create config maxBody token).start.Fresh :=
  ⟨(valid_create config maxBody token).step .start, rfl, rfl, rfl⟩

/-- **The counts of every run** are the sums of what has happened in it. -/
theorem Fresh.counts (h : c.Fresh) (es : List Event) : c.Counts es := by
  have hbegin : c.Wrote [] [] [] [] := by
    refine ⟨rfl, by rw [h.traffic]; rfl, List.prefix_rfl, rfl, fun _ => ?_⟩
    rw [h.frame, h.outbound]
    exact ⟨rfl, rfl⟩
  obtain ⟨hshort, done, part, hwrote⟩ := wrote_run h.valid hbegin nofun es
  simp only [List.nil_append] at hshort hwrote
  obtain ⟨hreceived, hemitted, hmet⟩ := c.traffic_run es
  simp only [h.traffic, Nat.zero_add] at hreceived hemitted hmet
  have hsplit := hwrote.split_eq hshort
  exact {
    streamSent := by rw [hsplit]; exact hwrote.counted
    frames := by rw [hsplit]; exact hwrote.isPrefix
    written := by rw [hsplit]; exact hwrote.eq_append
    error := by rw [hsplit]
    part := by rw [hsplit]; exact hwrote.begun_eq
    streamReceived := hreceived
    datagramsSent := hemitted
    datagramsReceived := hmet }

/-- All that was written, with the part of a frame that is not counted yet. -/
theorem Counts.length_written {es : List Event} (h : c.Counts es) :
    (c.collect takes es).length =
      (c.run es).traffic.streamSent + (Frame.split none (c.collect takes es)).rest.length := by
  rw [h.streamSent, ← Frame.length_encodeAll, ← List.length_append, ← h.written]

end Connection

end Tandem
