import Tandem.Proofs.Connection.Traffic

/-!
# Frames are written once

A connection writes a frame in attempts, and between two of them anything else may happen to it.  As
long as it stays connected this makes no difference: its attempts come to what `Transfer.writeAll`
makes of the answers of the stream alone (`Connection.run_write`).  So whatever the stream takes at
a time, it gets each byte of a frame once and in order, and a frame counts as sent when it got all
of them (`writes_frames_once`).
-/

namespace Tandem

namespace Connection

open Tandem.Frame (Attempt Transfer)

variable {c c' : Connection} {e : Event} {es : List Event} {next : OutgoingFrame}
  {outbound : List Bytes}

/-- What the stream answers, if the event is an attempt to write. -/
def Event.answer? : Event → Option Attempt
  | .write a => some a
  | _ => none

/-- What the stream answers in a run. -/
def answers (es : List Event) : List Attempt := es.filterMap Event.answer?

theorem answers_append (es fs : List Event) : answers (es ++ fs) = answers es ++ answers fs :=
  List.filterMap_append

/-- What becomes of a connection by an attempt at the frame of a body, with the bodies behind it:
the frame counts when everything was taken, and a fault ends the connection. -/
def afterAttempt (c : Connection) (bodyLength : Nat) (outbound : List Bytes) :
    Transfer.Progress → Connection
  | .done => { c with
      outbound
      frame := none
      traffic := { c.traffic with
        streamSent := c.traffic.streamSent + (Frame.headerLength + bodyLength) } }
  | .failed f => (c.disconnectWith (.ofFault f)).2
  | .left left => { c with outbound, frame := some ⟨bodyLength, left⟩ }

theorem write_next (hrunning : c.running = true) (hnext : c.nextFrame = (some next, outbound))
    (hopen : next.left.isDone = false) (a : Attempt) :
    c.write a = ((next.left.writeAll [a]).1,
      c.afterAttempt next.bodyLength outbound (next.left.writeAll [a]).2) := by
  rw [write, if_pos hrunning, hnext]
  cases ha : a.fault? with
  | some f =>
    rw [Transfer.writeAll_cons_of_fault hopen ha]
    simp only [next.left.attempt_of_fault ha, afterAttempt]
  | none =>
    rw [Transfer.writeAll_cons_of_noFault hopen ha]
    simp only [next.left.attempt_of_noFault ha]
    cases hdone : (next.left.advance a.amount).isDone with
    | true =>
      rw [Transfer.writeAll_of_isDone hdone, List.append_nil]
      rfl
    | false =>
      rw [Transfer.writeAll_nil_of_open hdone, List.append_nil]
      rfl

theorem nextFrame_of_append {more : List Bytes} (hnext : c.nextFrame = (some next, outbound))
    (hframe : c'.frame = c.frame) (hout : c'.outbound = c.outbound ++ more) :
    c'.nextFrame = (some next, outbound ++ more) := by
  unfold nextFrame at hnext ⊢
  rw [hframe, hout]
  cases hf : c.frame with
  | some frame =>
    rw [hf] at hnext
    cases hnext
    rfl
  | none =>
    rw [hf] at hnext
    cases ho : c.outbound with
    | nil =>
      rw [ho] at hnext
      cases hnext
    | cons body rest =>
      rw [ho] at hnext
      cases hnext
      rfl

theorem running_step (hrunning : c.running = true) (h : (c.step e).isConnected = true) :
    (c.step e).running = true := by
  have hconnected := isConnected_of_step h
  have hgoes := goes_step (trigger?_of_isConnected h)
  generalize c.step e = c' at hgoes
  cases hgoes with
  | starts => exact hconnected
  | stays | queues | sends | writes | reads | serves => exact hrunning

/-- An event that leaves something of the frame writes what the stream answers, if it does, and
other bodies come behind. -/
theorem unfinished_step {taken : Bytes} {rest : Transfer} (hrunning : c.running = true)
    (hconnected : (c.step e).isConnected = true) (hnext : c.nextFrame = (some next, outbound))
    (hleft : next.left.writeAll (answers [e]) = (taken, .left rest)) :
    c.takes e = taken ∧ (c.step e).running = true ∧
      (c.step e).nextFrame = (some { next with left := rest }, outbound ++ c.sends e) := by
  have hopen := (Transfer.open_of_left hleft).1
  have hstill := running_step hrunning hconnected
  by_cases hwrite : ∃ a, e = .write a
  · obtain ⟨a, rfl⟩ := hwrite
    have hattempt := write_next hrunning hnext hopen a
    rw [show next.left.writeAll [a] = _ from hleft] at hattempt
    refine ⟨by rw [takes, hattempt], hstill, ?_⟩
    rw [step, hattempt, show c.sends (.write a) = [] from rfl, List.append_nil]
    rfl
  · have hnot : ∀ a, e ≠ .write a := fun a ha => hwrite ⟨a, ha⟩
    have hquiet : answers [e] = [] := by
      cases e with
      | write a => exact absurd rfl (hnot a)
      | _ => rfl
    rw [hquiet, Transfer.writeAll_nil_of_open hopen] at hleft
    cases hleft
    obtain ⟨hframe, hout⟩ := frame_step hnot (trigger?_of_isConnected hconnected)
    exact ⟨takes_of_not_write hnot, hstill, nextFrame_of_append hnext hframe hout⟩

/-- A run that leaves something of a frame has written what the answers say, and that is left. -/
theorem unfinished_run {got : Bytes} {left : Transfer} (hrunning : c.running = true)
    (hconnected : (c.run es).isConnected = true) (hnext : c.nextFrame = (some next, outbound))
    (hleft : next.left.writeAll (answers es) = (got, .left left)) :
    c.collect takes es = got ∧ (c.run es).running = true ∧
      (c.run es).nextFrame = (some { next with left }, outbound ++ c.collect sends es) := by
  induction es generalizing c next outbound got with
  | nil =>
    have hopen := (Transfer.open_of_left hleft).1
    rw [answers, List.filterMap_nil, Transfer.writeAll_nil_of_open hopen] at hleft
    cases hleft
    exact ⟨rfl, hrunning, by rw [collect, List.append_nil]; exact hnext⟩
  | cons e es ih =>
    have hrest : ((c.step e).run es).isConnected = true := hconnected
    rw [show answers (e :: es) = _ from answers_append [e] es, Transfer.writeAll_append] at hleft
    cases hround : next.left.writeAll (answers [e]) with
    | mk taken progress =>
      rw [hround] at hleft
      cases progress with
      -- nothing would be left after that
      | done | failed => cases hleft
      | left rest =>
        obtain ⟨rfl, hprogress⟩ := Prod.mk.inj hleft
        obtain ⟨htakes, hstill, hframe⟩ :=
          unfinished_step hrunning (isConnected_of_run hrest) hnext hround
        obtain ⟨htaken, hend⟩ := ih hstill hrest hframe (Prod.ext rfl hprogress)
        rw [collect, htakes, htaken, collect, ← List.append_assoc]
        exact ⟨rfl, hend⟩

/-- **Attempts at a frame**, whatever happens between them, put into the stream what writing the
whole frame puts there, and the last one has the effect that this has. -/
theorem run_write {got : Bytes} {left : Transfer} (hrunning : c.running = true)
    (hconnected : (c.run es).isConnected = true) (hnext : c.nextFrame = (some next, outbound))
    (hleft : next.left.writeAll (answers es) = (got, .left left)) (a : Attempt) :
    c.collect takes (es ++ [.write a]) =
        (next.left.writeAll (answers (es ++ [.write a]))).1 ∧
      c.run (es ++ [.write a]) =
        (c.run es).afterAttempt next.bodyLength (outbound ++ c.collect sends es)
          (next.left.writeAll (answers (es ++ [.write a]))).2 := by
  obtain ⟨htaken, hstill, hframe⟩ := unfinished_run hrunning hconnected hnext hleft
  have hlast := write_next hstill hframe (Transfer.open_of_left hleft).2 a
  rw [answers_append, Transfer.writeAll_append, hleft, collect_concat, run_concat, htaken, takes,
    step, hlast]
  exact ⟨rfl, rfl⟩

/-- A connection has come to a body, and while these events happen it stays connected and does not
finish the frame. -/
structure IsWriting (c : Connection) (body : Bytes) (outbound : List Bytes) (es : List Event) :
    Prop where
  running : c.running = true
  frame : c.frame = none
  outbound : c.outbound = body :: outbound
  connected : (c.run es).isConnected = true
  unfinished : ∃ left, ((Transfer.ofBody body).writeAll (answers es)).2 = .left left

/-- **A frame is written once**, however the stream takes it: the length of the body as a signed
32-bit number, then the body.  The stream takes the first bytes of this at any time, all of them if
writing succeeds, and none after a fault.  So does the stream of a connection that writes the frame,
attempt by attempt among all that happens to it; the frame counts if writing succeeds, and a fault
ends the connection. -/
theorem writes_frames_once {body : Bytes} (hlen : body.length ≤ Kind.maxCount) {as : List Attempt}
    (hwithin : (Transfer.ofBody body).isWithin as = true) :
    (Transfer.ofBody body).offered = Frame.lengthBytes body.length ++ body ∧
      (Transfer.ofBody body).WritesOnce as ∧
      ∀ (c : Connection) (outbound : List Bytes) (es : List Event) (a : Attempt),
        c.IsWriting body outbound es → answers (es ++ [.write a]) = as →
        c.collect takes (es ++ [.write a]) = ((Transfer.ofBody body).writeAll as).1 ∧
          c.run (es ++ [.write a]) =
            (c.run es).afterAttempt body.length (outbound ++ c.collect sends es)
              ((Transfer.ofBody body).writeAll as).2 := by
  refine ⟨Frame.encode_eq hlen, Transfer.writesOnce hwithin, fun c outbound es a hc has => ?_⟩
  obtain ⟨left, hleft⟩ := hc.unfinished
  have hnext : c.nextFrame = (some ⟨body.length, .ofBody body⟩, outbound) := by
    rw [nextFrame, hc.frame, hc.outbound]
  subst has
  exact run_write hc.running hc.connected hnext (Prod.ext rfl hleft) a

/-- A connection with two bodies to be written. -/
def busySender : Connection :=
  (create {} none 7).run
    [.start, .send [7, 8, 9] .reliable .sent, .send [5] .reliable .sent]

/-- Its stream takes two bytes of the header, then the rest of it with the first byte of the
body. -/
def interrupted : List Event :=
  [.write (.wrote 2), .write .busy, .datagram [1], .write (.wrote 3), .send [6] .reliable .sent]

/-- A frame that is cut within its header and within its body. -/
theorem writes_frames_once_cut :
    ([7, 8, 9] : Bytes).length ≤ Kind.maxCount ∧
      (Transfer.ofBody [7, 8, 9]).isWithin [.wrote 2, .busy, .wrote 3, .wrote 2] = true ∧
      busySender.IsWriting [7, 8, 9] [[5]] interrupted ∧
      (Transfer.ofBody [7, 8, 9]).writeAll [.wrote 2, .busy, .wrote 3, .wrote 2] =
        ([0, 0, 0, 3, 7, 8, 9], .done) ∧
      busySender.collect takes (interrupted ++ [.write (.wrote 2)]) = [0, 0, 0, 3, 7, 8, 9] ∧
      (busySender.run (interrupted ++ [.write (.wrote 2)])).outbound = [[5], [6]] ∧
      (busySender.run (interrupted ++ [.write (.wrote 2)])).traffic.streamSent = 7 := by
  have hlen : ([7, 8, 9] : Bytes).length ≤ Kind.maxCount := by decide
  have hwithin : (Transfer.ofBody [7, 8, 9]).isWithin [.wrote 2, .busy, .wrote 3, .wrote 2] =
      true := by decide
  have hc : busySender.IsWriting [7, 8, 9] [[5]] interrupted :=
    ⟨rfl, rfl, rfl, rfl, ⟨⟨[], [8, 9]⟩, rfl⟩⟩
  obtain ⟨hoffered, honce, hsends⟩ := writes_frames_once hlen hwithin
  obtain ⟨htaken, hrun⟩ := hsends busySender [[5]] interrupted (.wrote 2) hc rfl
  have hall : (Transfer.ofBody [7, 8, 9]).Goes ([.wrote 2, .busy, .wrote 3] ++ .wrote 2 :: [])
      ((Transfer.ofBody [7, 8, 9]).offered, .done) :=
    .done [] (by decide) rfl (by decide) rfl
  have hresult := (honce.goes_iff _).1 hall
  rw [hoffered] at hresult
  rw [hresult] at htaken hrun
  refine ⟨hlen, hwithin, hc, hresult, htaken, ?_, ?_⟩
  · rw [hrun]
    rfl
  · rw [hrun]
    rfl

end Connection

end Tandem
