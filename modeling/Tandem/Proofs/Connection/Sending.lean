import Tandem.Proofs.Connection.Course
import Tandem.Proofs.Frame.Encoding
import Tandem.Proofs.Frame.Transfer

/-!
# From the calls to the stream

The bodies that a connection has taken on and not yet written are what is left of the frame that is
being written and the frames of the bodies behind it (`Connection.pending`).  Every event that
leaves a connection connected puts the bodies that it takes on at the end of this, and takes what it
writes from the front (`pending_step`).
-/

namespace Tandem

namespace Connection

variable {c : Connection} {e : Event} {cause : Cause}

/-- The bytes that are still to be written. -/
def pending (c : Connection) : Bytes :=
  (match c.frame with
    | some frame => frame.left.offered
    | none => []) ++ Frame.encodeAll c.outbound

/-- What is true of every connection at any time. -/
structure Valid (c : Connection) : Prop where
  state : c.state = .connected ∨ c.state = .disconnected
  running : c.running = true → c.state = .connected
  /-- what was not written when the connection ended stays unwritten -/
  stopped : c.state = .disconnected → c.outbound = [] ∧ c.frame = none
  /-- no body is too long for the length in front of it -/
  short : ∀ body ∈ c.outbound, body.length ≤ Kind.maxCount

theorem valid_create (config : EndpointConfig) (maxBody : Option Nat) (token : Token) :
    (create config maxBody token).Valid where
  state := .inl rfl
  running h := by cases h
  stopped h := by cases h
  short body h := by cases h

/-! ### Frames -/

theorem pending_of_nextFrame {frame : OutgoingFrame} {outbound : List Bytes}
    (h : c.nextFrame = (some frame, outbound)) :
    c.pending = frame.left.offered ++ Frame.encodeAll outbound ∧
      ∀ body ∈ outbound, body ∈ c.outbound := by
  unfold nextFrame at h
  split at h
  · next f rest hframe =>
    cases h
    rw [pending, hframe]
    exact ⟨rfl, fun _ => id⟩
  · cases h
  · next b rest hframe hout =>
    cases h
    rw [pending, hframe, hout, Frame.encodeAll_cons, Frame.Transfer.offered_ofBody]
    exact ⟨rfl, fun _ => List.mem_cons_of_mem _⟩

/-! ### Steps -/

/-- A body is taken on by a connection that is connected, unless it is too long for a frame; one
that is not taken on has no effect. -/
theorem sendBytes_reliable (c : Connection) (bs : Bytes) (a : DatagramAttempt) :
    c.sendBytes bs .reliable a =
      if (c.isConnected && decide (bs.length ≤ Kind.maxCount)) = true then
        (true, { c with outbound := c.outbound ++ [bs] })
      else (false, c) := by
  unfold sendBytes sendReliable
  by_cases hconnected : c.isConnected = true
  · by_cases hlen : bs.length ≤ Kind.maxCount
    · simp only [hconnected, hlen, if_true, Nat.not_lt.2 hlen, if_false, decide_true, Bool.and_self]
    · simp only [hconnected, hlen, if_true, Nat.lt_of_not_le hlen, decide_false, Bool.and_false,
        Bool.false_eq_true, if_false]
  · simp only [hconnected, Bool.false_and, Bool.false_eq_true, if_false]

theorem step_of_trigger_of_connected (h : c.trigger? e = some cause) (hs : c.state = .connected) :
    ∃ assembly traffic, c.step e = { c with
      assembly
      traffic
      state := .disconnected
      running := false
      outbound := []
      frame := none
      dispatcher := { c.dispatcher with inbox := c.dispatcher.inbox.forget }.announce cause } := by
  obtain ⟨assembly, traffic, heq⟩ := step_of_trigger h
  refine ⟨assembly, traffic, heq.trans ?_⟩
  simp only [disconnectWith, ConnectionState.beginDisconnect, hs]
  rfl

theorem step_of_trigger_of_disconnected (h : c.trigger? e = some cause)
    (hs : c.state = .disconnected) :
    ∃ assembly traffic, c.step e = { c with assembly, traffic } := by
  obtain ⟨assembly, traffic, heq⟩ := step_of_trigger h
  refine ⟨assembly, traffic, heq.trans ?_⟩
  simp only [disconnectWith, ConnectionState.beginDisconnect, hs]
  rfl

theorem sends_of_trigger (h : c.trigger? e = some cause) : c.sends e = [] ∧ c.takes e = [] := by
  cases e with
  | send bs ch a =>
    cases ch with
    | reliable => cases h
    | unreliable => exact ⟨rfl, rfl⟩
  | write a =>
    refine ⟨rfl, ?_⟩
    cases hnext : c.nextFrame with
    | mk next outbound =>
      cases next with
      | none => simp only [trigger?, hnext, reduceCtorEq] at h
      | some next =>
        cases hattempt : next.left.attempt a with
        | ok _ => simp only [trigger?, hnext, hattempt, reduceCtorEq] at h
        | error f =>
          simp only [takes, write, hnext, hattempt]
          split_ifs <;> rfl
  | start | settle | datagram _ | poll _ | check | finish | conclude => cases h
  | read _ | readEnd | readFailed _ | datagramFailed _ | disconnect _ => exact ⟨rfl, rfl⟩

theorem Valid.step (hv : c.Valid) (e : Event) : (c.step e).Valid := by
  cases htrigger : c.trigger? e with
  | some cause =>
    rcases hv.state with hs | hs
    · obtain ⟨assembly, traffic, heq⟩ := step_of_trigger_of_connected htrigger hs
      rw [heq]
      exact ⟨.inr rfl, nofun, fun _ => ⟨rfl, rfl⟩, nofun⟩
    · obtain ⟨assembly, traffic, heq⟩ := step_of_trigger_of_disconnected htrigger hs
      rw [heq]
      exact ⟨hv.state, hv.running, hv.stopped, hv.short⟩
  | none =>
    have hgoes := goes_step htrigger
    generalize c.step e = c' at hgoes
    cases hgoes with
    | stays => exact hv
    | starts hphase =>
      exact ⟨hv.state, of_decide_eq_true, hv.stopped, hv.short⟩
    | @queues bs a hconnected hlen =>
      have hs : c.state = .connected := of_decide_eq_true hconnected
      refine ⟨hv.state, hv.running, fun h => ?_, fun body hbody => ?_⟩
      · rw [hs] at h
        cases h
      · rcases List.mem_append.1 hbody with hbody | hbody
        · exact hv.short body hbody
        · exact List.mem_singleton.1 hbody ▸ hlen
    | writes frame traffic hrunning hnext =>
      obtain ⟨-, hsub⟩ := pending_of_nextFrame hnext
      refine ⟨hv.state, hv.running, fun h => ?_, fun body hbody => hv.short body (hsub body hbody)⟩
      rw [hv.running hrunning] at h
      cases h
    | sends | reads | serves => exact ⟨hv.state, hv.running, hv.stopped, hv.short⟩

/-- **Bytes are written in the order in which their bodies were taken on**, as long as the
connection stays connected. -/
theorem Valid.pending_step (hv : c.Valid) (e : Event) (h : (c.step e).state = .connected) :
    c.state = .connected ∧
      c.pending ++ Frame.encodeAll (c.sends e) = c.takes e ++ (c.step e).pending := by
  have hs : c.state = .connected := by
    rcases hv.state with hs | hs
    · exact hs
    · rw [state_step] at h
      split_ifs at h
      exact h
  refine ⟨hs, ?_⟩
  cases htrigger : c.trigger? e with
  | some cause =>
    obtain ⟨assembly, traffic, heq⟩ := step_of_trigger_of_connected htrigger hs
    rw [heq] at h
    cases h
  | none =>
    have hgoes := goes_step htrigger
    generalize c.step e = c' at hgoes
    cases hgoes with
    | stays _ _ hsends htakes =>
      rw [hsends, htakes, Frame.encodeAll_nil, List.append_nil, List.nil_append]
    | queues a _ _ hsends =>
      rw [hsends, pending, pending, Frame.encodeAll_append, List.append_assoc]
      rfl
    | writes frame traffic _ hnext hattempt htakes hframe =>
      rw [(pending_of_nextFrame hnext).1, Frame.Transfer.offered_of_attempt hattempt, htakes]
      cases frame with
      | none =>
        rw [hframe]
        simp [sends, pending]
      | some frame =>
        rw [← hframe]
        simp [sends, pending]
    | starts | sends | reads => exact List.append_nil _
    | serves trips traffic hinner => cases hinner <;> exact List.append_nil _

theorem length_of_mem_sends {body : Bytes} (h : body ∈ c.sends e) :
    body.length ≤ Kind.maxCount := by
  cases e with
  | send bs ch a =>
    cases ch with
    | unreliable => cases h
    | reliable =>
      rw [sends, sendBytes_reliable] at h
      by_cases haccepted : (c.isConnected && decide (bs.length ≤ Kind.maxCount)) = true
      · rw [if_pos haccepted] at h
        rw [Bool.and_eq_true] at haccepted
        exact List.mem_singleton.1 h ▸ of_decide_eq_true haccepted.2
      · rw [if_neg haccepted] at h
        cases h
  | _ => cases h

/-- Once a connection is disconnected, it takes on no body and writes nothing. -/
theorem Valid.stopped_step (hv : c.Valid) (e : Event) (h : (c.step e).state ≠ .connected) :
    c.sends e = [] ∧ c.takes e = [] := by
  cases htrigger : c.trigger? e with
  | some cause => exact sends_of_trigger htrigger
  | none =>
    have hgoes := goes_step htrigger
    generalize c.step e = c' at hgoes h
    cases hgoes with
    | stays _ _ hsends htakes => exact ⟨hsends, htakes⟩
    | queues a hconnected => exact absurd (of_decide_eq_true hconnected) h
    | writes frame traffic hrunning => exact absurd (hv.running hrunning) h
    | starts | sends | reads => exact ⟨rfl, rfl⟩
    | serves trips traffic hinner => cases hinner <;> exact ⟨rfl, rfl⟩

end Connection

end Tandem
