import Tandem.Proofs.Sharing.Independence

/-!
# Operations on messages are done or not at all

An operation on messages that answers anything but that it is done leaves all that stands under
names as it was, and every array has as many handles as before (`Commons.Sound.untouched`): a view
that was made for it, or a draft, is let go of again.  Of the whole commons only the memory may be
another one, since a block may have been taken and given back in the meantime (`Commons.Whole`).
What is read from a message is read through a handle that is there for no longer than that
(`Message.spares_getRecord`).
-/

namespace Tandem

open Memory (HeldBy Keeps)

namespace MessageOp

variable {r r' : Register Letter} {op : MessageOp} {reply : Reply} {name : String}

/-! ### Letters -/

theorem eq_of_not_received {readOnly : Bool} {bs : Bytes}
    (h : r.Received name readOnly bs reply r') (hn : reply ≠ .done) : r' = r := by
  cases h with
  | done h => exact absurd rfl hn
  | truncated h => rfl

/-- **What is not done changes no letter.** -/
theorem Effect.eq_of_not_done (h : Effect r op reply r') (hn : reply ≠ .done) : r' = r := by
  cases h with
  | ofWire h => exact eq_of_not_received h hn
  | rewire hs h => exact eq_of_not_received h hn
  | notAPing | readOnly | refused | unused => rfl
  | _ => exact absurd rfl hn

/-! ### Messages -/

/-- The messages are what they were unless the answer is that it is done. -/
def Whole (w : Workspace Message) (r : Reply × Workspace Message) : Prop :=
  r.1 ≠ .done → r.2.slots = w.slots

variable {w : Workspace Message}

theorem whole_put (r : Message × Memory) : Whole w (put w name r) := fun hn => absurd rfl hn

theorem whole_change (r : Except MessageError Message × Memory) : Whole w (change w name r) := by
  obtain ⟨result, m⟩ := r
  cases result with
  | ok x => exact fun hn => absurd rfl hn
  | error e => exact fun _ => rfl

theorem whole_receive (readOnly : Bool) (r : View × Memory) :
    Whole w (receive w name readOnly r) := by
  unfold receive
  split
  · exact whole_put _
  · exact fun _ => rfl

theorem whole_onMessage {f : Message → Reply × Workspace Message} (hf : ∀ x, Whole w (f x)) :
    Whole w (onMessage w name f) :=
  onMessage_cases (fun _ _ => rfl) fun x _ => hf x

theorem whole_write (s : Manuscript) {f : Draft → Reply × Workspace Message}
    (hf : ∀ d, Whole w (f d)) : Whole w (write w s f) := by
  unfold write
  split
  · exact fun _ => rfl
  · split
    · exact hf _
    · exact fun _ => rfl

/-- **What is not done changes no message**, although views may have been made for it. -/
theorem whole_run (w : Workspace Message) (op : MessageOp) : Whole w (op.run w) := by
  cases op with
  | empty name tag => exact whole_put _
  | ofManuscript name tag s => exact whole_write s fun d => whole_put _
  | ofRecord name tag a => exact whole_put _
  | ofPayload name tag bs => exact whole_put _
  | ofWire name bs readOnly => exact whole_receive readOnly _
  | rewire name source readOnly => exact whole_onMessage fun x => whole_receive readOnly _
  | clone name source => exact whole_onMessage fun x => whole_put _
  | drop name => exact fun hn => absurd rfl hn
  | setTag name tag => exact whole_onMessage fun x => whole_change _
  | setCommand name command => exact whole_onMessage fun x => whole_change _
  | makePing name code => exact whole_onMessage fun x => whole_change _
  | makeAcknowledgement name ping =>
    exact whole_onMessage fun x => whole_onMessage fun y => whole_change _
  | clear name => exact whole_onMessage fun x => whole_change _
  | setManuscript name s => exact whole_onMessage fun x => whole_write s fun d => whole_change _
  | setRecord name a => exact whole_onMessage fun x => whole_change _

end MessageOp

/-! ### Everything that is shared -/

theorem Belongings.Step.eq_of_not_done {b b' : Belongings} {op : Op} {reply : MessageOp.Reply}
    (h : b.Step op (.ofMessage reply) b') (hn : reply ≠ .done) : b' = b := by
  cases h with
  | messages h => rw [h.eq_of_not_done hn]
  | receive h hr => rw [MessageOp.eq_of_not_received hr hn]
  | setWriter h hw hf => exact absurd rfl hn
  | setWriterReadOnly h hr hf => rfl

namespace Commons

variable {others : List View} {s s' : Commons} {op : Op} {reply : MessageOp.Reply}

/-- Only the memory is another one, unless the answer is that an operation on messages is done. -/
def Whole (s : Commons) (r : Answer × Commons) : Prop :=
  ∀ reply, r.1 = .ofMessage reply → reply ≠ .done → ∃ m, r.2 = { s with memory := m }

theorem whole_of_plain {r : Answer × Commons} {reply : Reply} (h : r.1 = .plain reply) :
    s.Whole r := by
  intro reply' h'
  rw [h] at h'
  cases h'

theorem whole_on {α : Type} {slots : Table String α} {name : String} {f : α → Answer × Commons}
    (hf : ∀ x, s.Whole (f x)) : s.Whole (s.on slots name f) := by
  unfold on
  split
  · exact whole_of_plain rfl
  · exact hf _

theorem whole_withMessages {r : MessageOp.Reply × Workspace Message}
    (h : MessageOp.Whole s.messageSpace r) : s.Whole (.ofMessage r.1, s.withMessages r.2) := by
  intro reply heq hn
  cases heq
  have hslots : r.2.slots = s.messages := h hn
  refine ⟨r.2.memory, ?_⟩
  rw [withMessages, hslots]

theorem whole_perform (s : Commons) (op : Op) : s.Whole (s.perform op) := by
  cases op with
  | views op => exact whole_of_plain rfl
  | overwrite view p bs => exact whole_of_plain rfl
  | writers op => exact whole_of_plain rfl
  | readers op => exact whole_of_plain rfl
  | messages op => exact whole_withMessages (MessageOp.whole_run _ op)
  | receive view message readOnly =>
    refine whole_on ?_
    intro v
    split
    · intro reply heq hn
      cases heq
      exact absurd rfl hn
    · exact fun _ _ _ => ⟨s.memory, rfl⟩
  | setWriter message writer =>
    exact whole_on fun x => whole_on fun y => whole_withMessages (MessageOp.whole_change _)
  | _ => exact whole_on fun x => whole_of_plain rfl

/-- Nothing that stands under a name is another one, and the arrays have as many handles. -/
structure Untouched (others : List View) (s s' : Commons) : Prop where
  exists_memory : ∃ m, s' = { s with memory := m }
  belongings_eq : s'.belongings = s.belongings
  handles_eq : ∀ v ∈ s.held ++ others, s'.memory.handles v.array = s.memory.handles v.array

/-- **An operation on messages is done or not at all.** -/
theorem Sound.untouched (h : s.Sound others) (hop : op.Scripted)
    (ha : (s.perform op).1 = .ofMessage reply) (hn : reply ≠ .done) :
    Untouched others s (s.perform op).2 := by
  have hexists := whole_perform s op reply ha hn
  refine ⟨hexists, ?_, ?_⟩
  · by_cases hfits : s.Fits op
    · have he := (h.outcome hop hfits).effect
      rw [ha] at he
      exact he.eq_of_not_done hn
    · exact (h.outcome_of_not_fits hfits).effect.2
  · -- the same views hold their arrays, so the handles are as many
    intro v hv
    obtain ⟨m, hm⟩ := hexists
    have hsound := (h.perform hop).1
    rw [hm] at hsound ⊢
    exact (hsound.held.handles_eq v hv).trans (h.held.handles_eq v hv).symm

end Commons

/-! ### Reading -/

/-- The same arrays with as many handles as before. -/
structure Memory.Spares (m m' : Memory) : Prop where
  handles_eq : ∀ a, m'.handles a = m.handles a
  block_eq : ∀ a, m'.block a = m.block a

namespace Message

variable {m : Memory} {x : Message}

theorem spares_drop_clone {v : View} (h : 0 < m.handles v.array) :
    m.Spares (v.drop (v.clone m)) where
  handles_eq a := by
    rw [View.drop, View.clone, Memory.handles_release, Memory.handles_retain h,
      Memory.handles_retain h, if_pos rfl, Nat.add_sub_cancel]
    split_ifs with ha
    · rw [ha]
    · rfl
  block_eq a := by
    have htwo : 1 < (m.retain v.array).handles v.array := by
      rw [Memory.handles_retain h, if_pos rfl]
      omega
    rw [View.drop, View.clone, Memory.block_release fun _ => htwo, Memory.block_retain]

/-- **Reading a value** from a message, also where it fails. -/
theorem spares_getRecord {α : Type} [Serializable α] (h : 0 < m.handles x.payload.array) :
    m.Spares (x.getRecord α m).2 :=
  spares_drop_clone h

theorem spares_getRecordInto {α : Type} [Serializable α] (a : α)
    (h : 0 < m.handles x.payload.array) : m.Spares (x.getRecordInto a m).2 :=
  spares_drop_clone h

end Message

end Tandem
