import Tandem.Proofs.Message.Header
import Tandem.Proofs.Sharing.Failure

/-!
# Read-only messages last

A message that was received to be read-only stays as it is for as long as it has its name, whatever
is done with the view that it was received in, with clones of it, and with readers of it
(`Commons.Leads.keeps_readOnly`).  One step decides: what is done does not set a read-only message
(`Belongings.Step.readOnly_or_not_done`), and what is not done changes no message.  Operations on
messages that are clones of each other do not meet, since a clone has a name of its own
(`Commons.Leads.agreeOn`).

`Commons.Run.messages_protected` puts together what holds of the messages in every state that is
reached.
-/

namespace Tandem

open Memory (Keeps)

namespace Letter

variable {l : Letter}

/-- The code of a ping or acknowledgement. -/
def pingCode? (l : Letter) : Option UInt16 :=
  if l.header.hasCode then some l.header.code else none

/-- A letter that is made the acknowledgement of a ping with a code. -/
def acknowledging (l : Letter) (code : UInt16) : Letter :=
  { l with
    header.flags := l.header.flags ||| (Flags.ping ||| Flags.acknowledgement)
    header.code := code }

/-- `l'` acknowledges the ping `q`, and is otherwise what `l` is. -/
structure Acknowledges (l q l' : Letter) : Prop where
  isAcknowledgement : l'.header.isAcknowledgement = true
  code_eq : l'.header.code = q.header.code
  pingCode?_eq : l'.pingCode? = q.pingCode?
  command_eq : Flags.has l'.header.flags Flags.command = Flags.has l.header.flags Flags.command
  tag_eq : l'.header.tag = l.header.tag
  payload_eq : l'.payload = l.payload
  readOnly_eq : l'.readOnly = l.readOnly

theorem acknowledges_acknowledging (l : Letter) {q : Letter} (hq : q.header.isPing = true) :
    l.Acknowledges q (l.acknowledging q.header.code) := by
  obtain ⟨hack, hcommand⟩ :=
    Header.marked_acknowledgement l.header.flags l.header.tag q.header.code
  refine ⟨hack, rfl, ?_, hcommand, rfl, rfl, rfl⟩
  have hcode : (l.acknowledging q.header.code).header.hasCode = true :=
    (Header.hasCode_iff _).2 (.inr hack)
  have hcode' : q.header.hasCode = true := (Header.hasCode_iff _).2 (.inl hq)
  simp only [pingCode?, hcode, hcode', if_true]
  rfl

theorem readOnly_of_ofWire {bs : Bytes} {readOnly : Bool} (h : ofWire bs readOnly = .ok l) :
    l.readOnly = readOnly := by
  unfold ofWire at h
  cases hd : Header.decode bs with
  | error t =>
    rw [hd] at h
    cases h
  | ok header =>
    rw [hd] at h
    obtain rfl := Except.ok.inj h
    rfl

end Letter

namespace MessageOp

variable {r r' : Register Letter} {op : MessageOp} {reply : Reply} {name : String} {l : Letter}

/-- **Setting a read-only letter** fails, if what is written for it is not refused. -/
theorem Effect.readOnly_or_refused (h : Effect r op reply r') (hm : op.modifies = true)
    (hl : r op.target = some l) (hr : l.readOnly = true) :
    reply = .failed .readOnly ∨
      (∃ s e, op.manuscript? = some s ∧ s.Refuses e ∧ reply = .refused e) ∨
      ∃ k ∈ op.uses, r k = none ∧ reply = .refused .outOfRange := by
  have hnot : ∀ {l' : Letter}, r op.target = some l' → l'.readOnly ≠ false := by
    intro l' hl' hw
    obtain rfl := Option.some.inj (hl'.symm.trans hl)
    rw [hr] at hw
    cases hw
  cases h with
  | empty | ofManuscript | ofRecord | ofPayload | ofWire | rewire | clone | drop => cases hm
  | setTag tag h hw => exact absurd hw (hnot h)
  | setCommand command h hw => exact absurd hw (hnot h)
  | makePing code h hw => exact absurd hw (hnot h)
  | makeAcknowledgement h hw hq hp => exact absurd hw (hnot h)
  | notAPing h hw hq hp => exact absurd hw (hnot h)
  | clear h hw => exact absurd hw (hnot h)
  | setManuscript h hw hs => exact absurd hw (hnot h)
  | setRecord h hw hs => exact absurd hw (hnot h)
  | readOnly hm h hr => exact .inl rfl
  | refused hm hs => exact .inr (.inl ⟨_, _, hm, hs, rfl⟩)
  | unused hu h => exact .inr (.inr ⟨_, hu, h, rfl⟩)

theorem Effect.of_clone {source : String} (h : Effect r (.clone name source) reply r')
    (hl : r source = some l) :
    reply = .done ∧ r' = r.put name (some { l with readOnly := false }) := by
  cases h with
  | clone name h =>
    obtain rfl := Option.some.inj (h.symm.trans hl)
    exact ⟨rfl, rfl⟩
  | readOnly hm h hr => cases hm
  | refused hm hs => cases hm
  | unused hu h =>
    obtain rfl := List.mem_singleton.1 hu
    rw [hl] at h
    cases h

theorem Effect.of_makeAcknowledgement {ping : String} {q : Letter}
    (h : Effect r (.makeAcknowledgement name ping) reply r') (hl : r name = some l)
    (hw : l.readOnly = false) (hq : r ping = some q) :
    q.header.isPing = true ∧ reply = .done ∧
        r' = r.put name (some (l.acknowledging q.header.code)) ∨
      q.header.isPing = false ∧ reply = .failed .notAPing ∧ r' = r := by
  cases h with
  | makeAcknowledgement h hw' hq' hp =>
    obtain rfl := Option.some.inj (h.symm.trans hl)
    obtain rfl := Option.some.inj (hq'.symm.trans hq)
    exact .inl ⟨hp, rfl, rfl⟩
  | notAPing h hw' hq' hp =>
    obtain rfl := Option.some.inj (hq'.symm.trans hq)
    exact .inr ⟨hp, rfl, rfl⟩
  | readOnly hm h hr =>
    obtain rfl := Option.some.inj (h.symm.trans hl)
    rw [hw] at hr
    cases hr
  | refused hm hs => cases hm
  | unused hu h =>
    simp only [uses, List.mem_cons, List.not_mem_nil, or_false] at hu
    rcases hu with rfl | rfl
    · rw [hl] at h
      cases h
    · rw [hq] at h
      cases h

end MessageOp

/-! ### One operation -/

/-- The answer that an operation is done. -/
def Answer.IsDone (a : Answer) : Prop := a = .plain .done ∨ a = .ofMessage .done

namespace Op

/-- The operation sets something of the message under a name. -/
def Sets (name : String) : Op → Prop
  | messages op => op.modifies = true ∧ op.target = name
  | setWriter message _ => message = name
  | _ => False

/-- The operation puts another message under a name, or takes away the one that is there. -/
def Replaces (name : String) (op : Op) : Prop := .message name ∈ op.targets ∧ ¬ op.Sets name

/-- The operation makes a message of bytes as they are received, and puts it under a name. -/
def Receives (name : String) (readOnly : Bool) : Op → Prop
  | receive _ message readOnly' => message = name ∧ readOnly' = readOnly
  | messages (.ofWire message _ readOnly') => message = name ∧ readOnly' = readOnly
  | messages (.rewire message _ readOnly') => message = name ∧ readOnly' = readOnly
  | _ => False

/-- The names that have to be in use for what an operation is given. -/
def needs : Op → List Slot
  | messages op => op.uses.map .message
  | op => op.sources

/-- What is written for a payload. -/
def manuscript? : Op → Option Manuscript
  | messages op => op.manuscript?
  | _ => none

/-- What an operation is given is there, and can be written. -/
structure Supplied (b : Belongings) (op : Op) : Prop where
  present : ∀ k ∈ op.needs, ¬ b.Lacks k
  writable : ∀ s, op.manuscript? = some s → ∀ e, ¬ s.Refuses e

end Op

namespace Belongings

variable {b b' : Belongings} {op : Op} {a : Answer} {name : String} {l : Letter}

theorem Step.messages_eq_of_not_done (h : b.Step op a b') (hn : ¬ a.IsDone) :
    b'.messages = b.messages := by
  cases h with
  | messages h => exact h.eq_of_not_done fun hd => hn (.inr (congrArg _ hd))
  | receive h hr => exact MessageOp.eq_of_not_received hr fun hd => hn (.inr (congrArg _ hd))
  | wrap | ofWriter => exact absurd (.inl rfl) hn
  | setWriter => exact absurd (.inr rfl) hn
  | _ => rfl

/-- **Setting a read-only letter** fails, if the operation has what it is given. -/
theorem Step.readOnly_or_not_done (h : b.Step op a b') (hset : op.Sets name)
    (hl : b.messages name = some l) (hr : l.readOnly = true) :
    a = .ofMessage (.failed .readOnly) ∨ ¬ op.Supplied b ∧ ¬ a.IsDone := by
  cases h with
  | messages h =>
    obtain ⟨hm, rfl⟩ := hset
    rcases h.readOnly_or_refused hm hl hr with rfl | ⟨s, e, hs, he, rfl⟩ | ⟨k, hk, hnone, rfl⟩
    · exact .inl rfl
    · refine .inr ⟨?_, by simp [Answer.IsDone]⟩
      intro hsup
      exact hsup.writable s hs e he
    · refine .inr ⟨?_, by simp [Answer.IsDone]⟩
      intro hsup
      exact hsup.present (.message k) (List.mem_map_of_mem hk) hnone
  | setWriter h hw hf =>
    obtain rfl := hset
    obtain rfl := Option.some.inj (h.symm.trans hl)
    rw [hw] at hr
    cases hr
  | setWriterReadOnly => exact .inl rfl
  | @unused op k hk h =>
    refine .inr ⟨?_, by simp [Answer.IsDone]⟩
    intro hsup
    cases op with
    | messages op => cases hk
    | _ => exact hsup.present k hk h
  | _ => exact hset.elim

theorem Step.readOnly_of_receives {readOnly : Bool} (h : b.Step op (.ofMessage .done) b')
    (hop : op.Receives name readOnly) :
    ∃ l, b'.messages name = some l ∧ l.readOnly = readOnly := by
  have hreceived : ∀ {bs : Bytes} {r : Register Letter},
      b.messages.Received name readOnly bs .done r →
        ∃ l, r name = some l ∧ l.readOnly = readOnly := by
    intro bs r hr
    cases hr with
    | done hl => exact ⟨_, Register.put_self _ _ _, Letter.readOnly_of_ofWire hl⟩
  cases h with
  | messages h =>
    cases h with
    | ofWire h =>
      obtain ⟨rfl, rfl⟩ := hop
      exact hreceived h
    | rewire hs h =>
      obtain ⟨rfl, rfl⟩ := hop
      exact hreceived h
    | _ => exact hop.elim
  | receive h hr =>
    obtain ⟨rfl, rfl⟩ := hop
    exact hreceived hr
  | setWriter => exact hop.elim

end Belongings

namespace Commons

variable {others others' : List View} {done more : List (Op × Answer)} {s t : Commons} {op : Op}
  {name : String} {l : Letter}

/-- **A read-only message** is not changed by an operation that leaves it its name. -/
theorem Sound.keeps_readOnly (h : s.Sound others) (hop : op.Scripted)
    (hl : s.belongings.messages name = some l) (hr : l.readOnly = true)
    (hrep : op.Replaces name → ¬ (s.perform op).1.IsDone) :
    (s.perform op).2.belongings.messages name = some l := by
  by_cases hfits : s.Fits op
  · have he := (h.outcome hop hfits).effect
    by_cases hdone : (s.perform op).1.IsDone
    · -- what is done neither sets the message nor replaces it
      have hset : ¬ op.Sets name := by
        intro hset
        rcases he.readOnly_or_not_done hset hl hr with heq | ⟨-, hn⟩
        · rw [heq] at hdone
          simp [Answer.IsDone] at hdone
        · exact hn hdone
      have hk : Slot.message name ∉ op.targets := fun hk => hrep ⟨hk, hset⟩ hdone
      exact Eq.trans (he.agreeOn hk) hl
    · rw [he.messages_eq_of_not_done hdone]
      exact hl
  · rw [(h.outcome_of_not_fits hfits).effect.2]
    exact hl

/-- **Setting a read-only message** fails. -/
theorem Sound.readOnly_of_sets (h : s.Sound others) (hop : op.Scripted)
    (hl : s.belongings.messages name = some l) (hr : l.readOnly = true) (hset : op.Sets name)
    (hsup : op.Supplied s.belongings) (hfits : s.Fits op) :
    (s.perform op).1 = .ofMessage (.failed .readOnly) := by
  rcases (h.outcome hop hfits).effect.readOnly_or_not_done hset hl hr with heq | ⟨hn, -⟩
  · exact heq
  · exact absurd hsup hn

/-! ### Whatever comes after -/

/-- What may come after a state: further operations with their answers, while the rest of the
program does what it likes with views of its own. -/
inductive Leads (others : List View) (s : Commons) :
    List (Op × Answer) → List View → Commons → Prop
  | refl : Leads others s [] others s
  | perform {more : List (Op × Answer)} {others' : List View} {t : Commons}
      (h : Leads others s more others' t) (op : Op) (hop : op.Scripted) :
      Leads others s (more ++ [(op, (t.perform op).1)]) others' (t.perform op).2
  | elsewhere {more : List (Op × Answer)} {others₁ others₂ : List View} {t : Commons} {m' : Memory}
      (h : Leads others s more others₁ t) (hk : Keeps t.held t.memory m')
      (h' : m'.HeldBy (t.held ++ others₂)) : Leads others s more others₂ { t with memory := m' }

theorem Leads.run (h : Leads others s more others' t) (hs : Run done others s) :
    Run (done ++ more) others' t := by
  induction h with
  | refl =>
    rw [List.append_nil]
    exact hs
  | perform h op hop ih =>
    rw [← List.append_assoc]
    exact ih.perform op hop
  | elsewhere h hk h' ih => exact ih.elsewhere hk h'

/-- **A read-only message lasts** as long as it has its name. -/
theorem Leads.keeps_readOnly (h : Leads others s more others' t) (hs : Run done others s)
    (hl : s.belongings.messages name = some l) (hr : l.readOnly = true)
    (hrep : ∀ e ∈ more, e.1.Replaces name → ¬ e.2.IsDone) :
    t.belongings.messages name = some l := by
  induction h with
  | refl => exact hl
  | perform h op hop ih =>
    have hbefore := ih fun e he => hrep e (List.mem_append_left _ he)
    refine (h.run hs).sound.keeps_readOnly hop hbefore hr ?_
    exact hrep _ (List.mem_append_right _ (List.mem_singleton_self _))
  | elsewhere h hk h' ih =>
    rw [belongings_elsewhere hk]
    exact ih hrep

/-- **What nothing aims at** stays as it is. -/
theorem Leads.agreeOn (h : Leads others s more others' t) (hs : Run done others s) {k : Slot}
    (hk : ∀ e ∈ more, k ∉ e.1.targets) : t.belongings.AgreeOn s.belongings k := by
  induction h with
  | refl => exact .refl _ k
  | perform h op hop ih =>
    have hbefore := ih fun e he => hk e (List.mem_append_left _ he)
    have hlast := hk _ (List.mem_append_right _ (List.mem_singleton_self _))
    exact ((h.run hs).sound.agreeOn hop hlast).trans hbefore
  | elsewhere h hkeep h' ih =>
    rw [belongings_elsewhere hkeep]
    exact ih hk

/-! ### Clones and acknowledgements -/

theorem Sound.effect (h : s.Sound others) {op : MessageOp} (hop : op.Scripted)
    (hdemand : op.demand = none) :
    ∃ reply r, (s.perform (.messages op)).1 = .ofMessage reply ∧
      (s.perform (.messages op)).2.belongings = { s.belongings with messages := r } ∧
      op.Effect s.belongings.messages reply r := by
  have hfits : s.Fits (.messages op) := by
    rw [Fits, demand, hdemand]
    rfl
  have hstep := (@Sound.outcome others s (.messages op) h hop hfits).effect
  generalize (s.perform (.messages op)).1 = a, (s.perform (.messages op)).2.belongings = b
    at hstep ⊢
  cases hstep with
  | messages he => exact ⟨_, _, rfl, rfl, he⟩
  | unused hk hlacks => cases hk

/-- **A clone** is there, it is writable, and it is equal to what it is a clone of. -/
theorem Sound.clone (h : s.Sound others) {source : String}
    (hl : s.belongings.messages source = some l) (name : String) :
    (s.perform (.messages (.clone name source))).1 = .ofMessage .done ∧
      (s.perform (.messages (.clone name source))).2.belongings =
        { s.belongings with
          messages := s.belongings.messages.put name (some { l with readOnly := false }) } := by
  obtain ⟨reply, r, ha, hb, he⟩ := @Sound.effect others s h (.clone name source) trivial rfl
  obtain ⟨rfl, rfl⟩ := he.of_clone hl
  exact ⟨ha, hb⟩

theorem Sound.makeAcknowledgement (h : s.Sound others) {ping : String} {q : Letter}
    (hl : s.belongings.messages name = some l) (hw : l.readOnly = false)
    (hq : s.belongings.messages ping = some q) :
    q.header.isPing = true ∧
        (s.perform (.messages (.makeAcknowledgement name ping))).1 = .ofMessage .done ∧
        (s.perform (.messages (.makeAcknowledgement name ping))).2.belongings.messages name =
          some (l.acknowledging q.header.code) ∨
      q.header.isPing = false ∧
        (s.perform (.messages (.makeAcknowledgement name ping))).1 =
          .ofMessage (.failed .notAPing) := by
  obtain ⟨reply, r, ha, hb, he⟩ :=
    @Sound.effect others s h (.makeAcknowledgement name ping) trivial rfl
  rcases he.of_makeAcknowledgement hl hw hq with ⟨hp, rfl, rfl⟩ | ⟨hp, rfl, -⟩
  · refine .inl ⟨hp, ha, ?_⟩
    rw [hb]
    exact Register.put_self _ _ _
  · exact .inr ⟨hp, ha⟩

/-! ### Messages in every state -/

theorem perform_read {α : Type} (s : Commons) (reader : String) (p : Read α) :
    (s.perform (.readers (.read reader p))).2.memory = s.memory ∧
      (s.perform (.readers (.read reader p))).2.messages = s.messages := by
  simp only [Commons.perform, ReaderOp.run, Workspace.withSlot]
  split
  · exact ⟨rfl, rfl⟩
  · exact ⟨rfl, rfl⟩

/-- **The messages of a commons are protected** from each other, from what shares their payloads,
and from operations that fail. -/
structure Protected (others : List View) (s : Commons) : Prop where
  /-- what is received to be read-only is read-only -/
  received (op : Op) (hop : op.Scripted) (name : String) (hr : op.Receives name true)
    (ha : (s.perform op).1 = .ofMessage .done) :
    ∃ l, (s.perform op).2.belongings.messages name = some l ∧ l.readOnly = true
  /-- a read-only message lasts as long as it has its name, and fails to be set -/
  readOnly (name : String) (l : Letter) (hl : s.belongings.messages name = some l)
    (hr : l.readOnly = true) (more : List (Op × Answer)) (others' : List View) (t : Commons)
    (h : Leads others s more others' t)
    (hrep : ∀ e ∈ more, e.1.Replaces name → ¬ e.2.IsDone) :
    t.belongings.messages name = some l ∧
      ∀ op : Op, op.Scripted → op.Sets name → op.Supplied t.belongings → t.Fits op →
        (t.perform op).1 = .ofMessage (.failed .readOnly)
  /-- an operation on messages is done or not at all -/
  whole (op : Op) (hop : op.Scripted) (reply : MessageOp.Reply)
    (ha : (s.perform op).1 = .ofMessage reply) (hn : reply ≠ .done) :
    Untouched others s (s.perform op).2
  /-- reading changes nothing, also where it fails -/
  reading (α : Type) [Serializable α] (name : String) (x : Message)
    (hx : s.messages.get? name = some x) (a : α) (reader : String) (p : Read α) :
    s.memory.Spares (x.getRecord α s.memory).2 ∧ s.memory.Spares (x.getRecordInto a s.memory).2 ∧
      (s.perform (.readers (.read reader p))).2.memory = s.memory ∧
      (s.perform (.readers (.read reader p))).2.messages = s.messages
  /-- a clone is writable and equal, and stays what it is whatever is done elsewhere, as does what
  it is a clone of -/
  clone (name source : String) (l : Letter) (hl : s.belongings.messages source = some l) :
    let r := s.perform (.messages (.clone name source))
    r.1 = .ofMessage .done ∧
      r.2.belongings.messages name = some { l with readOnly := false } ∧
      (source ≠ name → r.2.belongings.messages source = some l) ∧
      ∀ more others' t, Leads others r.2 more others' t →
        ∀ k, (∀ e ∈ more, Slot.message k ∉ e.1.targets) →
          t.belongings.messages k = r.2.belongings.messages k
  /-- pings and acknowledgements exclude each other, and are what has a code -/
  kinds (name : String) (x : Message) (hx : s.messages.get? name = some x) :
    ¬ (x.isPing = true ∧ x.isAcknowledgement = true) ∧
      (x.pingCode?.isSome = true ↔ x.isPing = true ∨ x.isAcknowledgement = true)
  /-- a writable message acknowledges pings only, whatever its flags are -/
  acknowledgement (name ping : String) (l q : Letter)
    (hl : s.belongings.messages name = some l) (hw : l.readOnly = false)
    (hq : s.belongings.messages ping = some q) :
    let r := s.perform (.messages (.makeAcknowledgement name ping))
    (r.1 = .ofMessage .done ↔ q.header.isPing = true) ∧
      (q.header.isPing = false → r.1 = .ofMessage (.failed .notAPing)) ∧
      (q.header.isPing = true →
        ∃ l', r.2.belongings.messages name = some l' ∧ l.Acknowledges q l')

/-- **Read-only messages are immutable, and operations on messages are all or nothing**, in every
state that is reached by operations on views, writers, readers and messages, however these share
memory. -/
theorem Run.messages_protected (h : Run done others s) : s.Protected others where
  received op hop name hr ha := by
    by_cases hfits : s.Fits op
    · have he := (h.sound.outcome hop hfits).effect
      rw [ha] at he
      exact he.readOnly_of_receives hr
    · have hrefusal := (h.sound.outcome_of_not_fits hfits).effect.1
      rw [ha] at hrefusal
      simp [Answer.IsRefusal] at hrefusal
  readOnly name l hl hr more others' t hleads hrep := by
    have hlast := hleads.keeps_readOnly h hl hr hrep
    refine ⟨hlast, ?_⟩
    intro op hop hset hsup hfits
    exact (hleads.run h).sound.readOnly_of_sets hop hlast hr hset hsup hfits
  whole op hop reply ha hn := h.sound.untouched hop ha hn
  reading α _ name x hx a reader p := by
    have hmem : x.payload ∈ s.held ++ others := messagePart.view_mem hx
    have hpos := h.sound.held.handles_pos hmem
    exact ⟨Message.spares_getRecord hpos, Message.spares_getRecordInto a hpos,
      s.perform_read reader p⟩
  clone name source l hl := by
    obtain ⟨ha, hb⟩ := h.sound.clone hl name
    refine ⟨ha, ?_, ?_, ?_⟩
    · rw [hb]
      exact Register.put_self _ _ _
    · intro hne
      rw [hb]
      exact (Register.put_of_ne _ hne).trans hl
    · intro more others' t hleads k hk
      exact hleads.agreeOn (h.perform _ trivial) hk
  kinds name x hx := by
    refine ⟨x.header.not_isPing_and_isAcknowledgement, ?_⟩
    have hcode : x.pingCode?.isSome = x.header.hasCode := by
      unfold Message.pingCode?
      cases x.header.hasCode <;> rfl
    rw [hcode]
    exact x.header.hasCode_iff
  acknowledgement name ping l q hl hw hq := by
    rcases h.sound.makeAcknowledgement hl hw hq with ⟨hp, ha, hmsg⟩ | ⟨hp, ha⟩
    · refine ⟨iff_of_true ha hp, ?_, ?_⟩
      · intro hn
        rw [hp] at hn
        cases hn
      · intro _
        exact ⟨_, hmsg, l.acknowledges_acknowledging hp⟩
    · have hnot : ¬ q.header.isPing = true := by
        rw [hp]
        exact Bool.false_ne_true
      have hfailed : (s.perform (.messages (.makeAcknowledgement name ping))).1 ≠
          .ofMessage .done := by
        intro hd
        rw [ha] at hd
        cases hd
      exact ⟨iff_of_false hfailed hnot, fun _ => ha, fun hn => absurd hn hnot⟩

/-- A ping is received to be read-only and cloned.  It does not see that the view that it was
received in is written to, it cannot be given another tag, and the clone can be made its
acknowledgement. -/
theorem messages_protected_ping :
    ∃ done s, Run done [] s ∧
      s.belongings.messages "in" = some ⟨⟨0x40, 7, 258⟩, true, [9, 9]⟩ ∧
      ∃ more t, Leads [] s more [] t ∧
        t.belongings.views "wire" = some [0x40, 0, 7, 1, 2, 9, 1] ∧
        t.belongings.messages "in" = some ⟨⟨0x40, 7, 258⟩, true, [9, 9]⟩ ∧
        (t.perform (.messages (.setTag "in" 5))).1 = .ofMessage (.failed .readOnly) ∧
        (t.perform (.messages (.makeAcknowledgement "out" "in"))).1 = .ofMessage .done := by
  have h₀ : Run [] [] (.start .initial) := .start Memory.wellFormed_initial.heldBy_nil
  have h₁ := h₀.perform (.views (.ofBytes "wire" [0x40, 0, 7, 1, 2, 9, 9])) trivial
  have h₂ := h₁.perform (.receive "wire" "in" true) trivial
  have later := fun s : Commons =>
    ((@Leads.refl [] s).perform (.views (.set "wire" 6 1)) trivial).perform
      (.messages (.clone "out" "in")) trivial
  have hsupplied : ∀ b : Belongings, b.messages "in" = some ⟨⟨0x40, 7, 258⟩, true, [9, 9]⟩ →
      Op.Supplied b (.messages (.setTag "in" 5)) := by
    intro b hb
    constructor
    case present =>
      intro k hk hlacks
      obtain rfl := List.mem_singleton.1 hk
      cases hb.symm.trans hlacks
    case writable =>
      intro s hs
      cases hs
  have hin := h₂.messages_protected.readOnly "in" ⟨⟨0x40, 7, 258⟩, true, [9, 9]⟩ (by decide) rfl
    _ _ _ (later _) (by simp [Op.Replaces, Op.targets, ViewOp.target, MessageOp.target])
  have hout := ((later _).run h₂).messages_protected.acknowledgement "out" "in"
    ⟨⟨0x40, 7, 258⟩, false, [9, 9]⟩ ⟨⟨0x40, 7, 258⟩, true, [9, 9]⟩ (by decide) rfl hin.1
  exact ⟨_, _, h₂, by decide, _, _, later _, by decide, hin.1,
    hin.2 (.messages (.setTag "in" 5)) trivial ⟨rfl, rfl⟩ (hsupplied _ hin.1) rfl, hout.1.2 rfl⟩

end Commons

end Tandem
