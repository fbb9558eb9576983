import Tandem.Proofs.Sharing.Holders
import Tandem.Proofs.Writing.Manuscript

/-!
# Messages as letters

A letter is a message with a payload of its own.  `MessageOp.Effect` says what the operations on
messages do to letters under names, and `MessageOp.outcome_run` that they do it to the messages of a
workspace, however these share their payloads among each other, with writers, or with views that
they were received in.  An operation that fails changes no letter.
-/

namespace Tandem

open Memory (HeldBy Keeps)

/-- A message with a payload of its own. -/
structure Letter where
  header : Header
  readOnly : Bool
  payload : Bytes
  deriving DecidableEq, Repr

namespace Letter

/-- A writable letter. -/
def ofPayload (tag : UInt16) (bs : Bytes) : Letter := ⟨⟨0, tag, 0⟩, false, bs⟩

/-- The letter that received bytes stand for. -/
def ofWire (bs : Bytes) (readOnly : Bool) : Except Truncated Letter :=
  (Header.decode bs).map fun h => ⟨h, readOnly, bs.drop h.length⟩

/-- The bytes that stand for a letter on the wire. -/
def wire (l : Letter) : Bytes := l.header.encode ++ l.payload

end Letter

instance : Holder Message Letter where
  view := Message.payload
  value x bs := ⟨x.header, x.readOnly, bs⟩

/-- What receiving bytes does to letters. -/
inductive Register.Received (r : Register Letter) (name : String) (readOnly : Bool) (bs : Bytes) :
    MessageOp.Reply → Register Letter → Prop
  | done {l : Letter} (h : Letter.ofWire bs readOnly = .ok l) :
      Received r name readOnly bs .done (r.put name (some l))
  | truncated {t : Truncated} (h : Letter.ofWire bs readOnly = .error t) :
      Received r name readOnly bs (.failed (.truncated t)) r

namespace MessageOp

/-- The name that an operation puts a message under, takes one from, or changes one of. -/
def target : MessageOp → String
  | empty name _ | ofManuscript name _ _ | @ofRecord _ _ name _ _ | ofPayload name _ _
  | ofWire name _ _ | rewire name _ _ | clone name _ | drop name | setTag name _
  | setCommand name _ | makePing name _ | makeAcknowledgement name _ | clear name
  | setManuscript name _ | @setRecord _ _ name _ => name

/-- The names that have to be in use. -/
def uses : MessageOp → List String
  | rewire _ source _ | clone _ source => [source]
  | setTag name _ | setCommand name _ | makePing name _ | clear name | setManuscript name _
  | @setRecord _ _ name _ => [name]
  | makeAcknowledgement name ping => [name, ping]
  | _ => []

/-- Whether a message is changed, which a read-only one refuses. -/
def modifies : MessageOp → Bool
  | setTag _ _ | setCommand _ _ | makePing _ _ | makeAcknowledgement _ _ | clear _
  | setManuscript _ _ | @setRecord _ _ _ _ => true
  | _ => false

/-- What is written for a payload. -/
def manuscript? : MessageOp → Option Manuscript
  | ofManuscript _ _ s | setManuscript _ s => some s
  | _ => none

/-- The length of the array that a manuscript starts with. -/
def demand (op : MessageOp) : Option Nat := op.manuscript?.map Manuscript.room

/-- Values of application types are written by operations on the writer. -/
def Scripted : MessageOp → Prop
  | ofManuscript _ _ s | setManuscript _ s => s.Scripted
  | @ofRecord α _ _ _ _ | @setRecord α _ _ _ => Serializable.Scripted α
  | _ => True

/-- What the operations do to letters. -/
inductive Effect (r : Register Letter) : MessageOp → Reply → Register Letter → Prop
  | empty (name : String) (tag : UInt16) :
      Effect r (.empty name tag) .done (r.put name (some (.ofPayload tag [])))
  | ofManuscript {s : Manuscript} {bs : Bytes} (name : String) (tag : UInt16) (hs : s.Yields bs) :
      Effect r (.ofManuscript name tag s) .done (r.put name (some (.ofPayload tag bs)))
  | ofRecord {α : Type} [Serializable α] {a : α} {bs : Bytes} (name : String) (tag : UInt16)
      (hs : (Manuscript.ofRecord a).Yields bs) :
      Effect r (.ofRecord name tag a) .done (r.put name (some (.ofPayload tag bs)))
  | ofPayload (name : String) (tag : UInt16) (bs : Bytes) :
      Effect r (.ofPayload name tag bs) .done (r.put name (some (.ofPayload tag bs)))
  | ofWire {name : String} {bs : Bytes} {readOnly : Bool} {reply : Reply} {r' : Register Letter}
      (h : r.Received name readOnly bs reply r') : Effect r (.ofWire name bs readOnly) reply r'
  | rewire {name source : String} {l : Letter} {readOnly : Bool} {reply : Reply}
      {r' : Register Letter} (hs : r source = some l)
      (h : r.Received name readOnly l.wire reply r') :
      Effect r (.rewire name source readOnly) reply r'
  | clone {source : String} {l : Letter} (name : String) (h : r source = some l) :
      Effect r (.clone name source) .done (r.put name (some { l with readOnly := false }))
  | drop (name : String) : Effect r (.drop name) .done (r.put name none)
  | setTag {name : String} {l : Letter} (tag : UInt16) (h : r name = some l)
      (hw : l.readOnly = false) :
      Effect r (.setTag name tag) .done
        (r.put name (some { l with header := { l.header with tag } }))
  | setCommand {name : String} {l : Letter} (command : Bool) (h : r name = some l)
      (hw : l.readOnly = false) :
      Effect r (.setCommand name command) .done
        (r.put name (some
          { l with
            header.flags :=
              if command then l.header.flags ||| Flags.command
              else l.header.flags &&& ~~~ Flags.command }))
  | makePing {name : String} {l : Letter} (code : UInt16) (h : r name = some l)
      (hw : l.readOnly = false) :
      Effect r (.makePing name code) .done
        (r.put name (some
          { l with
            header.flags := (l.header.flags ||| Flags.ping) &&& ~~~ Flags.acknowledgement
            header.code := code }))
  | makeAcknowledgement {name ping : String} {l q : Letter} (h : r name = some l)
      (hw : l.readOnly = false) (hq : r ping = some q) (hp : q.header.isPing = true) :
      Effect r (.makeAcknowledgement name ping) .done
        (r.put name (some
          { l with
            header.flags := l.header.flags ||| (Flags.ping ||| Flags.acknowledgement)
            header.code := q.header.code }))
  | notAPing {name ping : String} {l q : Letter} (h : r name = some l)
      (hw : l.readOnly = false) (hq : r ping = some q) (hp : q.header.isPing = false) :
      Effect r (.makeAcknowledgement name ping) (.failed .notAPing) r
  | clear {name : String} {l : Letter} (h : r name = some l) (hw : l.readOnly = false) :
      Effect r (.clear name) .done (r.put name (some { l with payload := [] }))
  | setManuscript {name : String} {l : Letter} {s : Manuscript} {bs : Bytes} (h : r name = some l)
      (hw : l.readOnly = false) (hs : s.Yields bs) :
      Effect r (.setManuscript name s) .done (r.put name (some { l with payload := bs }))
  | setRecord {α : Type} [Serializable α] {name : String} {l : Letter} {a : α} {bs : Bytes}
      (h : r name = some l) (hw : l.readOnly = false) (hs : (Manuscript.ofRecord a).Yields bs) :
      Effect r (.setRecord name a) .done (r.put name (some { l with payload := bs }))
  | readOnly {op : MessageOp} {l : Letter} (hm : op.modifies = true) (h : r op.target = some l)
      (hr : l.readOnly = true) : Effect r op (.failed .readOnly) r
  | refused {op : MessageOp} {s : Manuscript} {e : Misuse} (hm : op.manuscript? = some s)
      (hs : s.Refuses e) : Effect r op (.refused e) r
  | unused {op : MessageOp} {name : String} (hu : name ∈ op.uses) (h : r name = none) :
      Effect r op (.refused .outOfRange) r

theorem of_ne_of_received {r r' : Register Letter} {name k : String} {readOnly : Bool} {bs : Bytes}
    {reply : Reply} (h : r.Received name readOnly bs reply r') (hk : name ≠ k) : r' k = r k := by
  cases h with
  | done h => exact Register.put_of_ne _ (Ne.symm hk)
  | truncated h => rfl

theorem Effect.of_ne {r r' : Register Letter} {op : MessageOp} {reply : Reply} {k : String}
    (he : Effect r op reply r') (hk : op.target ≠ k) : r' k = r k := by
  cases he with
  | ofWire h => exact of_ne_of_received h hk
  | rewire hs h => exact of_ne_of_received h hk
  | notAPing | readOnly | refused | unused => rfl
  | _ => exact Register.put_of_ne _ (Ne.symm hk)

end MessageOp

/-! ### Receiving -/

theorem Header.length_le_of_decode {bs : Bytes} {h : Header} (hd : decode bs = .ok h) :
    h.length ≤ bs.length := by
  unfold decode at hd
  split at hd
  · next flags t₁ t₀ rest =>
    dsimp only at hd
    split_ifs at hd with hc
    · split at hd
      · next c₁ c₀ rest' =>
        obtain rfl := Except.ok.inj hd
        have hlen : length ⟨flags, word t₁ t₀, word c₁ c₀⟩ = codedLength := if_pos hc
        simp only [hlen, codedLength, List.length_cons]
        omega
      · cases hd
    · obtain rfl := Except.ok.inj hd
      have hlen : length ⟨flags, word t₁ t₀, 0⟩ = baseLength := if_neg hc
      simp only [hlen, baseLength, List.length_cons]
      omega
  · cases hd

namespace Message

variable {m : Memory} {v : View} {vs : List View} {readOnly : Bool} {x : Message}

/-- **Receiving** a letter: the payload is a stretch of the view that it is received in. -/
theorem held_ofWire (h : m.HeldBy vs) (hv : v ∈ vs) {l : Letter}
    (hl : Letter.ofWire (v.bytes m) readOnly = .ok l) :
    ∃ x, ofWire v readOnly m = (.ok x, v.clone m) ∧
      (v.clone m).HeldBy (x.payload :: vs) ∧ Keeps vs m (v.clone m) ∧
      Holder.value x (x.payload.bytes (v.clone m)) = l := by
  have hlen := h.length_bytes hv
  cases hd : Header.decode (v.bytes m) with
  | error t =>
    rw [Letter.ofWire, hd] at hl
    cases hl
  | ok hdr =>
    rw [Letter.ofWire, hd] at hl
    obtain rfl := Except.ok.inj hl
    have hle := Header.length_le_of_decode hd
    rw [hlen] at hle
    obtain ⟨hh, keep⟩ := View.held_clone_of_mem h hv
      (u := ⟨v.array, v.offset + hdr.length, v.length - hdr.length⟩) rfl (by simp only; omega)
    refine ⟨⟨hdr.flags, hdr.tag, hdr.code, ⟨v.array, v.offset + hdr.length, v.length - hdr.length⟩,
      readOnly⟩, by simp only [ofWire, hd], hh, keep, ?_⟩
    have hbytes := View.bytes_skip v hdr.length (v.clone m)
    rw [keep.bytes_eq hv] at hbytes
    exact congrArg (Letter.mk hdr readOnly) hbytes

theorem ofWire_of_error {t : Truncated} (hl : Letter.ofWire (v.bytes m) readOnly = .error t) :
    ofWire v readOnly m = (.error (.truncated t), m) := by
  cases hd : Header.decode (v.bytes m) with
  | error t' =>
    rw [Letter.ofWire, hd] at hl
    obtain rfl := Except.error.inj hl
    simp only [ofWire, hd]
  | ok hdr =>
    rw [Letter.ofWire, hd] at hl
    cases hl

/-! ### Replacing payloads -/

/-- **Replacing** the payload by a view that is made beside it. -/
theorem replacePayload_eq {make : Memory → View × Memory} (hw : x.readOnly = false)
    (hm : (make m).2.HeldBy ((make m).1 :: x.payload :: vs))
    (hk : Keeps (x.payload :: vs) m (make m).2) :
    x.replacePayload make m =
        (.ok { x with payload := (make m).1 }, x.payload.drop (make m).2) ∧
      (x.payload.drop (make m).2).HeldBy ((make m).1 :: vs) ∧
      Keeps vs m (x.payload.drop (make m).2) ∧
      (make m).1.bytes (x.payload.drop (make m).2) = (make m).1.bytes (make m).2 := by
  obtain ⟨hh, keep⟩ := View.held_drop (hm.perm (.swap _ _ _))
  refine ⟨?_, hh, hk.of_cons.trans keep.of_cons, keep.bytes_eq List.mem_cons_self⟩
  simp only [replacePayload, hw, Bool.false_eq_true, if_false]

theorem replacePayload_of_readOnly (make : Memory → View × Memory) (hr : x.readOnly = true) :
    x.replacePayload make m = (.error .readOnly, m) := by
  simp only [replacePayload, hr, if_true]

end Message

namespace MessageOp

open Workspace

variable {others : List View} {w : Workspace Message} {name : String} {x : Message} {m : Memory}
  {E : Reply → Register Letter → Prop}

theorem onMessage_cases {P : Reply × Workspace Message → Prop}
    {f : Message → Reply × Workspace Message}
    (hnone : w.slots.get? name = none → P (.refused .outOfRange, w))
    (hsome : ∀ x, w.slots.get? name = some x → P (f x)) : P (onMessage w name f) := by
  unfold onMessage
  cases h : w.slots.get? name with
  | none => exact hnone h
  | some x => exact hsome x h

theorem outcome_onMessage (h : w.Sound others) {op : MessageOp} (hu : name ∈ op.uses)
    {f : Message → Reply × Workspace Message}
    (hf : ∀ x, w.slots.get? name = some x → Outcome others w (op.Effect w.register) (f x)) :
    Outcome others w (op.Effect w.register) (onMessage w name f) :=
  onMessage_cases (fun hk => h.outcome (.unused hu (register_of_none hk))) hf

/-- **Receiving** what a view shows that was made for it. -/
theorem outcome_receive (name : String) {made : View × Memory}
    (hm : made.2.HeldBy (made.1 :: (w.held ++ others)))
    (hk : Keeps (w.held ++ others) w.memory made.2) (readOnly : Bool) :
    Outcome others w (w.register.Received name readOnly (made.1.bytes made.2))
      (receive w name readOnly made) := by
  unfold receive
  cases hl : Letter.ofWire (made.1.bytes made.2) readOnly with
  | error t =>
    rw [Message.ofWire_of_error hl]
    obtain ⟨hh, keep⟩ := View.held_drop hm
    exact outcome_of_keeps hh (hk.trans keep) (.truncated hl)
  | ok l =>
    obtain ⟨x, heq, hh, keep, hx⟩ := Message.held_ofWire hm List.mem_cons_self hl
    rw [heq]
    -- the view that the message was received in goes
    obtain ⟨hh', keep'⟩ := View.held_drop (hh.perm (.swap _ _ _))
    have hb := becomes_assign (k := name) (a := x) hh' ((hk.trans keep.of_cons).trans keep'.of_cons)
      (b := l) ?_ fun _ _ => rfl
    · exact hb.outcome (.done hl)
    · have hbytes := keep'.bytes_eq (List.mem_cons_self (a := x.payload))
      rw [← hx]
      exact congrArg (Letter.mk x.header x.readOnly) hbytes

/-- **Writing a manuscript** before carrying on with its draft. -/
theorem outcome_write (h : w.Sound others) {s : Manuscript} (hs : s.Scripted)
    (hfits : w.memory.canCreate s.room = true)
    (hrefused : ∀ e, s.Refuses e → E (.refused e) w.register)
    {f : Draft → Reply × Workspace Message}
    (hf : ∀ d : Draft, d.Sound (w.held ++ others) →
      Keeps (w.held ++ others) w.memory d.memory → s.Yields (d.writer.bytes d.memory) →
        Outcome others w E (f d)) :
    Outcome others w E (write w s f) := by
  have hmake : Draft.make s.room s.encoding w.memory = .ok (.start s.room s.encoding w.memory) :=
    if_pos hfits
  obtain ⟨hd, keep⟩ := Writer.sound_create h s.room s.encoding
  have hsound : Draft.Sound (w.held ++ others) (.start s.room s.encoding w.memory) := hd
  have hrun : File.Run s.encoding [] (Draft.start s.room s.encoding w.memory).file := by
    rw [Draft.file_start]
    exact .start
  obtain ⟨hb, hcases⟩ := hsound.performAll hrun hs
  have hkeep := keep.trans hb.keeps
  simp only [write, hmake]
  cases hperform : (Draft.start s.room s.encoding w.memory).performAll s.ops with
  | mk result d =>
    rw [hperform] at hb hcases hkeep
    rcases hcases with ⟨hok, ops, hmap, hfile⟩ | ⟨e, ops, op, rest, g, herr, hsplit, hfile, hp⟩
    · obtain rfl : result = .ok () := hok
      exact hf d hb.sound hkeep ⟨ops, d.file, hmap, hfile, rfl⟩
    · obtain rfl : result = .error e := herr
      obtain ⟨hh, keep'⟩ := Draft.held_drop hb.sound
      exact outcome_of_keeps hh (hkeep.trans keep')
        (hrefused e ⟨ops, op, rest, _, _, hsplit, hfile, hp⟩)

theorem register_message (hk : w.slots.get? name = some x) :
    w.register name = some ⟨x.header, x.readOnly, x.payload.bytes w.memory⟩ :=
  register_of_some hk

theorem outcome_readOnly (op : MessageOp) (hop : op.modifies = true)
    (hk : w.slots.get? op.target = some x) (hr : x.readOnly = true)
    (hm : m.HeldBy (w.held ++ others)) (keep : Keeps (w.held ++ others) w.memory m) :
    Outcome others w (op.Effect w.register) (change w op.target (.error .readOnly, m)) :=
  outcome_of_keeps hm keep (.readOnly hop (register_message hk) hr)

theorem outcome_change (h : w.Sound others) {op : MessageOp} (hk : w.slots.get? name = some x)
    (y : Message) (hy : y.payload = x.payload)
    (he : op.Effect w.register .done
      (w.register.put name (some ⟨y.header, y.readOnly, x.payload.bytes w.memory⟩))) :
    Outcome others w (op.Effect w.register) (change w name (.ok y, w.memory)) := by
  have hh : w.memory.HeldBy (y.payload :: (w.beside name ++ others)) := by
    rw [hy]
    exact h.hold hk
  refine (becomes_update hh (.refl _ _) ?_).outcome he
  rw [← hy]
  rfl

theorem outcome_modify (h : w.Sound others) (op : MessageOp) (hop : op.modifies = true)
    (hk : w.slots.get? op.target = some x) {g : Message → Message} (hg : (g x).payload = x.payload)
    (he : x.readOnly = false → op.Effect w.register .done
      (w.register.put op.target
        (some ⟨(g x).header, (g x).readOnly, x.payload.bytes w.memory⟩))) :
    Outcome others w (op.Effect w.register) (change w op.target (x.modify g, w.memory)) := by
  unfold Message.modify
  cases hr : x.readOnly with
  | true =>
    rw [if_pos rfl]
    exact outcome_readOnly op hop hk hr h (.refl _ _)
  | false =>
    rw [if_neg Bool.false_ne_true]
    exact outcome_change h hk (g x) hg (he hr)

theorem outcome_replace (h : w.Sound others) (hk : w.slots.get? name = some x)
    (make : Memory → View × Memory)
    (hmake : (make w.memory).2.HeldBy ((make w.memory).1 :: (w.held ++ others)))
    (keep : Keeps (w.held ++ others) w.memory (make w.memory).2)
    (hro : x.readOnly = true → E (.failed .readOnly) w.register)
    (he : x.readOnly = false → E .done
      (w.register.put name
        (some ⟨x.header, x.readOnly, (make w.memory).1.bytes (make w.memory).2⟩))) :
    Outcome others w E (change w name (x.replacePayload make w.memory)) := by
  cases hr : x.readOnly with
  | true =>
    rw [Message.replacePayload_of_readOnly make hr]
    exact outcome_of_keeps h (.refl _ _) (hro hr)
  | false =>
    have hperm := (held_perm hk).append_right others
    obtain ⟨heq, hh, hkeep, hbytes⟩ := Message.replacePayload_eq hr
      (hmake.perm (hperm.cons _)) (keep.mono hperm.symm.subset)
    rw [heq]
    have hb : Becomes others w name
        (some ⟨x.header, x.readOnly, (make w.memory).1.bytes (make w.memory).2⟩)
        (w.update name { x with payload := (make w.memory).1 }
          (x.payload.drop (make w.memory).2)) :=
      becomes_update hh hkeep (congrArg (Letter.mk x.header x.readOnly) hbytes)
    exact hb.outcome (he hr)

/-- **Making what a draft wrote** the payload of a message, and letting go of the draft. -/
theorem becomes_setWriter (hk : w.slots.get? name = some x) (hw : x.readOnly = false) {d : Draft}
    (hd : d.Sound (w.held ++ others)) (keep : Keeps (w.held ++ others) w.memory d.memory) :
    ∃ y m, x.setWriter d.writer d.memory = (.ok y, m) ∧
      Becomes others w name (some ⟨x.header, x.readOnly, d.writer.bytes d.memory⟩)
        (w.update name y ({ d with memory := m } : Draft).drop) := by
  have hperm := (held_perm hk).append_right others
  have hsub : w.beside name ++ others ⊆ w.held ++ others :=
    fun v hv => hperm.symm.subset (List.mem_cons_of_mem _ hv)
  -- the view of what was written comes first, then the old payload goes, and then the draft
  obtain ⟨hshare, keep₁⟩ := Draft.sound_share hd
  have hold : Draft.Sound (x.payload :: d.writer.view :: (w.beside name ++ others))
      { d with memory := (d.writer.share d.memory).2 } := by
    refine ⟨hshare.held.perm ?_, hshare.position_le⟩
    refine .cons _ (.append_left _ ?_)
    exact (hperm.cons _).trans (.swap _ _ _)
  obtain ⟨hdropped, keep₂⟩ := Draft.sound_drop_other hold
  obtain ⟨hh, keep₃⟩ := Draft.held_drop hdropped
  refine ⟨{ x with payload := d.writer.view }, x.payload.drop (d.writer.share d.memory).2, ?_, ?_⟩
  · simp only [Message.setWriter, Message.replacePayload, hw, Bool.false_eq_true, if_false,
      Writer.share]
  · have hin : w.beside name ++ others ⊆ d.writer.view :: (d.handed ++ (w.held ++ others)) :=
      fun v hv => List.mem_cons_of_mem _ (List.mem_append_right _ (hsub hv))
    have hin' : d.writer.view :: (w.beside name ++ others) ⊆
        d.writer.view :: (d.handed ++ d.writer.view :: (w.beside name ++ others)) :=
      fun v hv => List.mem_cons_of_mem _ (List.mem_append_right _ hv)
    have hkeep := ((keep.mono hsub).trans (keep₁.mono hin)).trans
      ((keep₂.mono hin').trans keep₃).of_cons
    refine becomes_update hh hkeep (congrArg (Letter.mk x.header x.readOnly) ?_)
    exact ((keep₂.mono hin').trans keep₃).bytes_eq List.mem_cons_self |>.trans
      (keep₁.bytes_eq List.mem_cons_self)

/-- **Operations on messages** do to the letters under the names what they do to letters. -/
theorem outcome_run (h : w.Sound others) {op : MessageOp} (hop : op.Scripted)
    (hfits : op.demand.all w.memory.canCreate = true) :
    Outcome others w (op.Effect w.register) (op.run w) := by
  cases op with
  | empty name tag =>
    obtain ⟨hh, keep⟩ := View.held_create h 0
    have hbytes := View.bytes_create 0 w.memory
    have hb := becomes_assign (k := name) (a := (Message.empty tag w.memory).1) hh keep
      (congrArg (Letter.mk ⟨0, tag, 0⟩ false) hbytes) fun _ _ => rfl
    exact hb.outcome (.empty name tag)
  | ofManuscript name tag s =>
    refine outcome_write h hop hfits (fun e hs => .refused rfl hs) ?_
    intro d hd keep hy
    obtain ⟨hh, keep', hbytes⟩ := Draft.held_share_drop hd
    have hb := becomes_assign (k := name) (a := .ofPayload tag d.writer.view) hh (keep.trans keep')
      (congrArg (Letter.mk ⟨0, tag, 0⟩ false) hbytes) fun _ _ => rfl
    exact hb.outcome (.ofManuscript name tag hy)
  | ofRecord name tag a =>
    have heq : Message.ofRecord tag a w.memory =
        (.ofPayload tag (Message.recordPayload a w.memory).1,
          (Message.recordPayload a w.memory).2) := by
      simp only [Message.ofRecord]
    obtain ⟨hh, keep, hy⟩ := Message.held_recordPayload hop a h
    have hb := becomes_assign (k := name)
      (a := .ofPayload tag (Message.recordPayload a w.memory).1) hh keep rfl fun _ _ => rfl
    simp only [run, heq]
    exact hb.outcome (.ofRecord name tag hy)
  | ofPayload name tag bs =>
    obtain ⟨hh, keep⟩ := View.held_ofBytes h bs
    have hbytes := View.bytes_ofBytes h bs
    have hb := becomes_assign (k := name) (a := .ofPayload tag (View.ofBytes bs w.memory).1) hh keep
      (congrArg (Letter.mk ⟨0, tag, 0⟩ false) hbytes) fun _ _ => rfl
    exact hb.outcome (.ofPayload name tag bs)
  | ofWire name bs readOnly =>
    obtain ⟨hh, keep⟩ := View.held_ofBytes h bs
    have ho := outcome_receive name hh keep readOnly
    rw [View.bytes_ofBytes h bs] at ho
    exact ho.imp fun reply reg he => .ofWire he
  | rewire name source readOnly =>
    refine outcome_onMessage h (by simp [uses]) ?_
    intro x hk
    obtain ⟨hh, keep⟩ := View.held_ofBytes h (x.wire w.memory)
    have ho := outcome_receive name hh keep readOnly
    rw [View.bytes_ofBytes h (x.wire w.memory)] at ho
    exact ho.imp fun reply reg he => .rewire (register_message hk) he
  | clone name source =>
    refine outcome_onMessage h (by simp [uses]) ?_
    intro x hk
    have hmem : x.payload ∈ w.held ++ others := List.mem_append_left _ (view_mem_held hk)
    obtain ⟨hh, keep⟩ := View.held_clone_of_mem h hmem rfl (Nat.le_refl _)
    have hb := becomes_assign (k := name) (a := (x.clone w.memory).1) hh keep
      (congrArg (Letter.mk x.header false) (keep.bytes_eq hmem)) fun _ _ => rfl
    exact hb.outcome (.clone name (register_message hk))
  | drop name => exact (becomes_discard h fun _ _ => rfl).outcome (.drop name)
  | setTag name tag =>
    refine outcome_onMessage h (by simp [uses]) ?_
    intro x hk
    exact outcome_modify h (.setTag name tag) rfl hk rfl
      fun hw => .setTag tag (register_message hk) hw
  | setCommand name command =>
    refine outcome_onMessage h (by simp [uses]) ?_
    intro x hk
    exact outcome_modify h (.setCommand name command) rfl hk rfl
      fun hw => .setCommand command (register_message hk) hw
  | makePing name code =>
    refine outcome_onMessage h (by simp [uses]) ?_
    intro x hk
    exact outcome_modify h (.makePing name code) rfl hk rfl
      fun hw => .makePing code (register_message hk) hw
  | makeAcknowledgement name ping =>
    refine outcome_onMessage h (by simp [uses]) ?_
    intro x hk
    refine outcome_onMessage h (by simp [uses]) ?_
    intro y hk'
    unfold Message.makeAcknowledgement
    by_cases hr : x.readOnly = true
    · rw [if_pos hr]
      exact outcome_readOnly (.makeAcknowledgement name ping) rfl hk hr h (.refl _ _)
    · rw [if_neg hr]
      have hw := Bool.eq_false_iff.2 hr
      cases hp : y.isPing with
      | false => exact h.outcome (.notAPing (register_message hk) hw (register_message hk') hp)
      | true =>
        refine outcome_change h hk _ rfl ?_
        exact .makeAcknowledgement (register_message hk) hw (register_message hk') hp
  | clear name =>
    refine outcome_onMessage h (by simp [uses]) ?_
    intro x hk
    obtain ⟨hh, keep⟩ := View.held_create h 0
    refine outcome_replace h hk (View.create 0) hh keep
      (fun hr => .readOnly rfl (register_message hk) hr) fun hw => ?_
    rw [View.bytes_create]
    exact .clear (register_message hk) hw
  | setManuscript name s =>
    refine outcome_onMessage h (by simp [uses]) ?_
    intro x hk
    refine outcome_write h hop hfits (fun e hs => .refused rfl hs) ?_
    intro d hd keep hy
    cases hr : x.readOnly with
    | true =>
      obtain ⟨hh, keep'⟩ := Draft.held_drop hd
      have heq : x.setWriter d.writer d.memory = (.error .readOnly, d.memory) :=
        Message.replacePayload_of_readOnly d.writer.share hr
      rw [heq]
      exact outcome_readOnly (.setManuscript name s) rfl hk hr hh (keep.trans keep')
    | false =>
      obtain ⟨y, m, heq, hb⟩ := becomes_setWriter hk hr hd keep
      rw [heq]
      exact hb.outcome (.setManuscript (register_message hk) hr hy)
  | setRecord name a =>
    refine outcome_onMessage h (by simp [uses]) ?_
    intro x hk
    obtain ⟨hh, keep, hy⟩ := Message.held_recordPayload hop a h
    have heq : x.setRecord a w.memory = x.replacePayload (Message.recordPayload a) w.memory := by
      simp only [Message.setRecord]
    rw [heq]
    exact outcome_replace h hk (Message.recordPayload a) hh keep
      (fun hr => .readOnly rfl (register_message hk) hr)
      fun hw => .setRecord (register_message hk) hw hy

/-- **Without memory** for the array that a manuscript starts with, nothing is done. -/
theorem outcome_of_not_fits (h : w.Sound others) {op : MessageOp}
    (hfits : ¬ op.demand.all w.memory.canCreate = true) :
    Outcome others w (fun reply r => reply = .refused .outOfRange ∧ r = w.register)
      (op.run w) := by
  have hwrite : ∀ (s : Manuscript) (f : Draft → Reply × Workspace Message),
      op.manuscript? = some s →
        write w s f = (.refused .outOfRange, { w with memory := w.memory.miss }) := by
    intro s f hs
    have hmake : Draft.make s.room s.encoding w.memory = .error .outOfRange := by
      refine if_neg fun hroom => hfits ?_
      rw [demand, hs]
      exact hroom
    simp only [write, hmake]
  cases op with
  | ofManuscript name tag s =>
    simp only [run]
    rw [hwrite s _ rfl]
    exact outcome_of_keeps h.miss.1 h.miss.2 ⟨rfl, rfl⟩
  | setManuscript name s =>
    simp only [run]
    refine onMessage_cases (fun hk => h.outcome ⟨rfl, rfl⟩) ?_
    intro x hk
    rw [hwrite s _ rfl]
    exact outcome_of_keeps h.miss.1 h.miss.2 ⟨rfl, rfl⟩
  | _ => exact absurd rfl hfits

end MessageOp

end Tandem
