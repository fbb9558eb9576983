import Tandem.Proofs.Sharing.Letters
import Tandem.Proofs.Recycling.Spaces

/-!
# Messages in twins

What stands for a message on the wire is its header and what its payload shows, and a received
message is what its bytes say; so both are the same in twins.  A new payload is filled before the
old one is let go of, whether it comes from a writer, from bytes, or from a value of an application
type.
-/

namespace Tandem

open Memory (Twins)

namespace Message

variable {gs : List Glimpse} {m m' : Memory} {x : Message} {v : View}

theorem wire_eq (h : Twins gs m m') (hx : x.payload.whole ∈ gs) : x.wire m' = x.wire m := by
  rw [wire, h.bytes_eq hx, wire]

theorem same_toView (h : Twins gs m m') (hx : x.payload.whole ∈ gs) :
    Memory.Same gs (x.toView m) (x.toView m') := by
  unfold toView
  rw [wire_eq h hx]
  exact h.same_ofBytes _

/-- **Receiving** what a view shows: twins refuse it for the same reason or both make the same
message of it. -/
theorem ofWire_cases (h : Twins gs m m') (hv : v.whole ∈ gs) (readOnly : Bool) :
    (∃ e, ofWire v readOnly m = (.error e, m) ∧ ofWire v readOnly m' = (.error e, m')) ∨
      ∃ x, ofWire v readOnly m = (.ok x, v.clone m) ∧ ofWire v readOnly m' = (.ok x, v.clone m') ∧
        Twins (x.payload.whole :: gs) (v.clone m) (v.clone m') := by
  have hbytes := h.bytes_eq hv
  have hmem : v ∈ gs.map Glimpse.view := List.mem_map_of_mem (f := Glimpse.view) hv
  have hlen := h.held.length_bytes hmem
  unfold ofWire
  rw [hbytes]
  cases hd : Header.decode (v.bytes m) with
  | error t => exact .inl ⟨_, rfl, rfl⟩
  | ok hdr =>
    have hle := Header.length_le_of_decode hd
    rw [hlen] at hle
    refine .inr ⟨_, rfl, rfl, h.clone hv rfl (Nat.le_add_right _ _) ?_⟩
    show v.offset + hdr.length + (v.length - hdr.length) ≤ v.offset + v.length
    omega

theorem same_recordPayload {α : Type} [Serializable α] (hα : Serializable.Composed α) (a : α)
    (h : Twins gs m m') : Memory.Same gs (recordPayload a m) (recordPayload a m') := by
  have hw := (Writer.same_create h Writer.standardRoom .standard).andThen
    (f := fun w m => w.writeRecord a m) (Draft.same_serialize hα a)
  exact ⟨congrArg Writer.view hw.value_eq, hw.twins⟩

/-- **Reading** a value of an application type from the payload, with a handle that goes
afterwards. -/
theorem getRecord_eq {α : Type} [Serializable α] (h : Twins gs m m') (hx : x.payload.whole ∈ gs) :
    (x.getRecord α m').1 = (x.getRecord α m).1 ∧
      Twins gs (x.getRecord α m).2 (x.getRecord α m').2 := by
  have hc := h.clone_self hx
  refine ⟨?_, hc.drop⟩
  have hr := Reader.read_eq (r := .ofView x.payload) hc List.mem_cons_self (Read.record α)
  simp only [getRecord, reader, hr]

theorem getRecordInto_eq {α : Type} [Serializable α] (h : Twins gs m m')
    (hx : x.payload.whole ∈ gs) (a : α) :
    (x.getRecordInto a m').1 = (x.getRecordInto a m).1 ∧
      Twins gs (x.getRecordInto a m).2 (x.getRecordInto a m').2 := by
  have hc := h.clone_self hx
  refine ⟨?_, hc.drop⟩
  have hr := Reader.readInto_eq (r := .ofView x.payload) hc List.mem_cons_self a
  simp only [getRecordInto, reader, hr]

end Message

namespace MessageOp

open Workspace

/-- Values of application types are composed. -/
def Composed : MessageOp → Prop
  | ofManuscript _ _ s | setManuscript _ s => ∀ op ∈ s.ops, op.Composed
  | @ofRecord α _ _ _ _ | @setRecord α _ _ _ => Serializable.Composed α
  | _ => True

variable {gs : List Glimpse} {m m' : Memory} {slots : Table String Message} {name : String}
  {x : Message}

theorem same_onMessage (h : Workspace.Same gs ⟨m, slots⟩ ⟨m', slots⟩) (name : String)
    {f f' : Message → Reply × Workspace Message}
    (hf : ∀ x, slots.get? name = some x → SameReply gs (f x) (f' x)) :
    SameReply gs (onMessage ⟨m, slots⟩ name f) (onMessage ⟨m', slots⟩ name f') := by
  unfold onMessage
  cases hk : slots.get? name with
  | none => exact ⟨rfl, h⟩
  | some x => exact hf x hk

theorem same_put {r r' : Message × Memory}
    (hr : Memory.Same ((held ⟨m, slots⟩).map View.whole ++ gs) r r') :
    SameReply gs (put ⟨m, slots⟩ name r) (put ⟨m', slots⟩ name r') :=
  ⟨rfl, same_assign hr fun _ _ => rfl⟩

theorem same_receive {r r' : View × Memory} (readOnly : Bool)
    (hr : Memory.Same ((held ⟨m, slots⟩).map View.whole ++ gs) r r') :
    SameReply gs (receive ⟨m, slots⟩ name readOnly r) (receive ⟨m', slots⟩ name readOnly r') := by
  obtain ⟨v, m₁⟩ := r
  obtain ⟨v', m₁'⟩ := r'
  obtain rfl : v' = v := hr.value_eq
  have htwins : Twins (v'.whole :: _) m₁ m₁' := hr.twins
  unfold receive
  rcases Message.ofWire_cases htwins List.mem_cons_self readOnly with
    ⟨e, he, he'⟩ | ⟨x, hx, hx', hc⟩
  · simp only [he, he']
    exact ⟨rfl, rfl, htwins.drop⟩
  · simp only [hx, hx']
    -- the view that the message was received in goes
    exact same_put (.of_twins x (Twins.drop (hc.perm (.swap _ _ _))))

theorem same_write (h : Workspace.Same gs ⟨m, slots⟩ ⟨m', slots⟩) {s : Manuscript}
    (hs : ∀ op ∈ s.ops, op.Composed) {f f' : Draft → Reply × Workspace Message}
    (hf : ∀ {w m₁ m₁' shared},
      Draft.Same ((held ⟨m, slots⟩).map View.whole ++ gs) ⟨w, m₁, shared⟩ ⟨w, m₁', shared⟩ →
        SameReply gs (f ⟨w, m₁, shared⟩) (f' ⟨w, m₁', shared⟩)) :
    SameReply gs (write ⟨m, slots⟩ s f) (write ⟨m', slots⟩ s f') := by
  simp only [write, Draft.make, h.canCreate_eq]
  split_ifs
  · have hstart := Draft.same_start h.twins s.room s.encoding
    obtain ⟨hr, hd⟩ := hstart.andThen
      (R := fun r r' : Except Misuse Unit × Draft => r'.1 = r.1 ∧ Draft.Same _ r.2 r'.2)
      (f := fun d => d.performAll s.ops) (Draft.Same.performAll hs)
    dsimp only
    generalize (Draft.start s.room s.encoding m).performAll s.ops = r at hr hd
    generalize (Draft.start s.room s.encoding m').performAll s.ops = r' at hr hd
    obtain ⟨result, w, m₁, shared⟩ := r
    obtain ⟨result', w', m₁', shared'⟩ := r'
    obtain rfl : result' = result := hr
    obtain rfl : w' = w := hd.writer_eq
    obtain rfl : shared' = shared := hd.shared_eq
    cases result' with
    | ok u => exact hf hd
    | error e => exact ⟨rfl, rfl, hd.drop⟩
  · exact ⟨rfl, h.miss.2⟩

/-! ### Changing messages -/

theorem same_change (h : Workspace.Same gs ⟨m, slots⟩ ⟨m', slots⟩) (hk : slots.get? name = some x)
    {changed : Except MessageError Message} (hc : ∀ y, changed = .ok y → y.payload = x.payload) :
    SameReply gs (change ⟨m, slots⟩ name (changed, m)) (change ⟨m', slots⟩ name (changed, m')) := by
  cases changed with
  | error e => exact ⟨rfl, h⟩
  | ok y =>
    refine ⟨rfl, same_update (.of_twins y ?_)⟩
    have hview : Holder.view y = Holder.view x := hc y rfl
    rw [hview]
    exact h.hold hk

theorem same_modify (h : Workspace.Same gs ⟨m, slots⟩ ⟨m', slots⟩) (hk : slots.get? name = some x)
    {g : Message → Message} (hg : (g x).payload = x.payload) :
    SameReply gs (change ⟨m, slots⟩ name (x.modify g, m))
      (change ⟨m', slots⟩ name (x.modify g, m')) := by
  refine same_change h hk fun y hy => ?_
  unfold Message.modify at hy
  split_ifs at hy
  exact Except.ok.inj hy ▸ hg

/-- **Replacing** the payload, which goes when the new one is there. -/
theorem same_replace (h : Workspace.Same gs ⟨m, slots⟩ ⟨m', slots⟩) (hk : slots.get? name = some x)
    {make : Memory → View × Memory}
    (hmake : Memory.Same ((held ⟨m, slots⟩).map View.whole ++ gs) (make m) (make m')) :
    SameReply gs (change ⟨m, slots⟩ name (x.replacePayload make m))
      (change ⟨m', slots⟩ name (x.replacePayload make m')) := by
  cases hr : x.readOnly with
  | true =>
    rw [Message.replacePayload_of_readOnly make hr, Message.replacePayload_of_readOnly make hr]
    exact ⟨rfl, h⟩
  | false =>
    have hperm := (((held_perm (w := ⟨m, slots⟩) hk).map View.whole).append_right gs).cons
      (make m).1.whole
    have hdrop := Twins.drop (hmake.twins.perm (hperm.trans (.swap _ _ _)))
    simp only [Message.replacePayload, hr, Bool.false_eq_true, if_false, hmake.value_eq]
    exact ⟨rfl, same_update (.of_twins _ hdrop)⟩

theorem same_setWriter (hk : slots.get? name = some x) {w : Writer} {m₁ m₁' : Memory}
    {shared : List (Option View)}
    (hd : Draft.Same ((held ⟨m, slots⟩).map View.whole ++ gs) ⟨w, m₁, shared⟩ ⟨w, m₁', shared⟩) :
    SameReply gs
      (change ⟨m, slots⟩ name ((x.setWriter w m₁).1, Draft.drop ⟨w, (x.setWriter w m₁).2, shared⟩))
      (change ⟨m', slots⟩ name
        ((x.setWriter w m₁').1, Draft.drop ⟨w, (x.setWriter w m₁').2, shared⟩)) := by
  cases hr : x.readOnly with
  | true =>
    simp only [Message.setWriter, Message.replacePayload_of_readOnly _ hr]
    exact ⟨rfl, rfl, hd.drop⟩
  | false =>
    have hperm := ((held_perm (w := ⟨m, slots⟩) hk).map View.whole).append_right gs
    have hold : Draft.Same ([x.payload.whole] ++ ((beside ⟨m, slots⟩ name).map View.whole ++ gs))
        ⟨w, m₁, shared⟩ ⟨w, m₁', shared⟩ :=
      ⟨rfl, rfl, hd.twins.perm (.cons _ (.append_left _ hperm)), hd.position_le⟩
    have hdrop := hold.share_drop _ x.payload.drop fun h => Twins.drop h
    simp only [Message.setWriter, Message.replacePayload, hr, Bool.false_eq_true, if_false]
    exact ⟨rfl, same_update (.of_twins _ hdrop)⟩

/-- **Operations on messages** give the same answers in twins. -/
theorem same_run (h : Workspace.Same gs ⟨m, slots⟩ ⟨m', slots⟩) {op : MessageOp}
    (hop : op.Composed) : SameReply gs (op.run ⟨m, slots⟩) (op.run ⟨m', slots⟩) := by
  have hmem : ∀ {name x}, slots.get? name = some x →
      x.payload.whole ∈ (held ⟨m, slots⟩).map View.whole ++ gs := fun hk =>
    List.mem_append_left _ (List.mem_map_of_mem (view_mem_held (w := ⟨m, slots⟩) hk))
  cases op with
  | empty name tag =>
    have hc := h.twins.same_create 0
    exact same_put ⟨congrArg (Message.ofPayload tag) hc.value_eq, hc.twins⟩
  | ofManuscript name tag s =>
    refine same_write h hop fun hd => ?_
    have hs := Draft.Same.share_drop [] hd id id
    exact same_put (.of_twins (Message.ofPayload tag _) hs)
  | ofRecord name tag a =>
    have hr := Message.same_recordPayload hop a h.twins
    exact same_put ⟨congrArg (Message.ofPayload tag) hr.value_eq, hr.twins⟩
  | ofPayload name tag bs =>
    have hb := h.twins.same_ofBytes bs
    exact same_put ⟨congrArg (Message.ofPayload tag) hb.value_eq, hb.twins⟩
  | ofWire name bs readOnly => exact same_receive readOnly (h.twins.same_ofBytes bs)
  | rewire name source readOnly =>
    refine same_onMessage h source fun x hk => ?_
    exact same_receive readOnly (Message.same_toView h.twins (hmem hk))
  | clone name source =>
    refine same_onMessage h source fun x hk => ?_
    have hclone := h.twins.clone_self (hmem hk)
    exact same_put (.of_twins _ hclone)
  | drop name => exact ⟨rfl, h.discard fun _ _ => rfl⟩
  | setTag name tag => exact same_onMessage h name fun x hk => same_modify h hk rfl
  | setCommand name command => exact same_onMessage h name fun x hk => same_modify h hk rfl
  | makePing name code => exact same_onMessage h name fun x hk => same_modify h hk rfl
  | makeAcknowledgement name ping =>
    refine same_onMessage h name fun x hk => same_onMessage h ping fun y _ => ?_
    refine same_change h hk fun z hz => ?_
    unfold Message.makeAcknowledgement at hz
    split_ifs at hz
    exact Except.ok.inj hz ▸ rfl
  | clear name =>
    exact same_onMessage h name fun x hk => same_replace h hk (h.twins.same_create 0)
  | setManuscript name s =>
    exact same_onMessage h name fun x hk => same_write h hop fun hd => same_setWriter hk hd
  | setRecord name a =>
    refine same_onMessage h name fun x hk => same_replace h hk ?_
    exact Message.same_recordPayload hop a h.twins

end MessageOp

end Tandem
