import Tandem.Proofs.Sharing.Views
import Tandem.Proofs.Sharing.Cursors
import Tandem.Proofs.Sharing.Letters

/-!
# Nothing is shared

`Belongings` are byte strings, files, pages and letters under names, each of them a value of its
own.  `Belongings.Step` says what the operations on views, writers, readers and messages do to them,
also where one kind of thing is made from another.  There is no memory here, so that a name that an
operation does not aim at is left alone by definition (`Belongings.Step.agreeOn`).
-/

namespace Tandem

/-- A name, by what stands under it. -/
inductive Slot where
  | view (name : String)
  | writer (name : String)
  | reader (name : String)
  | message (name : String)
  deriving DecidableEq, Repr

/-- Operations of a program that holds views, writers, readers and messages under names. -/
inductive Op : Type 1 where
  | views (op : ViewOp)
  /-- writes through the room of a view -/
  | overwrite (view : String) (p : Nat) (bs : Bytes)
  | writers (op : WriterOp)
  | readers (op : ReaderOp)
  | messages (op : MessageOp)
  /-- hands out a view of what a writer wrote -/
  | share (writer view : String)
  /-- makes a writer a view of what it wrote -/
  | finish (writer view : String)
  /-- makes a view a reader at its start -/
  | startReading (view reader : String)
  /-- makes a reader the view that it is over -/
  | stopReading (reader view : String)
  /-- a reader over the payload of a message -/
  | readMessage (message reader : String)
  /-- a view of the payload of a message -/
  | payload (message view : String)
  /-- a view of the bytes that stand for a message -/
  | wire (message view : String)
  /-- makes a view the payload of a new message -/
  | wrap (view message : String) (tag : UInt16)
  /-- the message that the bytes of a view stand for -/
  | receive (view message : String) (readOnly : Bool)
  /-- a message with what a writer wrote -/
  | ofWriter (writer message : String) (tag : UInt16)
  /-- makes what a writer wrote the payload of a message -/
  | setWriter (message writer : String)

/-- What an operation answers. -/
inductive Answer where
  | plain (r : Reply)
  | ofMessage (r : MessageOp.Reply)

/-- Refusal for want of a name or of memory. -/
def Answer.IsRefusal (a : Answer) : Prop :=
  a = .plain (.refused .outOfRange) ∨ a = .ofMessage (.refused .outOfRange)

namespace Op

/-- The names that have to be in use where something is made from something else. -/
def sources : Op → List Slot
  | share writer _ | finish writer _ | ofWriter writer _ _ => [.writer writer]
  | startReading view _ | wrap view _ _ | receive view _ _ => [.view view]
  | stopReading reader _ => [.reader reader]
  | readMessage message _ | payload message _ | wire message _ => [.message message]
  | setWriter message writer => [.message message, .writer writer]
  | views _ | overwrite _ _ _ | writers _ | readers _ | messages _ => []

/-- The names under which something else may stand afterwards. -/
def targets : Op → List Slot
  | views op => op.target.toList.map .view
  | overwrite view _ _ => [.view view]
  | writers op => [.writer op.target]
  | readers op => [.reader op.target]
  | messages op => [.message op.target]
  | share _ view | payload _ view | wire _ view => [.view view]
  | finish writer view => [.writer writer, .view view]
  | startReading view reader => [.view view, .reader reader]
  | stopReading reader view => [.reader reader, .view view]
  | readMessage _ reader => [.reader reader]
  | wrap view message _ => [.view view, .message message]
  | receive _ message _ | ofWriter _ message _ | setWriter message _ => [.message message]

/-- Values of application types are written by operations on the writer. -/
def Scripted : Op → Prop
  | writers op => op.Scripted
  | messages op => op.Scripted
  | _ => True

end Op

/-- Values under names. -/
structure Belongings where
  views : Register Bytes
  writers : Register File
  readers : Register Page
  messages : Register Letter

namespace Belongings

/-- Nothing under any name. -/
def empty : Belongings := ⟨.empty, .empty, .empty, .empty⟩

/-- Nothing stands under a name. -/
def Lacks (b : Belongings) : Slot → Prop
  | .view name => b.views name = none
  | .writer name => b.writers name = none
  | .reader name => b.readers name = none
  | .message name => b.messages name = none

/-- The same stands under a name. -/
def AgreeOn (b b' : Belongings) : Slot → Prop
  | .view name => b.views name = b'.views name
  | .writer name => b.writers name = b'.writers name
  | .reader name => b.readers name = b'.readers name
  | .message name => b.messages name = b'.messages name

variable {b b' b'' : Belongings} {k : Slot} {name : String}

theorem AgreeOn.refl (b : Belongings) (k : Slot) : b.AgreeOn b k := by
  cases k with
  | _ => rfl

theorem AgreeOn.trans (h : b.AgreeOn b' k) (h' : b'.AgreeOn b'' k) : b.AgreeOn b'' k := by
  cases k with
  | view name => exact Eq.trans h h'
  | writer name => exact Eq.trans h h'
  | reader name => exact Eq.trans h h'
  | message name => exact Eq.trans h h'

/-! ### Changes of one kind of thing -/

theorem agreeOn_views {r : Register Bytes} (h : ∀ name, k = .view name → r name = b.views name) :
    { b with views := r }.AgreeOn b k := by
  cases k with
  | view name => exact h name rfl
  | _ => rfl

theorem agreeOn_writers {r : Register File}
    (h : ∀ name, k = .writer name → r name = b.writers name) :
    { b with writers := r }.AgreeOn b k := by
  cases k with
  | writer name => exact h name rfl
  | _ => rfl

theorem agreeOn_readers {r : Register Page}
    (h : ∀ name, k = .reader name → r name = b.readers name) :
    { b with readers := r }.AgreeOn b k := by
  cases k with
  | reader name => exact h name rfl
  | _ => rfl

theorem agreeOn_messages {r : Register Letter}
    (h : ∀ name, k = .message name → r name = b.messages name) :
    { b with messages := r }.AgreeOn b k := by
  cases k with
  | message name => exact h name rfl
  | _ => rfl

theorem agreeOn_putView (bs : Option Bytes) (hk : k ≠ .view name) :
    { b with views := b.views.put name bs }.AgreeOn b k :=
  agreeOn_views fun _ h => Register.put_of_ne bs fun hn => hk (hn ▸ h)

theorem agreeOn_putWriter (f : Option File) (hk : k ≠ .writer name) :
    { b with writers := b.writers.put name f }.AgreeOn b k :=
  agreeOn_writers fun _ h => Register.put_of_ne f fun hn => hk (hn ▸ h)

theorem agreeOn_putReader (g : Option Page) (hk : k ≠ .reader name) :
    { b with readers := b.readers.put name g }.AgreeOn b k :=
  agreeOn_readers fun _ h => Register.put_of_ne g fun hn => hk (hn ▸ h)

theorem agreeOn_putMessage (l : Option Letter) (hk : k ≠ .message name) :
    { b with messages := b.messages.put name l }.AgreeOn b k :=
  agreeOn_messages fun _ h => Register.put_of_ne l fun hn => hk (hn ▸ h)

/-- What the operations do to values. -/
inductive Step (b : Belongings) : Op → Answer → Belongings → Prop
  | views {op : ViewOp} {reply : Reply} {r : Register Bytes} (h : op.Effect b.views reply r) :
      Step b (.views op) (.plain reply) { b with views := r }
  | overwrite {name : String} {p : Nat} {bs : Bytes} {reply : Reply} {r : Register Bytes}
      (h : b.views.Overwritten name p bs reply r) :
      Step b (.overwrite name p bs) (.plain reply) { b with views := r }
  | writers {op : WriterOp} {reply : Reply} {r : Register File}
      (h : op.Effect b.writers reply r) :
      Step b (.writers op) (.plain reply) { b with writers := r }
  | readers {op : ReaderOp} {reply : Reply} {r : Register Page}
      (h : op.Effect b.readers reply r) :
      Step b (.readers op) (.plain reply) { b with readers := r }
  | messages {op : MessageOp} {reply : MessageOp.Reply} {r : Register Letter}
      (h : op.Effect b.messages reply r) :
      Step b (.messages op) (.ofMessage reply) { b with messages := r }
  | share {writer : String} {f : File} (view : String) (h : b.writers writer = some f) :
      Step b (.share writer view) (.plain .done)
        { b with views := b.views.put view (some f.content) }
  | finish {writer : String} {f : File} (view : String) (h : b.writers writer = some f) :
      Step b (.finish writer view) (.plain .done)
        { b with
          writers := b.writers.put writer none
          views := b.views.put view (some f.content) }
  | startReading {view : String} {bs : Bytes} (reader : String) (h : b.views view = some bs) :
      Step b (.startReading view reader) (.plain .done)
        { b with
          views := b.views.put view none
          readers := b.readers.put reader (some ⟨bs, 0, .standard⟩) }
  | stopReading {reader : String} {g : Page} (view : String) (h : b.readers reader = some g) :
      Step b (.stopReading reader view) (.plain .done)
        { b with
          readers := b.readers.put reader none
          views := b.views.put view (some g.content) }
  | readMessage {message : String} {l : Letter} (reader : String)
      (h : b.messages message = some l) :
      Step b (.readMessage message reader) (.plain .done)
        { b with readers := b.readers.put reader (some ⟨l.payload, 0, .standard⟩) }
  | payload {message : String} {l : Letter} (view : String) (h : b.messages message = some l) :
      Step b (.payload message view) (.plain .done)
        { b with views := b.views.put view (some l.payload) }
  | wire {message : String} {l : Letter} (view : String) (h : b.messages message = some l) :
      Step b (.wire message view) (.plain .done)
        { b with views := b.views.put view (some l.wire) }
  | wrap {view : String} {bs : Bytes} (message : String) (tag : UInt16)
      (h : b.views view = some bs) :
      Step b (.wrap view message tag) (.plain .done)
        { b with
          views := b.views.put view none
          messages := b.messages.put message (some (.ofPayload tag bs)) }
  | receive {view message : String} {readOnly : Bool} {bs : Bytes} {reply : MessageOp.Reply}
      {r : Register Letter} (h : b.views view = some bs)
      (hr : b.messages.Received message readOnly bs reply r) :
      Step b (.receive view message readOnly) (.ofMessage reply) { b with messages := r }
  | ofWriter {writer : String} {f : File} (message : String) (tag : UInt16)
      (h : b.writers writer = some f) :
      Step b (.ofWriter writer message tag) (.plain .done)
        { b with messages := b.messages.put message (some (.ofPayload tag f.content)) }
  | setWriter {message writer : String} {l : Letter} {f : File} (h : b.messages message = some l)
      (hw : l.readOnly = false) (hf : b.writers writer = some f) :
      Step b (.setWriter message writer) (.ofMessage .done)
        { b with messages := b.messages.put message (some { l with payload := f.content }) }
  | setWriterReadOnly {message writer : String} {l : Letter} {f : File}
      (h : b.messages message = some l) (hr : l.readOnly = true) (hf : b.writers writer = some f) :
      Step b (.setWriter message writer) (.ofMessage (.failed .readOnly)) b
  | unused {op : Op} {k : Slot} (hk : k ∈ op.sources) (h : b.Lacks k) :
      Step b op (.plain (.refused .outOfRange)) b

/-- **Other names are left alone.** -/
theorem Step.agreeOn {op : Op} {a : Answer} (h : b.Step op a b') (hk : k ∉ op.targets) :
    b'.AgreeOn b k := by
  cases h with
  | @views op _ _ h =>
    refine agreeOn_views fun name hname => h.of_ne fun ht => hk ?_
    rw [hname, Op.targets, ht]
    exact List.mem_singleton_self _
  | overwrite h =>
    cases h with
    | done h => exact agreeOn_putView _ (by simpa [Op.targets] using hk)
    | beyond h hp => exact .refl b k
    | unused h => exact .refl b k
  | writers h =>
    refine agreeOn_writers fun name hname => h.of_ne fun ht => hk ?_
    rw [hname, ← ht]
    exact List.mem_singleton_self _
  | readers h =>
    refine agreeOn_readers fun name hname => h.of_ne fun ht => hk ?_
    rw [hname, ← ht]
    exact List.mem_singleton_self _
  | messages h =>
    refine agreeOn_messages fun name hname => h.of_ne fun ht => hk ?_
    rw [hname, ← ht]
    exact List.mem_singleton_self _
  | share view h => exact agreeOn_putView _ (by simpa [Op.targets] using hk)
  | payload view h => exact agreeOn_putView _ (by simpa [Op.targets] using hk)
  | wire view h => exact agreeOn_putView _ (by simpa [Op.targets] using hk)
  | readMessage reader h => exact agreeOn_putReader _ (by simpa [Op.targets] using hk)
  | ofWriter message tag h => exact agreeOn_putMessage _ (by simpa [Op.targets] using hk)
  | setWriter h hw hf => exact agreeOn_putMessage _ (by simpa [Op.targets] using hk)
  | @finish writer f view h =>
    obtain ⟨hw, hv⟩ : k ≠ .writer writer ∧ k ≠ .view view := by simpa [Op.targets] using hk
    exact (agreeOn_putView _ hv).trans (agreeOn_putWriter none hw)
  | @startReading view bs reader h =>
    obtain ⟨hv, hr⟩ : k ≠ .view view ∧ k ≠ .reader reader := by simpa [Op.targets] using hk
    exact (agreeOn_putReader _ hr).trans (agreeOn_putView none hv)
  | @stopReading reader g view h =>
    obtain ⟨hr, hv⟩ : k ≠ .reader reader ∧ k ≠ .view view := by simpa [Op.targets] using hk
    exact (agreeOn_putView _ hv).trans (agreeOn_putReader none hr)
  | @wrap view bs message tag h =>
    obtain ⟨hv, hm⟩ : k ≠ .view view ∧ k ≠ .message message := by simpa [Op.targets] using hk
    exact (agreeOn_putMessage _ hm).trans (agreeOn_putView none hv)
  | receive h hr =>
    refine agreeOn_messages fun name hname => MessageOp.of_ne_of_received hr fun ht => hk ?_
    rw [hname, ← ht]
    exact List.mem_singleton_self _
  | setWriterReadOnly => exact .refl b k
  | unused => exact .refl b k

/-- The operations on what was empty, with the answers.  There may be no memory for an operation. -/
inductive Run : List (Op × Answer) → Belongings → Prop
  | start : Run [] empty
  | step {done : List (Op × Answer)} {b b' : Belongings} {op : Op} {a : Answer}
      (h : Run done b) (hs : b.Step op a b') : Run (done ++ [(op, a)]) b'
  | noMemory {done : List (Op × Answer)} {b : Belongings} {a : Answer} (h : Run done b) (op : Op)
      (ha : a.IsRefusal) : Run (done ++ [(op, a)]) b

end Belongings

end Tandem
