import Tandem.Draft
import Tandem.Proofs.Bytes

/-!
# Seekable files

`File` is what a draft is about: the content, the cursor, how strings are written, and what each of
the views that were handed out shows.  `File.Performs` says what the operations on a draft do to a
file.  There is no array in it, no room and nothing that is shared.

An application type has to write its values by operations on the writer, as there is no other way to
write; what such an operation does to a file is what these do, one after the other.
-/

namespace Tandem

/-- A byte string with a cursor. -/
structure File where
  content : Bytes
  /-- where the next byte goes -/
  position : Nat
  /-- how strings are written -/
  encoding : Encoding
  /-- what the views that were handed out show, except for those that were let go of -/
  shared : List (Option Bytes)
  deriving DecidableEq, Repr

namespace File

/-- Nothing was written yet. -/
def empty (e : Encoding) : File := ⟨[], 0, e, []⟩

/-- Replaces what is at the cursor, goes on behind the end if necessary, and moves the cursor behind
what was written. -/
def write (f : File) (bs : Bytes) : File :=
  { f with content := f.content.splice f.position bs, position := f.position + bs.length }

/-- How many bytes could be put at the cursor before positions run out. -/
def remaining (f : File) : Nat := Memory.maxLength - f.position

/-- What a view that was handed out and not let go of shows. -/
def view? (f : File) (i : Nat) : Option Bytes := f.shared.getD i none

/-- What the operations do, other than those that write values of application types. -/
inductive Step : File → WriteOp → Reply → File → Prop
  | value (f : File) (k : Kind) (v : k.Value) :
      Step f (.value k v) .done (f.write (k.encode f.encoding v))
  | put (f : File) (bs : Bytes) : Step f (.put bs) .done (f.write bs)
  | fill {f : File} (b : UInt8) {n : Nat} (h : n ≤ f.remaining) :
      Step f (.fill b n) .done (f.write (List.replicate n b))
  | fillBeyond {f : File} (b : UInt8) {n : Nat} (h : f.remaining < n) :
      Step f (.fill b n) (.refused .outOfRange) f
  | reserve {f : File} {n : Nat} (h : n ≤ f.remaining) :
      Step f (.reserve n) (.number f.position) (f.write (.zeros n))
  | reserveBeyond {f : File} {n : Nat} (h : f.remaining < n) :
      Step f (.reserve n) (.refused .outOfRange) f
  | setPosition {f : File} {p : Nat} (h : p ≤ f.content.length) :
      Step f (.setPosition p) .done { f with position := p }
  | setPositionBeyond {f : File} {p : Nat} (h : f.content.length < p) :
      Step f (.setPosition p) (.refused (.writerPosition p f.content.length)) f
  | setEncoding (f : File) (e : Encoding) :
      Step f (.setEncoding e) .done { f with encoding := e }
  | share (f : File) (handles : Nat) :
      Step f .share (.number handles) { f with shared := f.shared ++ [some f.content] }
  | unshare {f : File} {i : Nat} {bs : Bytes} (h : f.view? i = some bs) :
      Step f (.unshare i) .done { f with shared := f.shared.set i none }
  | unshareNone {f : File} {i : Nat} (h : f.view? i = none) :
      Step f (.unshare i) (.refused .outOfRange) f
  | look {f : File} {i : Nat} {bs : Bytes} (handles : Nat) (h : f.view? i = some bs) :
      Step f (.look i) (.number handles) f
  | lookNone {f : File} {i : Nat} (h : f.view? i = none) :
      Step f (.look i) (.refused .outOfRange) f

/-- Steps one after the other, none of them refused.  Views that were let go of may be forgotten. -/
inductive Steps : File → File → Prop
  | refl (f : File) : Steps f f
  | step {f f' f'' : File} {op : WriteOp} {r : Reply} (h : Step f op r f')
      (hr : ∀ e, r ≠ .refused e) (hs : Steps f' f'') : Steps f f''
  | forget {f f' : File} (hn : ∀ v ∈ f.shared, v = none) (hs : Steps { f with shared := [] } f') :
      Steps f f'

/-- What the operations do.  While values of an application type are written, the views that were
handed out before are out of reach. -/
inductive Performs : File → WriteOp → Reply → File → Prop
  | step {f f' : File} {op : WriteOp} {r : Reply} (h : Step f op r f') : Performs f op r f'
  | record {f f' : File} {α : Type} [Serializable α] (a : α)
      (h : Steps { f with shared := [] } { f' with shared := [] }) (hs : f'.shared = f.shared) :
      Performs f (.record a) .done f'
  | records {f f' : File} {α : Type} [Serializable α] (as : List α)
      (h : Steps ({ f with shared := [] }.write (Kind.count as.length)) { f' with shared := [] })
      (hs : f'.shared = f.shared) : Performs f (.records as) .done f'

/-- The operations on a file that was empty, with the replies. -/
inductive Run (e : Encoding) : List (WriteOp × Reply) → File → Prop
  | start : Run e [] (empty e)
  | perform {ops : List (WriteOp × Reply)} {f f' : File} {op : WriteOp} {r : Reply}
      (h : Run e ops f) (hp : Performs f op r f') : Run e (ops ++ [(op, r)]) f'

theorem Steps.trans {f f' f'' : File} (h : Steps f f') (h' : Steps f' f'') : Steps f f'' := by
  induction h with
  | refl => exact h'
  | step h hr _ ih => exact .step h hr (ih h')
  | forget hn _ ih => exact .forget hn (ih h')

end File

end Tandem
