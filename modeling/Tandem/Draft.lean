import Tandem.Serializable
import Tandem.Workspace

/-!
# Drafts

A draft is a writer together with the views of what was written that were handed out so far.  The
operations on it are carried out one after the other; one that is refused changes nothing.
-/

namespace Tandem

/-- Operations on a draft. -/
inductive WriteOp : Type 1 where
  | value (k : Kind) (v : k.Value)
  | record {α : Type} [Serializable α] (a : α)
  | records {α : Type} [Serializable α] (as : List α)
  /-- bytes that fill the room there is before more is made -/
  | put (bs : Bytes)
  /-- `n` equal bytes, in the same way -/
  | fill (b : UInt8) (n : Nat)
  | reserve (n : Nat)
  | setPosition (p : Nat)
  | setEncoding (e : Encoding)
  /-- hands out a view of what was written -/
  | share
  /-- lets go of a view that was handed out -/
  | unshare (i : Nat)
  /-- looks at a view that was handed out -/
  | look (i : Nat)

/-- A writer and the views that were handed out, first one first. -/
structure Draft where
  writer : Writer
  memory : Memory
  shared : List (Option View)

namespace Draft

/-- A writer with room for `room` bytes. -/
def start (room : Nat) (e : Encoding) (m : Memory) : Draft :=
  let (w, m) := Writer.create room e m
  ⟨w, m, []⟩

/-- A writer with room for `room` bytes, if there can be that much. -/
def make (room : Nat) (e : Encoding) (m : Memory) : Except Misuse Draft :=
  if m.canCreate room then .ok (start room e m) else .error .outOfRange

/-- Carries on with the writer that an operation leaves. -/
def resume (d : Draft) (r : Writer × Memory) : Draft := { d with writer := r.1, memory := r.2 }

/-- A view that was handed out and not let go of. -/
def view? (d : Draft) (i : Nat) : Option View := d.shared.getD i none

/-- Carries out an operation. -/
def perform (d : Draft) : WriteOp → Reply × Draft
  | .value k v => (.done, d.resume (d.writer.write k v d.memory))
  | @WriteOp.record _ _ a => (.done, d.resume (d.writer.writeRecord a d.memory))
  | @WriteOp.records _ _ as => (.done, d.resume (d.writer.writeRecords as d.memory))
  | .put bs => (.done, d.resume (d.writer.put bs d.memory))
  | .fill b n =>
    if n ≤ d.writer.remaining then (.done, d.resume (d.writer.put (List.replicate n b) d.memory))
    else (.refused .outOfRange, d)
  | .reserve n =>
    if n ≤ d.writer.remaining then
      let (p, r) := d.writer.reserve n d.memory
      (.number p, d.resume r)
    else (.refused .outOfRange, d)
  | .setPosition p =>
    match d.writer.setPosition p with
    | .ok w => (.done, { d with writer := w })
    | .error e => (.refused e, d)
  | .setEncoding e => (.done, { d with writer := d.writer.setEncoding e })
  | .share =>
    let (v, m) := d.writer.share d.memory
    (.number (v.handles m), { d with memory := m, shared := d.shared ++ [some v] })
  | .unshare i =>
    match d.view? i with
    | some v => (.done, { d with memory := v.drop d.memory, shared := d.shared.set i none })
    | none => (.refused .outOfRange, d)
  | .look i =>
    match d.view? i with
    | some v => (.number (v.handles d.memory), d)
    | none => (.refused .outOfRange, d)

/-- Carries out operations, one after the other, until one is refused. -/
def performAll (d : Draft) : List WriteOp → Except Misuse Unit × Draft
  | [] => (.ok (), d)
  | op :: ops =>
    match d.perform op with
    | (.refused e, d) => (.error e, d)
    | (_, d) => d.performAll ops

/-- Lets go of the writer and of all views that were handed out. -/
def drop (d : Draft) : Memory :=
  d.shared.foldl (fun m v => match v with
    | some v => v.drop m
    | none => m) (d.writer.drop d.memory)

end Draft

end Tandem
