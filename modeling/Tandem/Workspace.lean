import Tandem.View

/-!
# Named handles

A workspace keeps arrays or views under names and carries out operations on them, one after the
other.  Putting something under a name that is taken lets go of what was there, after the new thing
was made.

`run` carries out an operation as if there were no end of memory.  `attempt` does the same unless
the operation needs an array that there cannot be: then nothing changes but what is counted.
-/

namespace Tandem

/-- What an operation answers. -/
inductive Reply where
  | done
  | flag (b : Bool)
  | number (n : Nat)
  | text (s : String)
  | bytes (bs : Bytes)
  | settings (s : Memory.Settings)
  | refused (e : Misuse)
  deriving Repr

/-- Memory, and handles under names. -/
structure Workspace (α : Type) where
  memory : Memory
  slots : Table String α

namespace Workspace

def initial {α : Type} : Workspace α := ⟨.initial, .empty⟩

variable {α : Type}

/-- Puts `a` under a name; `drop` lets go of what was there. -/
def assign (w : Workspace α) (drop : α → Memory → Memory) (name : String) (a : α) (m : Memory) :
    Workspace α where
  memory := match w.slots.get? name with
    | none => m
    | some old => drop old m
  slots := w.slots.set name a

/-- Lets go of what is under a name. -/
def discard (w : Workspace α) (drop : α → Memory → Memory) (name : String) : Workspace α where
  memory := match w.slots.get? name with
    | none => w.memory
    | some old => drop old w.memory
  slots := w.slots.erase name

/-- Carries on with the handle of a name, which must be in use. -/
def withSlot (w : Workspace α) (name : String) (f : α → Reply × Workspace α) :
    Reply × Workspace α :=
  match w.slots.get? name with
  | none => (.refused .outOfRange, w)
  | some a => f a

/-- Replaces the handle of a name by one that took its place. -/
def update (w : Workspace α) (name : String) (a : α) (m : Memory) : Workspace α :=
  ⟨m, w.slots.set name a⟩

end Workspace

/-- Refuses an operation that needs an array that there cannot be. -/
def Workspace.miss {α : Type} (w : Workspace α) : Reply × Workspace α :=
  (.refused .outOfRange, { w with memory := w.memory.miss })

/-- Operations on the settings of the process. -/
inductive ProcessOp where
  | fix (s : Memory.Settings)
  | isInitialized
  | settings
  deriving Repr

/-- Carries out an operation on the settings. -/
def ProcessOp.run (m : Memory) : ProcessOp → Reply × Memory
  | fix s =>
    let (fixed, m) := m.fixSettings s
    (.flag fixed, m)
  | isInitialized => (.flag m.settings.isSome, m)
  | settings => (.settings m.effectiveSettings, m)

/-- Operations on arrays under names. -/
inductive ArrayOp where
  | create (name : String) (min : Nat)
  | clone (name source : String)
  | drop (name : String)
  | set (name : String) (index : Nat) (byte : UInt8)
  | get (name : String) (index : Nat)
  | isEmpty (name : String)
  | same (name other : String)
  | describe (name : String)
  deriving Repr

/-- Carries out an operation on arrays.  A byte is only set through the one handle of an array. -/
def ArrayOp.run (w : Workspace ArrayId) : ArrayOp → Reply × Workspace ArrayId
  | create name min =>
    let (a, m) := w.memory.create min
    (.done, w.assign (fun a m => m.release a) name a m)
  | clone name source => w.withSlot source fun a =>
    (.done, w.assign (fun a m => m.release a) name a (w.memory.retain a))
  | drop name => (.done, w.discard (fun a m => m.release a) name)
  | set name i b => w.withSlot name fun a =>
    if w.memory.handles a ≠ 1 then (.flag false, w)
    else if i < (w.memory.block a).length then
      (.flag true, { w with memory := w.memory.overwrite a i [b] })
    else (.refused .outOfRange, w)
  | get name i => w.withSlot name fun a =>
    match (w.memory.block a).get? i with
    | some b => (.number b.toNat, w)
    | none => (.refused .outOfRange, w)
  | isEmpty name => w.withSlot name fun a => (.flag ((w.memory.block a).length = 0), w)
  | same name other => w.withSlot name fun a => w.withSlot other fun b => (.flag (a = b), w)
  | describe name => w.withSlot name fun a =>
    let length := (w.memory.block a).length
    let handles := w.memory.handles a
    (.text s!"RecyclingArray \x7b len: {length}, ref_count: {handles} \x7d", w)

/-- The length of the array that an operation needs to be made. -/
def ArrayOp.demand : ArrayOp → Option Nat
  | create _ min => some min
  | _ => none

/-- Carries out an operation on arrays, if there can be the memory for it. -/
def ArrayOp.attempt (w : Workspace ArrayId) (op : ArrayOp) : Reply × Workspace ArrayId :=
  if op.demand.all w.memory.canCreate then op.run w else w.miss

/-- Operations on views under names. -/
inductive ViewOp where
  | create (name : String) (min : Nat)
  | ofBytes (name : String) (bs : Bytes)
  | clone (name source : String)
  | drop (name : String)
  | advance (name : String) (n : Nat)
  | truncate (name : String) (n : Nat)
  | setLength (name : String) (n : Nat)
  | ensure (name : String) (n : Nat)
  | resize (name : String) (n : Nat) (fill : UInt8)
  | set (name : String) (index : Nat) (byte : UInt8)
  | own (name : String)
  | equal (name other : String)
  | shares (name other : String)
  | isEmpty (name : String)
  | contents (name : String)
  | describe (name : String)
  deriving Repr

/-- The bytes of a view as a list of numbers. -/
def View.describe (bs : Bytes) : String :=
  "[" ++ ", ".intercalate (bs.map fun b => toString b.toNat) ++ "]"

/-- Carries out an operation on views.  Setting a byte makes the view the only one of its array
before the position is looked at. -/
def ViewOp.run (w : Workspace View) : ViewOp → Reply × Workspace View
  | create name min =>
    let (v, m) := View.create min w.memory
    (.done, w.assign View.drop name v m)
  | ofBytes name bs =>
    let (v, m) := View.ofBytes bs w.memory
    (.done, w.assign View.drop name v m)
  | clone name source => w.withSlot source fun v =>
    (.done, w.assign View.drop name v (v.clone w.memory))
  | drop name => (.done, w.discard View.drop name)
  | advance name n => w.withSlot name fun v =>
    match v.advance n with
    | .ok v => (.done, w.update name v w.memory)
    | .error e => (.refused e, w)
  | truncate name n => w.withSlot name fun v => (.done, w.update name (v.truncate n) w.memory)
  | setLength name n => w.withSlot name fun v =>
    let (v, m) := v.setLength n w.memory
    (.done, w.update name v m)
  | ensure name n => w.withSlot name fun v =>
    let (v, m) := v.ensure n w.memory
    (.done, w.update name v m)
  | resize name n fill => w.withSlot name fun v =>
    let (v, m) := v.resize n fill w.memory
    (.done, w.update name v m)
  | set name i b => w.withSlot name fun v =>
    let (v, m) := v.own w.memory
    if i < v.length then (.done, w.update name v (m.overwrite v.array (v.offset + i) [b]))
    else (.refused .outOfRange, w.update name v m)
  | own name => w.withSlot name fun v =>
    let (v, m) := v.own w.memory
    (.number (v.capacity m), w.update name v m)
  | equal name other => w.withSlot name fun v => w.withSlot other fun u =>
    (.flag (v.bytes w.memory == u.bytes w.memory), w)
  | shares name other => w.withSlot name fun v => w.withSlot other fun u => (.flag (v.shares u), w)
  | isEmpty name => w.withSlot name fun v => (.flag (v.length = 0), w)
  | contents name => w.withSlot name fun v => (.bytes (v.bytes w.memory), w)
  | describe name => w.withSlot name fun v => (.text (View.describe (v.bytes w.memory)), w)

/-- The length of the array that a view needs in order to hold `n` bytes, or to be the only one of
its array where it is written to. -/
def View.demand (v : View) (n : Nat) (written : Bool) (m : Memory) : Option Nat :=
  if v.capacity m < n then some n
  else if written && v.handles m ≠ 1 then some (v.capacity m)
  else none

/-- The length of the array that an operation needs to be made. -/
def ViewOp.demand (w : Workspace View) : ViewOp → Option Nat
  | create _ min => some min
  | ofBytes _ bs => some bs.length
  | setLength name n | ensure name n =>
    (w.slots.get? name).bind fun v => v.demand n false w.memory
  | resize name n _ => (w.slots.get? name).bind fun v => v.demand n (v.length < n) w.memory
  | set name _ _ | own name => (w.slots.get? name).bind fun v => v.demand 0 true w.memory
  | _ => none

/-- Carries out an operation on views, if there can be the memory for it. -/
def ViewOp.attempt (w : Workspace View) (op : ViewOp) : Reply × Workspace View :=
  if (op.demand w).all w.memory.canCreate then op.run w else w.miss

end Tandem
