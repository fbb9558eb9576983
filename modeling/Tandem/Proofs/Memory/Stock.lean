import Tandem.Workspace
import Tandem.Proofs.Memory.Books

/-!
# Handles and views under names

A stock is a process with arrays and views under names, and threads that take turns with it
(`Stock.perform`).  Its operations clone and drop handles in many places that they do not speak of:
a view that is written to may move to another array, and what was under a name goes when something
else is put there.  Each operation is nevertheless a sequence of acts of the thread that has its
turn (`Stock.KeptBy.exists_follows`), so that books can be kept of every run, with one handle for
each name (`Stock.accounted`).
-/

namespace Tandem

open Memory (Books)

/-! ### What operations do with handles -/

namespace Memory

/-- An act of the thread that has its turn, on arrays that there can be. -/
def Act.isOnArrays : Act → Bool
  | .create _ | .retain _ | .release _ | .overwrite _ _ _ => true
  | _ => false

/-- Acts on arrays make `m'` of `m`, and with it `held'` of the handles `held`. -/
def Reaches (m : Memory) (held : Multiset ArrayId) (m' : Memory) (held' : Multiset ArrayId) :
    Prop :=
  ∀ b : Books, b.memory = m → b.held = held →
    ∃ acts : List Act, (∀ act ∈ acts, act.isOnArrays = true) ∧
      (b.run acts).memory = m' ∧ (b.run acts).held = held'

namespace Books

theorem run_append (b : Books) (acts more : List Act) :
    b.run (acts ++ more) = (b.run acts).run more :=
  List.foldl_append

theorem run_of_isOnArrays {acts : List Act} (h : ∀ act ∈ acts, act.isOnArrays = true) (b : Books) :
    (b.run acts).ended = b.ended ∧ (b.run acts).missed = b.missed := by
  induction acts generalizing b with
  | nil => exact ⟨rfl, rfl⟩
  | cons act acts ih =>
    obtain ⟨hact, hacts⟩ := List.forall_mem_cons.1 h
    have hstep : (b.step act).ended = b.ended ∧ (b.step act).missed = b.missed := by
      cases act with
      | create min | overwrite a p bs => exact ⟨rfl, rfl⟩
      | retain a | release a =>
        rw [step]
        split_ifs <;> exact ⟨rfl, rfl⟩
      | miss | fix s | touch | switch t | start | exit t => cases hact
    obtain ⟨hended, hmissed⟩ := ih hacts (b.step act)
    exact ⟨hended.trans hstep.1, hmissed.trans hstep.2⟩

end Books

variable {m m' m'' : Memory} {held held' held'' : Multiset ArrayId} {a : ArrayId}

theorem Reaches.refl (m : Memory) (held : Multiset ArrayId) : Reaches m held m held :=
  fun _ hm hh => ⟨[], fun _ h => absurd h List.not_mem_nil, hm, hh⟩

theorem Reaches.trans (h : Reaches m held m' held') (h' : Reaches m' held' m'' held'') :
    Reaches m held m'' held'' := by
  intro b hm hh
  obtain ⟨acts, hacts, hm', hh'⟩ := h b hm hh
  obtain ⟨more, hmore, hm'', hh''⟩ := h' (b.run acts) hm' hh'
  refine ⟨acts ++ more, fun act hmem => ?_, ?_, ?_⟩
  · exact (List.mem_append.1 hmem).elim (hacts act) (hmore act)
  · rw [Books.run_append, hm'']
  · rw [Books.run_append, hh'']

theorem Reaches.of_act (act : Act) (hact : act.isOnArrays = true)
    (h : ∀ b : Books, b.memory = m → b.held = held →
      (b.step act).memory = m' ∧ (b.step act).held = held') : Reaches m held m' held' :=
  fun b hm hh => ⟨[act], fun _ hmem => List.mem_singleton.1 hmem ▸ hact, h b hm hh⟩

theorem Reaches.create (m : Memory) (held : Multiset ArrayId) (min : Nat) :
    Reaches m held (m.create min).2 (m.arrays ::ₘ held) :=
  .of_act (.create min) rfl fun b hm hh => by
    subst hm hh
    exact ⟨rfl, rfl⟩

theorem Reaches.retain (h : a ∈ held) : Reaches m held (m.retain a) (a ::ₘ held) :=
  .of_act (.retain a) rfl fun b hm hh => by
    subst hm hh
    rw [Books.step, if_pos h]
    exact ⟨rfl, rfl⟩

theorem Reaches.release (m : Memory) (a : ArrayId) (held : Multiset ArrayId) :
    Reaches m (a ::ₘ held) (m.release a) held :=
  .of_act (.release a) rfl fun b hm hh => by
    have ha : a ∈ b.held := hh ▸ Multiset.mem_cons_self a held
    rw [Books.step, if_pos ha]
    exact ⟨congrArg (·.release a) hm, by rw [hh, Multiset.erase_cons_head]⟩

theorem Reaches.overwrite (m : Memory) (held : Multiset ArrayId) (a p : Nat) (bs : Bytes) :
    Reaches m held (m.overwrite a p bs) held :=
  .of_act (.overwrite a p bs) rfl fun b hm hh => by
    subst hm hh
    exact ⟨rfl, rfl⟩

end Memory

open Memory (Reaches)

/-! ### Views -/

namespace View

variable {m : Memory} {v : View}

theorem reaches_create (m : Memory) (held : Multiset ArrayId) (min : Nat) :
    Reaches m held (create min m).2 ((create min m).1.array ::ₘ held) :=
  .create m held min

theorem reaches_ofBytes (m : Memory) (held : Multiset ArrayId) (bs : Bytes) :
    Reaches m held (ofBytes bs m).2 ((ofBytes bs m).1.array ::ₘ held) :=
  (Reaches.create m held bs.length).trans (.overwrite _ _ _ _ _)

/-- **Moving a view** makes an array and then drops the handle on the old one. -/
theorem reaches_relocate (v : View) (n : Nat) (m : Memory) (held : Multiset ArrayId) :
    Reaches m (v.array ::ₘ held) (v.relocate n m).2 ((v.relocate n m).1.array ::ₘ held) := by
  have hcreate := Reaches.create m (v.array ::ₘ held) n
  have hfill := hcreate.trans (.overwrite _ _ m.arrays 0 (v.bytes m))
  -- the handle that is dropped is the one that was there before
  rw [Multiset.cons_swap] at hfill
  exact hfill.trans (.release _ _ _)

theorem reaches_own (v : View) (m : Memory) (held : Multiset ArrayId) :
    Reaches m (v.array ::ₘ held) (v.own m).2 ((v.own m).1.array ::ₘ held) := by
  unfold own
  split_ifs
  · exact .refl _ _
  · exact v.reaches_relocate _ m held

theorem reaches_ensure (v : View) (n : Nat) (m : Memory) (held : Multiset ArrayId) :
    Reaches m (v.array ::ₘ held) (v.ensure n m).2 ((v.ensure n m).1.array ::ₘ held) := by
  unfold ensure
  split_ifs
  · exact .refl _ _
  · exact v.reaches_relocate n m held

theorem reaches_setLength (v : View) (n : Nat) (m : Memory) (held : Multiset ArrayId) :
    Reaches m (v.array ::ₘ held) (v.setLength n m).2 ((v.setLength n m).1.array ::ₘ held) :=
  v.reaches_ensure n m held

theorem reaches_write (v : View) (p : Nat) (bs : Bytes) (m : Memory) (held : Multiset ArrayId) :
    Reaches m (v.array ::ₘ held) (v.write p bs m).2 ((v.write p bs m).1.array ::ₘ held) :=
  (v.reaches_own m held).trans (.overwrite _ _ _ _ _)

theorem reaches_resize (v : View) (n : Nat) (fill : UInt8) (m : Memory)
    (held : Multiset ArrayId) :
    Reaches m (v.array ::ₘ held) (v.resize n fill m).2 ((v.resize n fill m).1.array ::ₘ held) := by
  have hlength := v.reaches_setLength n m held
  unfold resize
  simp only
  split_ifs
  · exact hlength.trans (reaches_write _ _ _ _ _)
  · exact hlength

theorem array_of_advance {v v' : View} {n : Nat} (h : v.advance n = .ok v') :
    v'.array = v.array := by
  unfold advance at h
  split_ifs at h
  cases h
  rfl

end View

/-! ### Names -/

namespace Workspace

variable {α : Type} {f : α → ArrayId} {rest : Multiset ArrayId} {w w' : Workspace α} {m : Memory}
  {name : String} {a a' : α} {drop : α → Memory → Memory}

/-- The handles under the names of a table. -/
def handles (f : α → ArrayId) (slots : Table String α) : Multiset ArrayId := slots.values.map f

theorem handles_set (f : α → ArrayId) (slots : Table String α) (name : String) (a : α) :
    handles f (slots.set name a) = f a ::ₘ handles f (slots.erase name) := rfl

theorem handles_of_some {slots : Table String α} (h : slots.get? name = some a) :
    handles f slots = f a ::ₘ handles f (slots.erase name) :=
  Multiset.coe_eq_coe.2 ((Table.values_perm h).map f)

theorem mem_handles {slots : Table String α} (h : slots.get? name = some a) :
    f a ∈ handles f slots :=
  Multiset.mem_coe.2 (List.mem_map_of_mem ((Table.mem_values_iff _ _).2 ⟨name, h⟩))

/-- Acts on arrays make `w'` of `w`, beside other handles. -/
def Becoming (f : α → ArrayId) (rest : Multiset ArrayId) (w w' : Workspace α) : Prop :=
  Reaches w.memory (handles f w.slots + rest) w'.memory (handles f w'.slots + rest)

/-- **Putting something under a name** drops what was there. -/
theorem reaches_assign (hdrop : ∀ a m, drop a m = m.release (f a)) :
    Reaches m (f a ::ₘ (handles f w.slots + rest)) (w.assign drop name a m).memory
      (handles f (w.assign drop name a m).slots + rest) := by
  simp only [assign, handles_set, Multiset.cons_add]
  cases hold : w.slots.get? name with
  | none =>
    rw [Table.erase_of_get?_none hold]
    exact .refl _ _
  | some old =>
    rw [handles_of_some hold, Multiset.cons_add, Multiset.cons_swap]
    simp only [hdrop]
    exact .release _ _ _

theorem becoming_discard (hdrop : ∀ a m, drop a m = m.release (f a)) :
    Becoming f rest w (w.discard drop name) := by
  simp only [Becoming, discard]
  cases hold : w.slots.get? name with
  | none =>
    rw [Table.erase_of_get?_none hold]
    exact .refl _ _
  | some old =>
    rw [handles_of_some hold, Multiset.cons_add]
    simp only [hdrop]
    exact .release _ _ _

/-- **Replacing the handle** of a name, whatever the other handles are. -/
theorem becoming_update (h : w.slots.get? name = some a)
    (hreaches : ∀ held, Reaches w.memory (f a ::ₘ held) m (f a' ::ₘ held)) :
    Becoming f rest w (w.update name a' m) := by
  simp only [Becoming, update, handles_set, handles_of_some h, Multiset.cons_add]
  exact hreaches _

theorem becoming_assign (hdrop : ∀ a m, drop a m = m.release (f a))
    (hreaches : ∀ held, Reaches w.memory held m (f a ::ₘ held)) :
    Becoming f rest w (w.assign drop name a m) :=
  (hreaches _).trans (reaches_assign hdrop)

theorem becoming_clone (hdrop : ∀ a m, drop a m = m.release (f a)) {source : String}
    (h : w.slots.get? source = some a) :
    Becoming f rest w (w.assign drop name a (w.memory.retain (f a))) :=
  (Reaches.retain (Multiset.mem_add.2 (.inl (mem_handles h)))).trans (reaches_assign hdrop)

theorem becoming_withSlot {g : α → Reply × Workspace α}
    (h : ∀ a, w.slots.get? name = some a → Becoming f rest w (g a).2) :
    Becoming f rest w (w.withSlot name g).2 := by
  unfold withSlot
  cases hslot : w.slots.get? name with
  | none => exact .refl _ _
  | some a => exact h a hslot

end Workspace

open Workspace (Becoming becoming_assign becoming_clone becoming_discard becoming_update
  becoming_withSlot)

theorem ArrayOp.becoming_run (rest : Multiset ArrayId) (w : Workspace ArrayId) (op : ArrayOp) :
    Becoming id rest w (op.run w).2 := by
  have hdrop : ∀ (a : ArrayId) (m : Memory), m.release a = m.release (id a) := fun _ _ => rfl
  cases op with
  | create name min => exact becoming_assign hdrop fun held => .create _ held min
  | clone name source => exact becoming_withSlot fun a ha => becoming_clone hdrop ha
  | drop name => exact becoming_discard hdrop
  | set name i byte =>
    refine becoming_withSlot fun a ha => ?_
    split_ifs
    · exact .refl _ _
    · exact .overwrite _ _ _ _ _
    · exact .refl _ _
  | get name i =>
    refine becoming_withSlot fun a ha => ?_
    cases (w.memory.block a).get? i <;> exact .refl _ _
  | isEmpty name | describe name => exact becoming_withSlot fun a ha => .refl _ _
  | same name other =>
    exact becoming_withSlot fun a ha => becoming_withSlot fun a' ha' => .refl _ _

theorem ViewOp.becoming_run (rest : Multiset ArrayId) (w : Workspace View) (op : ViewOp) :
    Becoming View.array rest w (op.run w).2 := by
  have hdrop : ∀ (v : View) (m : Memory), v.drop m = m.release v.array := fun _ _ => rfl
  cases op with
  | create name min => exact becoming_assign hdrop fun held => View.reaches_create _ held min
  | ofBytes name bs => exact becoming_assign hdrop fun held => View.reaches_ofBytes _ held bs
  | clone name source => exact becoming_withSlot fun v hv => becoming_clone hdrop hv
  | drop name => exact becoming_discard hdrop
  | advance name n =>
    refine becoming_withSlot fun v hv => ?_
    cases hadvance : v.advance n with
    | ok v' =>
      refine becoming_update hv fun held => ?_
      rw [View.array_of_advance hadvance]
      exact .refl _ _
    | error e => exact .refl _ _
  | truncate name n =>
    exact becoming_withSlot fun v hv => becoming_update hv fun held => .refl _ _
  | setLength name n =>
    exact becoming_withSlot fun v hv => becoming_update hv fun held => v.reaches_setLength n _ held
  | ensure name n =>
    exact becoming_withSlot fun v hv => becoming_update hv fun held => v.reaches_ensure n _ held
  | resize name n fill =>
    exact becoming_withSlot fun v hv => becoming_update hv fun held =>
      v.reaches_resize n fill _ held
  | set name i byte =>
    refine becoming_withSlot fun v hv => ?_
    simp only
    split_ifs
    · exact becoming_update hv fun held => (v.reaches_own _ held).trans (.overwrite _ _ _ _ _)
    · exact becoming_update hv fun held => v.reaches_own _ held
  | own name =>
    exact becoming_withSlot fun v hv => becoming_update hv fun held => v.reaches_own _ held
  | equal name other | shares name other =>
    exact becoming_withSlot fun v hv => becoming_withSlot fun v' hv' => .refl _ _
  | isEmpty name | contents name | describe name =>
    exact becoming_withSlot fun v hv => .refl _ _

/-! ### The stock -/

/-- A process with arrays and views under names. -/
structure Stock where
  memory : Memory
  arrays : Table String ArrayId
  views : Table String View
  /-- the threads that have ended -/
  ended : List ThreadId

namespace Stock

/-- One thread, nothing under any name. -/
def start : Stock := ⟨.initial, .empty, .empty, []⟩

def arraySpace (s : Stock) : Workspace ArrayId := ⟨s.memory, s.arrays⟩

def viewSpace (s : Stock) : Workspace View := ⟨s.memory, s.views⟩

/-- The array of each handle, be it under a name of its own or that of a view. -/
def handles (s : Stock) : Multiset ArrayId :=
  Workspace.handles id s.arrays + Workspace.handles View.array s.views

/-- What threads do with a stock. -/
inductive Op where
  | arrays (op : ArrayOp)
  | views (op : ViewOp)
  | process (op : ProcessOp)
  /-- the counters of the thread are looked at -/
  | touch
  /-- another thread has its turn -/
  | switch (t : ThreadId)
  | start
  /-- the thread ends and another one has its turn -/
  | exit (t : ThreadId)
  deriving Repr

/-- Whether an operation is one on handles. -/
def Op.isOnHandles : Op → Bool
  | .arrays _ | .views _ => true
  | _ => false

/-- The length of the array that an operation needs to be made. -/
def demand (s : Stock) : Op → Option Nat
  | .arrays op => op.demand
  | .views op => op.demand s.viewSpace
  | _ => none

/-- Whether a thread was started and has not ended. -/
def isAlive (s : Stock) (t : ThreadId) : Bool := t < s.memory.threads && !s.ended.contains t

/-- Carries out an operation.  Only threads that are alive have turns. -/
def perform (s : Stock) : Op → Stock
  | .arrays op =>
    let w := (op.attempt s.arraySpace).2
    { s with memory := w.memory, arrays := w.slots }
  | .views op =>
    let w := (op.attempt s.viewSpace).2
    { s with memory := w.memory, views := w.slots }
  | .process op => { s with memory := (op.run s.memory).2 }
  | .touch => { s with memory := s.memory.touch }
  | .switch t => if s.isAlive t then { s with memory := s.memory.onThread t } else s
  | .start => { s with memory := s.memory.startThread }
  | .exit t =>
    if s.isAlive t && t ≠ s.memory.thread then
      { s with memory := s.memory.endThread t, ended := s.memory.thread :: s.ended }
    else s

/-- Carries out operations, one after the other. -/
def run (s : Stock) (ops : List Op) : Stock := ops.foldl perform s

/-- The number of arrays that an operation asks for in vain. -/
def misses (s : Stock) (op : Op) : Nat := if (s.demand op).all s.memory.canCreate then 0 else 1

/-- The number of arrays that operations ask for in vain, one after the other. -/
def refusals (s : Stock) : List Op → Nat
  | [] => 0
  | op :: ops => s.misses op + (s.perform op).refusals ops

/-! ### Books of a stock -/

open Memory (Act)

/-- The books are those of the stock. -/
structure KeptBy (s : Stock) (b : Books) : Prop where
  memory_eq : b.memory = s.memory
  held_eq : b.held = s.handles
  ended_eq : b.ended = s.ended

/-- The books after an operation.  One on handles is a sequence of acts of the thread that has its
turn. -/
structure Follows (s : Stock) (b : Books) (op : Op) (acts : List Act) : Prop where
  keptBy : (s.perform op).KeptBy (b.run acts)
  missed_eq : (b.run acts).missed.length = b.missed.length + s.misses op
  onArrays : op.isOnHandles = true → (∀ act ∈ acts, act.isOnArrays = true) ∨ acts = [.miss]

variable {s : Stock} {b : Books} {op : Op}

theorem keptBy_opening : start.KeptBy .opening := ⟨rfl, rfl, rfl⟩

theorem KeptBy.follows_reaches (h : s.KeptBy b) (hended : (s.perform op).ended = s.ended)
    (hfits : (s.demand op).all s.memory.canCreate = true)
    (hreaches : Reaches s.memory s.handles (s.perform op).memory (s.perform op).handles) :
    ∃ acts, s.Follows b op acts := by
  obtain ⟨acts, hacts, hmemory, hheld⟩ := hreaches b h.memory_eq h.held_eq
  obtain ⟨hended', hmissed⟩ := b.run_of_isOnArrays hacts
  refine ⟨acts, ⟨hmemory, hheld, hended'.trans (h.ended_eq.trans hended.symm)⟩, ?_,
    fun _ => .inl hacts⟩
  rw [hmissed, misses, if_pos hfits, Nat.add_zero]

theorem KeptBy.follows_miss (h : s.KeptBy b)
    (hrefused : ¬(s.demand op).all s.memory.canCreate = true)
    (hperform : s.perform op = { s with memory := s.memory.miss }) :
    s.Follows b op [.miss] where
  keptBy := by
    rw [hperform]
    exact ⟨congrArg Memory.miss h.memory_eq, h.held_eq, h.ended_eq⟩
  missed_eq := by
    rw [misses, if_neg hrefused]
    exact List.length_append
  onArrays _ := .inr rfl

theorem follows_of_not_onHandles (hop : op.isOnHandles = false) {acts : List Act}
    (hkept : (s.perform op).KeptBy (b.run acts)) (hmissed : (b.run acts).missed = b.missed) :
    s.Follows b op acts where
  keptBy := hkept
  missed_eq := by
    have hnone : s.demand op = none := by
      cases op with
      | arrays op | views op => cases hop
      | process op | touch | switch t | start | exit t => rfl
    rw [hmissed, misses, hnone, Option.all_none, if_pos rfl, Nat.add_zero]
  onArrays htrue := absurd (hop.symm.trans htrue) Bool.false_ne_true

theorem KeptBy.exists_follows_arrays (h : s.KeptBy b) (op : ArrayOp) :
    ∃ acts, s.Follows b (.arrays op) acts := by
  by_cases hfits : op.demand.all s.memory.canCreate = true
  · have hattempt : op.attempt s.arraySpace = op.run s.arraySpace := if_pos hfits
    refine h.follows_reaches rfl hfits ?_
    rw [perform, hattempt]
    exact op.becoming_run _ s.arraySpace
  · have hattempt : op.attempt s.arraySpace = s.arraySpace.miss := if_neg hfits
    refine ⟨_, h.follows_miss hfits ?_⟩
    rw [perform, hattempt]
    rfl

theorem KeptBy.exists_follows_views (h : s.KeptBy b) (op : ViewOp) :
    ∃ acts, s.Follows b (.views op) acts := by
  by_cases hfits : (op.demand s.viewSpace).all s.memory.canCreate = true
  · have hattempt : op.attempt s.viewSpace = op.run s.viewSpace := if_pos hfits
    have hbecoming := op.becoming_run (Workspace.handles id s.arrays) s.viewSpace
    -- the handles of the views stand behind those of the arrays in a stock
    have hcomm : ∀ slots, Workspace.handles View.array slots + Workspace.handles id s.arrays =
        Workspace.handles id s.arrays + Workspace.handles View.array slots :=
      fun _ => Multiset.add_comm _ _
    rw [Becoming, hcomm, hcomm] at hbecoming
    refine h.follows_reaches rfl hfits ?_
    rw [perform, hattempt]
    exact hbecoming
  · have hattempt : op.attempt s.viewSpace = s.viewSpace.miss := if_neg hfits
    refine ⟨_, h.follows_miss hfits ?_⟩
    rw [perform, hattempt]
    rfl

theorem KeptBy.isAlive_eq (h : s.KeptBy b) (t : ThreadId) : b.isAlive t = s.isAlive t := by
  rw [Books.isAlive, h.memory_eq, h.ended_eq, isAlive]

/-- A thread that is not alive does not get the turn; nothing is written in the books then. -/
theorem KeptBy.exists_follows_switch (h : s.KeptBy b) (t : ThreadId) :
    ∃ acts, s.Follows b (.switch t) acts := by
  by_cases ht : s.isAlive t = true
  · have hstep : b.run [.switch t] = { b with memory := b.memory.onThread t } :=
      if_pos ((h.isAlive_eq t).trans ht)
    refine ⟨[.switch t], follows_of_not_onHandles rfl ?_ ?_⟩
    · rw [hstep, perform, if_pos ht]
      exact ⟨congrArg (Memory.onThread · t) h.memory_eq, h.held_eq, h.ended_eq⟩
    · rw [hstep]
  · refine ⟨[], follows_of_not_onHandles rfl ?_ rfl⟩
    rw [perform, if_neg ht]
    exact h

theorem KeptBy.exists_follows_exit (h : s.KeptBy b) (t : ThreadId) :
    ∃ acts, s.Follows b (.exit t) acts := by
  by_cases ht : (s.isAlive t && decide (t ≠ s.memory.thread)) = true
  · have hguard : (b.isAlive t && decide (t ≠ b.memory.thread)) = true := by
      rw [h.isAlive_eq, h.memory_eq]
      exact ht
    have hstep : b.run [.exit t] =
        { b with memory := b.memory.endThread t, ended := b.memory.thread :: b.ended } :=
      if_pos hguard
    refine ⟨[.exit t], follows_of_not_onHandles rfl ?_ ?_⟩
    · rw [hstep, perform, if_pos ht]
      refine ⟨congrArg (Memory.endThread · t) h.memory_eq, h.held_eq, ?_⟩
      rw [h.memory_eq, h.ended_eq]
    · rw [hstep]
  · refine ⟨[], follows_of_not_onHandles rfl ?_ rfl⟩
    rw [perform, if_neg ht]
    exact h

/-- **Books can be kept** of every operation. -/
theorem KeptBy.exists_follows (h : s.KeptBy b) (op : Op) : ∃ acts, s.Follows b op acts := by
  cases op with
  | arrays op => exact h.exists_follows_arrays op
  | views op => exact h.exists_follows_views op
  | switch t => exact h.exists_follows_switch t
  | exit t => exact h.exists_follows_exit t
  | touch =>
    refine ⟨[.touch], follows_of_not_onHandles rfl ⟨?_, h.held_eq, h.ended_eq⟩ rfl⟩
    exact congrArg Memory.touch h.memory_eq
  | start =>
    refine ⟨[.start], follows_of_not_onHandles rfl ⟨?_, h.held_eq, h.ended_eq⟩ rfl⟩
    exact congrArg Memory.startThread h.memory_eq
  | process op =>
    cases op with
    | fix settings =>
      refine ⟨[.fix settings], follows_of_not_onHandles rfl ⟨?_, h.held_eq, h.ended_eq⟩ rfl⟩
      exact congrArg (fun m => (m.fixSettings settings).2) h.memory_eq
    | isInitialized | settings => exact ⟨[], follows_of_not_onHandles rfl h rfl⟩

theorem KeptBy.run (h : s.KeptBy b) (ops : List Op) :
    ∃ acts, (s.run ops).KeptBy (b.run acts) ∧
      (b.run acts).missed.length = b.missed.length + s.refusals ops := by
  -- over the operations, from any stock with books of its own
  induction ops generalizing s b with
  | nil => exact ⟨[], h, rfl⟩
  | cons op ops ih =>
    obtain ⟨acts, hfollows⟩ := h.exists_follows op
    obtain ⟨more, hkept, hmissed⟩ := ih hfollows.keptBy
    refine ⟨acts ++ more, ?_, ?_⟩
    · rw [Books.run_append]
      exact hkept
    · rw [Books.run_append, hmissed, hfollows.missed_eq, refusals, Nat.add_assoc]

/-- **Arrays are accounted for.**  Whatever threads do, one act after the other, the counts are
those of the handles, arrays and blocks that there are, and blocks move only between an array and
the thread that makes it or drops its last handle.  What is done with arrays and views under names
is a sequence of such acts, with a handle for each name. -/
theorem accounted :
    (∀ acts, (Books.opening.run acts).Balanced) ∧
      (∀ acts act, (∀ settings, act ≠ .fix settings) → (Books.opening.run acts).Serves act) ∧
      (∀ ops, (∀ a, (start.run ops).memory.handles a = (start.run ops).handles.count a) ∧
        (start.run ops).memory.live =
          (start.run ops).handles.toFinset.card + start.refusals ops) ∧
      ∀ ops, ∃ acts, (start.run ops).KeptBy (Books.opening.run acts) ∧
        (Books.opening.run acts).missed.length = start.refusals ops ∧
        ∀ op, ∃ more, (start.run ops).Follows (Books.opening.run acts) op more := by
  have hkept : ∀ ops, ∃ acts, (start.run ops).KeptBy (Books.opening.run acts) ∧
      (Books.opening.run acts).missed.length = start.refusals ops := fun ops => by
    obtain ⟨acts, hkept, hmissed⟩ := keptBy_opening.run ops
    exact ⟨acts, hkept, hmissed.trans (Nat.zero_add _)⟩
  refine ⟨Books.balanced_run, fun acts act hfix => ?_, fun ops => ?_, fun ops => ?_⟩
  · exact (Books.sound_opening.run acts).serves hfix
  · obtain ⟨acts, h, hmissed⟩ := hkept ops
    have hbalanced := Books.balanced_run acts
    rw [← h.memory_eq, ← h.held_eq, ← hmissed]
    exact ⟨hbalanced.handles_eq, hbalanced.live_eq⟩
  · obtain ⟨acts, h, hmissed⟩ := hkept ops
    exact ⟨acts, h, hmissed, h.exists_follows⟩

/-- A view made on one thread goes on another: its clone moves to an array of its own there, and the
array that it was on goes with the last view of it. -/
def relay : List Op :=
  [.views (.create "draft" 10), .views (.clone "copy" "draft"), .start, .views (.own "copy"),
    .views (.drop "draft")]

/-- Each thread counts the array that it made, and the thread that dropped the last handle on the
first one has its block. -/
theorem accounted_relay : ∃ acts, (start.run relay).KeptBy (Books.opening.run acts) ∧
    (Books.opening.run acts).Serves .miss ∧
    ((Books.opening.run acts).made.map Prod.fst).count 1 = 1 ∧
    ((Books.opening.run acts).recycled.map Prod.fst).count 0 = 0 ∧
    ((Books.opening.run acts).recycled.map Prod.fst).count 1 = 1 ∧
    ((start.run relay).memory.onThread 1).cache.pool.pooled = [1, 0, 0, 0, 0] ∧
    (start.run relay).memory.live = 1 := by
  obtain ⟨hbalanced, hserves, hlive, hruns⟩ := accounted
  obtain ⟨acts, hkept, hmissed, -⟩ := hruns relay
  have hcounts := fun t => (hbalanced acts).counts t
  rw [hkept.memory_eq, hkept.ended_eq, List.eq_nil_of_length_eq_zero hmissed] at hcounts
  refine ⟨acts, hkept, hserves acts .miss (by rintro _ ⟨⟩), ?_, ?_, ?_, by decide,
    (hlive relay).2.trans ?_⟩
  · exact (hcounts 1 List.not_mem_nil).created_eq.symm.trans (by decide)
  · exact (hcounts 0 List.not_mem_nil).recycled_eq.symm.trans (by decide)
  · exact (hcounts 1 List.not_mem_nil).recycled_eq.symm.trans (by decide)
  · decide

end Stock

end Tandem
