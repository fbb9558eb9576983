import Tandem.Workspace
import Tandem.Proofs.View

/-!
# Names and what they stand for

Views, writers, readers and messages each hold one view of memory.  `Holder` says which view it is
and what value they stand for once the bytes are known that the view shows.  A `Register` has such
values under names, with nothing shared between them.

A workspace is `Sound` beside other views if its views and the others are all that holds their
arrays.  Assigning, updating and discarding then change its register at one name and leave the other
views alone (`Workspace.Becomes`), however many of the arrays are shared.  What operations answer
and make of a register is a matter of their own; `Workspace.Outcome` has a place for it.
-/

namespace Tandem

open Memory (HeldBy Keeps)

/-- Things that hold a view of memory. -/
class Holder (α : Type) (β : outParam Type) where
  view : α → View
  /-- what stands there, given the bytes of the view -/
  value : α → Bytes → β

/-- Values under names. -/
abbrev Register (β : Type) : Type := String → Option β

namespace Register

variable {β : Type} {r : Register β} {k l : String}

/-- Nothing under any name. -/
def empty : Register β := fun _ => none

/-- Puts something else, or nothing, under a name. -/
def put (r : Register β) (k : String) (b : Option β) : Register β :=
  fun l => if l = k then b else r l

@[simp] theorem put_self (r : Register β) (k : String) (b : Option β) : r.put k b k = b :=
  if_pos rfl

theorem put_of_ne (b : Option β) (h : l ≠ k) : r.put k b l = r l := if_neg h

theorem put_eq_self {b : Option β} (h : r k = b) : r.put k b = r := by
  funext l
  by_cases hl : l = k
  · subst hl
    rw [put_self, h]
  · exact put_of_ne b hl

end Register

namespace Workspace

variable {α β : Type} [Holder α β]

/-- The views that are held. -/
def held (w : Workspace α) : List View := w.slots.values.map Holder.view

/-- The views that are held under other names. -/
def beside (w : Workspace α) (k : String) : List View :=
  (w.slots.erase k).values.map Holder.view

/-- What stands under the names. -/
def register (w : Workspace α) : Register β :=
  fun k => (w.slots.get? k).map fun a => Holder.value a ((Holder.view a).bytes w.memory)

/-- The views of a workspace and the others are all that holds their arrays. -/
def Sound (others : List View) (w : Workspace α) : Prop := w.memory.HeldBy (w.held ++ others)

/-- `w'` is what became of `w` when `b` was put under `k`. -/
structure Becomes (others : List View) (w : Workspace α) (k : String) (b : Option β)
    (w' : Workspace α) : Prop where
  sound : w'.Sound others
  keeps : Keeps others w.memory w'.memory
  register_eq : w'.register = w.register.put k b

/-- What an operation on `w` answers and leaves: the views of `w` and the others are in order again,
the others show what they showed, and `E` holds of the answer and the register. -/
structure Outcome {ρ : Type} (others : List View) (w : Workspace α) (E : ρ → Register β → Prop)
    (r : ρ × Workspace α) : Prop where
  sound : r.2.Sound others
  keeps : Keeps others w.memory r.2.memory
  effect : E r.1 r.2.register

variable {others : List View} {w w' : Workspace α} {k l : String} {a a' : α} {b : Option β}
  {m : Memory} {slots : Table String α} {drop : α → Memory → Memory}

theorem register_of_none (h : w.slots.get? k = none) : w.register k = none := by
  simp only [register, h, Option.map_none]

theorem register_of_some (h : w.slots.get? k = some a) :
    w.register k = some (Holder.value a ((Holder.view a).bytes w.memory)) := by
  simp only [register, h, Option.map_some]

theorem view_mem_held (h : w.slots.get? k = some a) : Holder.view a ∈ w.held :=
  List.mem_map_of_mem ((Table.mem_values_iff _ _).2 ⟨k, h⟩)

theorem beside_of_none (h : w.slots.get? k = none) : w.beside k = w.held := by
  rw [beside, Table.erase_of_get?_none h, held]

theorem held_perm (h : w.slots.get? k = some a) :
    w.held.Perm (Holder.view a :: w.beside k) :=
  (Table.values_perm h).map Holder.view

theorem beside_subset_held (w : Workspace α) (k : String) : w.beside k ⊆ w.held := by
  cases h : w.slots.get? k with
  | none =>
    rw [beside_of_none h]
    exact List.Subset.refl _
  | some a => exact fun v hv => (held_perm h).mem_iff.2 (List.mem_cons_of_mem _ hv)

/-- **Holding** the view under a name beside all others. -/
theorem Sound.hold (h : w.Sound others) (hk : w.slots.get? k = some a) :
    w.memory.HeldBy (Holder.view a :: (w.beside k ++ others)) :=
  HeldBy.perm h ((held_perm hk).append_right others)

theorem register_of_keeps (hk : Keeps w.held w.memory m) :
    (⟨m, w.slots⟩ : Workspace α).register = w.register := by
  funext l
  cases hl : w.slots.get? l with
  | none => rw [register_of_none hl, register_of_none (w := ⟨m, w.slots⟩) hl]
  | some a =>
    rw [register_of_some hl, register_of_some (w := ⟨m, w.slots⟩) hl,
      hk.bytes_eq (view_mem_held hl)]

theorem register_eq_put (hk : Keeps (w.beside k) w.memory m)
    (hs : ∀ l, l ≠ k → slots.get? l = w.slots.get? l) :
    (⟨m, slots⟩ : Workspace α).register =
      w.register.put k ((⟨m, slots⟩ : Workspace α).register k) := by
  funext l
  by_cases hl : l = k
  · subst hl
    rw [Register.put_self]
  · rw [Register.put_of_ne _ hl]
    cases hw : w.slots.get? l with
    | none => rw [register_of_none hw, register_of_none ((hs l hl).trans hw)]
    | some a =>
      have hmem : Holder.view a ∈ w.beside k := by
        refine List.mem_map_of_mem ((Table.mem_values_iff _ _).2 ⟨l, ?_⟩)
        rw [Table.get?_erase_of_ne _ hl, hw]
      rw [register_of_some hw, register_of_some ((hs l hl).trans hw), hk.bytes_eq hmem]

/-! ### Steps -/

theorem Becomes.refl (h : w.Sound others) : Becomes others w k (w.register k) w :=
  ⟨h, .refl others w.memory, (Register.put_eq_self rfl).symm⟩

theorem becomes_update (hm : m.HeldBy (Holder.view a' :: (w.beside k ++ others)))
    (hk : Keeps (w.beside k ++ others) w.memory m) {b : β}
    (hb : Holder.value a' ((Holder.view a').bytes m) = b) :
    Becomes others w k (some b) (w.update k a' m) where
  sound := hm
  keeps := hk.mono (List.subset_append_right _ _)
  register_eq := by
    have hself : (w.update k a' m).register k = some b := by
      rw [register_of_some (Table.get?_set_self _ _ _), ← hb]
      rfl
    rw [← hself]
    exact register_eq_put (hk.mono (List.subset_append_left _ _))
      fun l hl => Table.get?_set_of_ne _ _ hl

theorem becomes_assign (hm : m.HeldBy (Holder.view a :: (w.held ++ others)))
    (hk : Keeps (w.held ++ others) w.memory m) {b : β}
    (hb : Holder.value a ((Holder.view a).bytes m) = b)
    (hdrop : ∀ a m, drop a m = (Holder.view a).drop m) :
    Becomes others w k (some b) (w.assign drop k a m) := by
  cases hold : w.slots.get? k with
  | none =>
    have heq : w.assign drop k a m = w.update k a m := by simp only [assign, hold, update]
    rw [heq]
    rw [← beside_of_none hold] at hm hk
    exact becomes_update hm hk hb
  | some old =>
    have heq : w.assign drop k a m = w.update k a ((Holder.view old).drop m) := by
      simp only [assign, hold, update, hdrop]
    -- what was there goes last
    have hm' : m.HeldBy (Holder.view old :: Holder.view a :: (w.beside k ++ others)) := by
      refine hm.perm ((List.Perm.cons _ ?_).trans (.swap _ _ _))
      exact (held_perm hold).append_right others
    obtain ⟨h, keep⟩ := View.held_drop hm'
    have hsub : w.beside k ++ others ⊆ w.held ++ others :=
      List.append_subset.2
        ⟨List.Subset.trans (beside_subset_held w k) (List.subset_append_left _ _),
          List.subset_append_right _ _⟩
    rw [heq]
    refine becomes_update h ((hk.mono hsub).trans keep.of_cons) ?_
    rw [keep.bytes_eq List.mem_cons_self]
    exact hb

theorem becomes_discard (h : w.Sound others)
    (hdrop : ∀ a m, drop a m = (Holder.view a).drop m) :
    Becomes others w k none (w.discard drop k) := by
  cases hold : w.slots.get? k with
  | none =>
    have heq : w.discard drop k = w := by
      simp only [discard, hold, Table.erase_of_get?_none hold]
    rw [heq, ← register_of_none hold]
    exact .refl h
  | some old =>
    have heq : w.discard drop k = ⟨(Holder.view old).drop w.memory, w.slots.erase k⟩ := by
      simp only [discard, hold, hdrop]
    obtain ⟨hh, keep⟩ := View.held_drop (h.hold hold)
    rw [heq]
    refine ⟨hh, keep.mono (List.subset_append_right _ _), ?_⟩
    have hself : (w.slots.erase k).get? k = none := Table.get?_erase_self _ _
    rw [← register_of_none (w := ⟨(Holder.view old).drop w.memory, w.slots.erase k⟩) hself]
    exact register_eq_put (keep.mono (List.subset_append_left _ _))
      fun l hl => Table.get?_erase_of_ne _ hl

/-- **Taking** a handle away without letting go of its view, which is one of the others then. -/
theorem becomes_take (h : w.Sound others) (hk : w.slots.get? k = some a) :
    (⟨w.memory, w.slots.erase k⟩ : Workspace α).Sound (Holder.view a :: others) ∧
      (⟨w.memory, w.slots.erase k⟩ : Workspace α).register = w.register.put k none := by
  refine ⟨HeldBy.perm (h.hold hk) List.perm_middle.symm, ?_⟩
  have hself : (w.slots.erase k).get? k = none := Table.get?_erase_self _ _
  rw [← register_of_none (w := ⟨w.memory, w.slots.erase k⟩) hself]
  exact register_eq_put (.refl _ _) fun l hl => Table.get?_erase_of_ne _ hl

/-! ### Outcomes -/

section Outcome

variable {ρ : Type} {E : ρ → Register β → Prop} {r : ρ}

theorem Outcome.imp {E' : ρ → Register β → Prop} {res : ρ × Workspace α}
    (ho : Outcome others w E res) (h : ∀ reply reg, E reply reg → E' reply reg) :
    Outcome others w E' res :=
  ⟨ho.sound, ho.keeps, h _ _ ho.effect⟩

theorem Becomes.outcome (hb : Becomes others w k b w') (he : E r (w.register.put k b)) :
    Outcome others w E (r, w') where
  sound := hb.sound
  keeps := hb.keeps
  effect := by
    rw [hb.register_eq]
    exact he

theorem Becomes.outcome_register (hb : Becomes others w k b w') :
    Outcome others w (fun (_ : Unit) reg => reg = w.register.put k b) ((), w') :=
  hb.outcome rfl

theorem Becomes.outcome_same (hb : Becomes others w k b w') (hk : w.register k = b)
    (he : E r w.register) : Outcome others w E (r, w') := by
  rw [← Register.put_eq_self hk] at he
  exact hb.outcome he

theorem Sound.outcome (h : w.Sound others) (he : E r w.register) : Outcome others w E (r, w) :=
  ⟨h, .refl others w.memory, he⟩

theorem outcome_of_keeps (hm : m.HeldBy (w.held ++ others))
    (hk : Keeps (w.held ++ others) w.memory m) (he : E r w.register) :
    Outcome others w E (r, { w with memory := m }) where
  sound := hm
  keeps := hk.mono (List.subset_append_right _ _)
  effect := by
    rw [register_of_keeps (hk.mono (List.subset_append_left _ _))]
    exact he

theorem Sound.outcome_miss {E : Reply → Register β → Prop} (h : w.Sound others)
    (he : E (.refused .outOfRange) w.register) : Outcome others w E w.miss :=
  outcome_of_keeps h.miss.1 h.miss.2 he

end Outcome

theorem withSlot_cases {P : Reply × Workspace α → Prop} {f : α → Reply × Workspace α}
    (hnone : w.slots.get? k = none → P (.refused .outOfRange, w))
    (hsome : ∀ a, w.slots.get? k = some a → P (f a)) : P (w.withSlot k f) := by
  unfold withSlot
  cases h : w.slots.get? k with
  | none => exact hnone h
  | some a => exact hsome a h

end Workspace

end Tandem
