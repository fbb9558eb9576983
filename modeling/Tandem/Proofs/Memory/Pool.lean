import Tandem.Memory.Pool
import Mathlib.Tactic.SplitIfs

/-!
# Blocks from a pool are long enough

A pool looks for a block upwards from the shortest class that fits and takes blocks back into the
longest class that they reach, so a block of another length than its class's may lie in a class,
but never a shorter one (`BlockPool.Sound`).  Soundness is kept whatever blocks come back, and it
is what makes every block that is handed out long enough (`BlockPool.le_length_acquire`).
-/

namespace Tandem.Memory

namespace BlockPool

/-- No unused block is shorter than the blocks of its class. -/
def SoundClasses (cs : List ClassPool) : Prop :=
  ∀ c ∈ cs, ∀ b ∈ c.blocks.items, c.blockSize ≤ b.length

/-- A pool whose unused blocks are as long as their classes say. -/
def Sound (p : BlockPool) : Prop := SoundClasses p.classes

theorem sound_empty (s : Settings) : (empty s).Sound := by
  intro c hc b hb
  simp only [empty, List.mem_map] at hc
  obtain ⟨k, -, rfl⟩ := hc
  simp [Pool.empty] at hb

theorem SoundClasses.of_cons {c : ClassPool} {cs : List ClassPool} (h : SoundClasses (c :: cs)) :
    (∀ b ∈ c.blocks.items, c.blockSize ≤ b.length) ∧ SoundClasses cs :=
  ⟨h c List.mem_cons_self, fun d hd => h d (List.mem_cons_of_mem c hd)⟩

theorem SoundClasses.cons {c : ClassPool} {cs : List ClassPool}
    (hc : ∀ b ∈ c.blocks.items, c.blockSize ≤ b.length) (h : SoundClasses cs) :
    SoundClasses (c :: cs) := by
  intro d hd
  rcases List.mem_cons.1 hd with rfl | hd
  · exact hc
  · exact h d hd

/-! ### Taking blocks -/

/-- What `find` finds for a request of `min` bytes is long enough. -/
def Found.Suits (min : Nat) : Found → Prop
  | .reused b => min ≤ b.length
  | .exhausted n => min ≤ n
  | .tooLong => True

theorem find_sound (min : Nat) {cs : List ClassPool} (h : SoundClasses cs) :
    (find min cs).1.Suits min ∧ SoundClasses (find min cs).2 := by
  induction cs with
  | nil => exact ⟨trivial, h⟩
  | cons c cs ih =>
    obtain ⟨hc, hcs⟩ := h.of_cons
    obtain ⟨ih₁, ih₂⟩ := ih hcs
    rw [find]
    split
    · next hle =>
      cases hi : c.blocks.items with
      | nil => simpa [Pool.take, hi, Found.Suits] using ⟨hle, h⟩
      | cons b bs =>
        rw [hi] at hc
        simp only [Pool.take, hi, List.head?_cons, List.tail_cons]
        exact ⟨Nat.le_trans hle (hc b List.mem_cons_self),
          .cons (fun d hd => hc d (List.mem_cons_of_mem b hd)) hcs⟩
    · exact ⟨ih₁, .cons hc ih₂⟩

/-- **Taking** a block from a sound pool gives one that is long enough and keeps the pool sound. -/
theorem acquire_sound {p : BlockPool} (h : p.Sound) (min : Nat) :
    min ≤ (p.acquire min).1.length ∧ (p.acquire min).2.Sound := by
  obtain ⟨hf, hs⟩ := find_sound min h
  unfold acquire
  split
  · next b cs heq => rw [heq] at hf hs; exact ⟨hf, hs⟩
  · next n cs heq => rw [heq] at hf hs; exact ⟨hf, hs⟩
  · next cs heq => rw [heq] at hs; exact ⟨Nat.le_refl min, hs⟩

theorem le_length_acquire {p : BlockPool} (h : p.Sound) (min : Nat) :
    min ≤ (p.acquire min).1.length := (acquire_sound h min).1

theorem sound_acquire {p : BlockPool} (h : p.Sound) (min : Nat) : (p.acquire min).2.Sound :=
  (acquire_sound h min).2

/-! ### Taking blocks back -/

theorem offer_sound (block : Block) {cs : List ClassPool} (h : SoundClasses cs) :
    SoundClasses (offer block cs).2 := by
  induction cs with
  | nil => exact h
  | cons c cs ih =>
    obtain ⟨hc, hcs⟩ := h.of_cons
    rw [offer]
    split
    · next kept ds heq => rw [heq] at ih; exact .cons hc (ih hcs)
    · next ds heq =>
      rw [heq] at ih
      split_ifs with hle
      · refine .cons (fun b hb => ?_) (ih hcs)
        simp only [Pool.put] at hb
        split at hb
        · rcases List.mem_cons.1 hb with rfl | hb
          · exact hle
          · exact hc b hb
        · exact hc b hb
      · exact .cons hc (ih hcs)

/-- **Taking back** a block of any length keeps a pool sound. -/
theorem sound_release {p : BlockPool} (h : p.Sound) (block : Block) :
    (p.release block).Sound := by
  have ho := offer_sound block h
  unfold release
  split
  · next classes heq => rw [heq] at ho; exact ho
  · next found classes heq => rw [heq] at ho; exact ho

end BlockPool

end Tandem.Memory
