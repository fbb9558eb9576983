import Tandem.Memory.Lease
import Mathlib.Algebra.Group.Action.Defs
import Mathlib.Algebra.Order.BigOperators.Group.List
import Mathlib.Algebra.Order.Ring.Nat
import Mathlib.Data.List.Pairwise

/-!
# How much memory a pool keeps

The settings promise a bound on the bytes that a pool keeps (`Settings.budget`): as many blocks of
each class as the class keeps, each as long as the class says.  No class keeps more blocks than
that, and blocks that came from the pool go back to a class of their own length (`Tidy`), except
those longer than all classes: they go to the class with the longest blocks.  So the bound holds as
long as no more is asked for than that class's blocks have (`Leases.retained_le`).  Beyond that, it
grows with what is asked for, and the bound holds for all runs only if that class keeps no blocks
(`Leases.retained_bounds`).
-/

namespace Tandem.Memory

namespace Settings

/-- The number of bytes that a pool is to keep at most. -/
def budget (s : Settings) : Nat := (s.classes.map fun c => c.maxBlocks * c.blockSize).sum

/-- The class with the longest blocks. -/
def largest (s : Settings) : SizeClass := s.classes.getLast?.getD ⟨0, 0⟩

theorem blockSize_le_budget {s : Settings} (hs : s.check = .ok ()) (hkeep : s.largest.maxBlocks ≠ 0)
    {k : SizeClass} (hk : k ∈ s.classes) : k.blockSize ≤ s.budget := by
  have hne := List.ne_nil_of_mem hk
  have hlargest : s.largest = s.classes.getLast hne := by
    rw [largest, List.getLast?_eq_some_getLast hne, Option.getD_some]
  have hsizes := (List.pairwise_cons.1 ((check_eq_ok_iff s).1 hs)).2
  calc k.blockSize
      ≤ (s.classes.map SizeClass.blockSize).getLast (by simpa using hne) :=
        (hsizes.imp Nat.le_of_lt).rel_getLast (List.mem_map_of_mem hk)
    _ = s.largest.blockSize := by rw [List.getLast_map, hlargest]
    _ ≤ s.largest.maxBlocks * s.largest.blockSize :=
        Nat.le_mul_of_pos_left _ (Nat.pos_of_ne_zero hkeep)
    _ ≤ s.budget := by
        refine List.le_sum_of_mem (List.mem_map.2 ⟨s.largest, ?_, rfl⟩)
        rw [hlargest]
        exact List.getLast_mem hne

end Settings

namespace ClassPool

/-- The class that a pool keeps blocks of. -/
def sizeClass (c : ClassPool) : SizeClass := ⟨c.blockSize, c.blocks.capacity⟩

/-- The number of bytes in the unused blocks of a class. -/
def retained (c : ClassPool) : Nat := (c.blocks.items.map Block.length).sum

end ClassPool

namespace BlockPool

variable {r n : Nat} {c : ClassPool} {cs : List ClassPool}

/-- The number of bytes in the unused blocks. -/
def retained (p : BlockPool) : Nat := (p.classes.map ClassPool.retained).sum

/-- Later classes have longer blocks. -/
def Increasing (cs : List ClassPool) : Prop := (cs.map ClassPool.blockSize).Pairwise (· < ·)

/-- The lengths of the blocks that are handed out while nobody asks for more than `r` bytes. -/
def Issued (r : Nat) (cs : List ClassPool) (n : Nat) : Prop :=
  (∃ c ∈ cs, n = c.blockSize) ∨ (∀ c ∈ cs, c.blockSize < n) ∧ n ≤ r

/-- Each class keeps no more blocks than it may, all of its own length; only the last one may keep
blocks that are longer, up to `r` bytes. -/
def Tidy (r : Nat) : List ClassPool → Prop
  | [] => True
  | c :: cs =>
    c.blocks.size ≤ c.blocks.capacity ∧
      (∀ b ∈ c.blocks.items,
        b.length = c.blockSize ∨ cs = [] ∧ c.blockSize < b.length ∧ b.length ≤ r) ∧
      Tidy r cs

theorem increasing_cons :
    Increasing (c :: cs) ↔ (∀ d ∈ cs, c.blockSize < d.blockSize) ∧ Increasing cs := by
  simp [Increasing]

theorem issued_iff : Issued r cs n ↔
    n ∈ cs.map ClassPool.blockSize ∨ (∀ k ∈ cs.map ClassPool.blockSize, k < n) ∧ n ≤ r := by
  rw [Issued, List.forall_mem_map, List.mem_map]
  simp only [eq_comm]

theorem map_blockSize_congr {ds : List ClassPool}
    (heq : ds.map ClassPool.sizeClass = cs.map ClassPool.sizeClass) :
    ds.map ClassPool.blockSize = cs.map ClassPool.blockSize := by
  have hb := congrArg (List.map SizeClass.blockSize) heq
  rwa [List.map_map, List.map_map] at hb

theorem Issued.cons (hn : Issued r cs n) (hc : c.blockSize < n) : Issued r (c :: cs) n := by
  rcases hn with ⟨d, hd, rfl⟩ | ⟨hlong, hr⟩
  · exact .inl ⟨d, List.mem_cons_of_mem c hd, rfl⟩
  · exact .inr ⟨List.forall_mem_cons.2 ⟨hc, hlong⟩, hr⟩

theorem Tidy.replace (h : Tidy r (c :: cs)) {blocks : Pool Block}
    (hcap : blocks.capacity = c.blocks.capacity) (hsize : blocks.size ≤ c.blocks.capacity)
    (hitems : ∀ b ∈ blocks.items, b ∈ c.blocks.items ∨ b.length = c.blockSize ∨
      cs = [] ∧ c.blockSize < b.length ∧ b.length ≤ r) :
    Tidy r ({ c with blocks } :: cs) := by
  obtain ⟨-, hlength, hcs⟩ := h
  refine ⟨hcap ▸ hsize, fun b hb => ?_, hcs⟩
  rcases hitems b hb with hold | hnew
  · exact hlength b hold
  · exact hnew

/-! ### Taking blocks -/

/-- The length of the block that a request of `min` bytes gets. -/
def Found.length (min : Nat) : Found → Nat
  | .reused b => b.length
  | .exhausted n => n
  | .tooLong => min

theorem find_tidy {min : Nat} (hr : min ≤ r) (hi : Increasing cs) (h : Tidy r cs) :
    min ≤ (find min cs).1.length min ∧ Issued r cs ((find min cs).1.length min) ∧
      Tidy r (find min cs).2 ∧
      (find min cs).2.map ClassPool.sizeClass = cs.map ClassPool.sizeClass := by
  induction cs with
  | nil => exact ⟨Nat.le_refl min, .inr ⟨by simp, hr⟩, trivial, rfl⟩
  | cons c cs ih =>
    rw [find]
    split
    · next hle =>
      cases hitems : c.blocks.items with
      | nil =>
        simp only [Pool.take, hitems, List.head?_nil]
        exact ⟨hle, .inl ⟨c, List.mem_cons_self, rfl⟩, h, trivial⟩
      | cons b bs =>
        simp only [Pool.take, hitems, List.head?_cons, List.tail_cons]
        have hsize := h.1
        have hb := h.2.1 b (hitems ▸ List.mem_cons_self)
        rw [Pool.size, hitems, List.length_cons] at hsize
        refine ⟨?_, ?_, h.replace rfl (Nat.le_of_succ_le hsize) fun d hd => .inl ?_, rfl⟩
        · simp only [Found.length]
          omega
        · rcases hb with heq | ⟨rfl, hlt, hlr⟩
          · exact .inl ⟨c, List.mem_cons_self, heq⟩
          · exact .inr ⟨List.forall_mem_singleton.2 hlt, hlr⟩
        · rw [hitems]
          exact List.mem_cons_of_mem b hd
    · next hlt =>
      obtain ⟨hlong, hissued, htidy, hclasses⟩ := ih (increasing_cons.1 hi).2 h.2.2
      have hc : c.blockSize < (find min cs).1.length min := by omega
      refine ⟨hlong, hissued.cons hc, ⟨h.1, fun b hb => ?_, htidy⟩, ?_⟩
      · have hnil : (find min cs).2 = [] ↔ cs = [] := by
          rw [← List.map_eq_nil_iff, hclasses, List.map_eq_nil_iff]
        rw [hnil]
        exact h.2.1 b hb
      · rw [List.map_cons, List.map_cons, hclasses]

/-! ### Taking blocks back -/

theorem offer_of_short {block : Block} (h : ∀ c ∈ cs, block.length < c.blockSize) :
    offer block cs = (none, cs) := by
  induction cs with
  | nil => rfl
  | cons c cs ih =>
    obtain ⟨hc, hcs⟩ := List.forall_mem_cons.1 h
    rw [offer, ih hcs]
    simp only [if_neg (Nat.not_le.2 hc)]

theorem offer_of_long {block : Block} (h : ∃ c ∈ cs, c.blockSize ≤ block.length) :
    ∃ kept, (offer block cs).1 = some kept := by
  induction cs with
  | nil => simp at h
  | cons c cs ih =>
    rw [offer]
    split
    · next kept ds heq => exact ⟨kept, rfl⟩
    · next ds heq =>
      have hno : ¬ ∃ d ∈ cs, d.blockSize ≤ block.length := fun hd => by
        obtain ⟨kept, hkept⟩ := ih hd
        rw [heq] at hkept
        cases hkept
      have hc : c.blockSize ≤ block.length := by
        obtain ⟨d, hd, hle⟩ := h
        rcases List.mem_cons.1 hd with rfl | hd
        · exact hle
        · exact absurd ⟨d, hd, hle⟩ hno
      rw [if_pos hc]
      exact ⟨_, rfl⟩

/-- **Taking back** a block that was handed out keeps the classes tidy. -/
theorem offer_tidy {block : Block} (hi : Increasing cs) (h : Tidy r cs)
    (hb : Issued r cs block.length) :
    Tidy r (offer block cs).2 ∧
      (offer block cs).2.map ClassPool.sizeClass = cs.map ClassPool.sizeClass := by
  induction cs with
  | nil => exact ⟨h, rfl⟩
  | cons c cs ih =>
    obtain ⟨hlater, hi'⟩ := increasing_cons.1 hi
    rw [offer]
    by_cases hd : ∃ d ∈ cs, d.blockSize ≤ block.length
    · -- the block goes to a later class
      obtain ⟨kept, hkept⟩ := offer_of_long hd
      have hissued : Issued r cs block.length := by
        rcases hb with ⟨d, hmem, heq⟩ | ⟨hlong, hr⟩
        · rcases List.mem_cons.1 hmem with rfl | hmem
          · obtain ⟨e, he, hle⟩ := hd
            exact absurd (hlater e he) (by omega)
          · exact .inl ⟨d, hmem, heq⟩
        · exact .inr ⟨fun d hd => hlong d (List.mem_cons_of_mem c hd), hr⟩
      obtain ⟨htidy, hclasses⟩ := ih hi' h.2.2 hissued
      have hnil : (offer block cs).2 = [] ↔ cs = [] := by
        rw [← List.map_eq_nil_iff, hclasses, List.map_eq_nil_iff]
      rw [show offer block cs = (some kept, (offer block cs).2) from Prod.ext hkept rfl]
      refine ⟨⟨h.1, fun b hb => ?_, htidy⟩, congrArg (c.sizeClass :: ·) hclasses⟩
      rw [hnil]
      exact h.2.1 b hb
    · -- the block goes to this class
      have hshort : ∀ d ∈ cs, block.length < d.blockSize := fun d hmem =>
        Nat.lt_of_not_le fun hle => hd ⟨d, hmem, hle⟩
      have hfits : block.length = c.blockSize ∨
          cs = [] ∧ c.blockSize < block.length ∧ block.length ≤ r := by
        rcases hb with ⟨d, hmem, heq⟩ | ⟨hlong, hr⟩
        · rcases List.mem_cons.1 hmem with rfl | hmem
          · exact .inl heq
          · exact absurd (hshort d hmem) (by omega)
        · refine .inr ⟨List.eq_nil_iff_forall_not_mem.2 fun d hmem => ?_,
            hlong c List.mem_cons_self, hr⟩
          exact absurd (hshort d hmem) (Nat.lt_asymm (hlong d (List.mem_cons_of_mem c hmem)))
      have hle : c.blockSize ≤ block.length := by omega
      rw [offer_of_short hshort]
      simp only [if_pos hle, Pool.put]
      split
      · next hlt =>
        refine ⟨h.replace rfl hlt fun b hb => ?_, rfl⟩
        rcases List.mem_cons.1 hb with rfl | hb
        · exact .inr hfits
        · exact .inl hb
      · exact ⟨h, rfl⟩

/-! ### The bytes that tidy classes keep -/

theorem retained_class_le {k : Nat} (hsize : c.blocks.size ≤ c.blocks.capacity)
    (hlength : ∀ b ∈ c.blocks.items, b.length ≤ k) : c.retained ≤ c.blocks.capacity * k := by
  have hsum := List.sum_le_card_nsmul (c.blocks.items.map Block.length) k (by simpa using hlength)
  rw [List.length_map, smul_eq_mul] at hsum
  exact hsum.trans (Nat.mul_le_mul_right k hsize)

/-- **Tidy classes** keep what their classes say, and in the last one up to `r` bytes a block. -/
theorem Tidy.sum_retained_le (h : Tidy r cs) :
    let s : Settings := ⟨cs.map ClassPool.sizeClass⟩
    (cs.map ClassPool.retained).sum ≤
      s.budget + s.largest.maxBlocks * (r - s.largest.blockSize) := by
  induction cs with
  | nil => simp
  | cons c cs ih =>
    obtain ⟨hsize, hlength, hcs⟩ := h
    cases cs with
    | nil =>
      have hle : ∀ b ∈ c.blocks.items, b.length ≤ c.blockSize + (r - c.blockSize) := fun b hb => by
        have := hlength b hb
        omega
      have hc := retained_class_le hsize hle
      rw [Nat.mul_add] at hc
      simpa [Settings.budget, Settings.largest, ClassPool.sizeClass] using hc
    | cons d ds =>
      have hle : ∀ b ∈ c.blocks.items, b.length ≤ c.blockSize := fun b hb => by
        rcases hlength b hb with heq | ⟨hnil, -⟩
        · exact Nat.le_of_eq heq
        · cases hnil
      have hc := retained_class_le hsize hle
      have hrest := ih hcs
      simp only [Settings.budget, Settings.largest, List.map_cons, List.sum_cons,
        List.getLast?_cons_cons, ClassPool.sizeClass] at hrest ⊢
      omega

/-! ### What pools do -/

theorem acquire_eq (p : BlockPool) (min : Nat) :
    (p.acquire min).1.length = (find min p.classes).1.length min ∧
      (p.acquire min).2.classes = (find min p.classes).2 := by
  unfold acquire
  split <;> next heq => rw [heq]; exact ⟨rfl, rfl⟩

theorem release_classes (p : BlockPool) (block : Block) :
    (p.release block).classes = (offer block p.classes).2 := by
  unfold release
  split <;> next heq => rw [heq]

/-- A request for more than the blocks of all classes have finds no class. -/
theorem find_of_long {min : Nat} (h : ∀ c ∈ cs, c.blockSize < min) :
    find min cs = (.tooLong, cs) := by
  induction cs with
  | nil => rfl
  | cons c cs ih =>
    obtain ⟨hc, hcs⟩ := List.forall_mem_cons.1 h
    rw [find, if_neg (Nat.not_le.2 hc), ih hcs]

theorem sum_retained_offer {block : Block} (hlong : ∀ c ∈ cs, c.blockSize ≤ block.length)
    (hnone : ∀ c ∈ cs, c.blocks.items = [])
    (hkeep : (Settings.largest ⟨cs.map ClassPool.sizeClass⟩).maxBlocks ≠ 0) :
    ((offer block cs).2.map ClassPool.retained).sum = block.length := by
  induction cs with
  | nil => exact absurd rfl hkeep
  | cons c cs ih =>
    obtain ⟨hc, hcs⟩ := List.forall_mem_cons.1 hlong
    obtain ⟨hitems, hnone⟩ := List.forall_mem_cons.1 hnone
    cases cs with
    | nil =>
      have hroom : 0 < c.blocks.capacity := Nat.pos_of_ne_zero hkeep
      simp [offer, if_pos hc, Pool.put, Pool.size, hitems, hroom, ClassPool.retained]
    | cons d ds =>
      obtain ⟨kept, hkept⟩ := offer_of_long ⟨d, List.mem_cons_self, hcs d List.mem_cons_self⟩
      have hrest := ih hcs hnone hkeep
      have hretained : c.retained = 0 := by simp [ClassPool.retained, hitems]
      rw [offer, show offer block (d :: ds) = (some kept, (offer block (d :: ds)).2) from
        Prod.ext hkept rfl]
      simp only [List.map_cons, List.sum_cons, hretained, Nat.zero_add]
      exact hrest

theorem tidy_empty (s : Settings) (r : Nat) : Tidy r (empty s).classes := by
  obtain ⟨ks⟩ := s
  induction ks with
  | nil => trivial
  | cons k ks ih => exact ⟨Nat.zero_le _, List.forall_mem_nil _, ih⟩

theorem eq_empty_of_make {s : Settings} {p : BlockPool} (h : make s = .ok p) : p = empty s := by
  unfold make allot at h
  split at h
  · exact (Except.ok.inj h).symm
  · cases h

theorem sizeClasses_empty (s : Settings) :
    (empty s).classes.map ClassPool.sizeClass = s.classes := by
  simp [empty, Pool.empty, ClassPool.sizeClass, Function.comp_def]

theorem increasing_empty {s : Settings} (hs : s.check = .ok ()) : Increasing (empty s).classes := by
  have hsizes : (empty s).classes.map ClassPool.blockSize = s.classes.map SizeClass.blockSize := by
    simp [empty, Function.comp_def]
  rw [Increasing, hsizes]
  exact (List.pairwise_cons.1 ((Settings.check_eq_ok_iff s).1 hs)).2

end BlockPool

/-! ### Runs -/

namespace LeaseOp

/-- How many bytes an operation asks for. -/
def demand : LeaseOp → Nat
  | acquire _ min => min
  | _ => 0

/-- Whether an operation gives back a block that did not come from the pool. -/
def isDonation : LeaseOp → Bool
  | donate _ => true
  | _ => false

/-- How many bytes are asked for at most. -/
def longest : List LeaseOp → Nat
  | [] => 0
  | op :: ops => max op.demand (longest ops)

theorem demand_le_longest {op : LeaseOp} {ops : List LeaseOp} (h : op ∈ ops) :
    op.demand ≤ longest ops := by
  induction ops with
  | nil => cases h
  | cons op' ops ih =>
    rcases List.mem_cons.1 h with rfl | h
    · exact Nat.le_max_left _ _
    · exact (ih h).trans (Nat.le_max_right _ _)

end LeaseOp

namespace Leases

open BlockPool

variable {s : Settings} {p : BlockPool} {l l' : Leases} {r : Nat} {op : LeaseOp}
  {ops : List LeaseOp} {taken : Option Block}

/-- `l` is what operations on a new pool lead to, all of them on blocks that came from it. -/
def Reaches (p : BlockPool) (ops : List LeaseOp) (l : Leases) : Prop :=
  (∀ op ∈ ops, op.isDonation = false) ∧
    ∃ outs, (ofPool p).performAll ops = .ok outs ∧ ∃ taken, (taken, l) ∈ outs

/-- Pool and taken blocks as they are while nobody asks for more than `r` bytes. -/
structure InOrder (s : Settings) (r : Nat) (l : Leases) : Prop where
  sizeClasses : l.pool.classes.map ClassPool.sizeClass = s.classes
  increasing : Increasing l.pool.classes
  tidy : Tidy r l.pool.classes
  issued : ∀ name b, l.blocks.get? name = some b → Issued r l.pool.classes b.length

theorem inOrder_ofPool (hs : s.check = .ok ()) (hm : BlockPool.make s = .ok p) (r : Nat) :
    InOrder s r (ofPool p) := by
  obtain rfl := eq_empty_of_make hm
  exact ⟨sizeClasses_empty s, increasing_empty hs, tidy_empty s r, by simp [ofPool]⟩

theorem block_eq_ok {name : String} {b : Block} (h : l.block name = .ok b) :
    l.blocks.get? name = some b := by
  unfold Leases.block at h
  split at h
  · cases h
  · next heq =>
    cases h
    exact heq

theorem bind_eq_ok {α β : Type} {x : Except Misuse α} {f : α → Except Misuse β} {b : β}
    (h : x >>= f = .ok b) : ∃ a, x = .ok a ∧ f a = .ok b := by
  cases x with
  | error e => cases h
  | ok a => exact ⟨a, rfl, h⟩

theorem InOrder.update (h : InOrder s r l) {pool : BlockPool} {blocks : Table String Block}
    (hclasses : pool.classes.map ClassPool.sizeClass = l.pool.classes.map ClassPool.sizeClass)
    (htidy : Tidy r pool.classes)
    (hblocks : ∀ name b, blocks.get? name = some b → Issued r l.pool.classes b.length) :
    InOrder s r ⟨pool, blocks⟩ := by
  have hsizes := map_blockSize_congr hclasses
  refine ⟨hclasses.trans h.sizeClasses, ?_, htidy, fun name b hb => ?_⟩
  · rw [Increasing, hsizes]
    exact h.increasing
  · rw [issued_iff, hsizes, ← issued_iff]
    exact hblocks name b hb

theorem InOrder.perform (h : InOrder s r l) (hop : op.isDonation = false) (hr : op.demand ≤ r)
    (hp : l.perform op = .ok (taken, l')) : InOrder s r l' := by
  cases op with
  | acquire name min =>
    change min ≤ r at hr
    simp only [Leases.perform] at hp
    split at hp
    · cases hp
      obtain ⟨hlength, hclasses⟩ := acquire_eq l.pool min
      obtain ⟨-, hissued, htidy, hsame⟩ := find_tidy hr h.increasing h.tidy
      refine h.update (by rw [hclasses, hsame]) (by rwa [hclasses]) fun k b hb => ?_
      rw [Table.get?_set] at hb
      split at hb
      · cases hb
        rwa [hlength]
      · exact h.issued k b hb
    · cases hp
  | mark name byte =>
    obtain ⟨b, hb, hp⟩ := bind_eq_ok hp
    have hissued := h.issued name b (block_eq_ok hb)
    split at hp
    · cases hp
    · cases hp
      refine h.update rfl h.tidy fun k d hd => ?_
      rw [Table.get?_set] at hd
      split at hd
      · cases hd
        rwa [Block.length_overwrite]
      · exact h.issued k d hd
  | release name =>
    obtain ⟨b, hb, hp⟩ := bind_eq_ok hp
    obtain ⟨htidy, hsame⟩ := offer_tidy h.increasing h.tidy (h.issued name b (block_eq_ok hb))
    cases hp
    rw [← release_classes] at htidy hsame
    refine h.update hsame htidy fun k d hd => ?_
    rw [Table.get?_erase] at hd
    split at hd
    · cases hd
    · exact h.issued k d hd
  | donate length => cases hop

/-- **A run** of operations leads through states in order. -/
theorem InOrder.performAll (h : InOrder s r l) {outs : List (Option Block × Leases)}
    (hops : ∀ op ∈ ops, op.isDonation = false ∧ op.demand ≤ r)
    (hp : l.performAll ops = .ok outs) : ∀ out ∈ outs, InOrder s r out.2 := by
  induction ops generalizing l outs with
  | nil =>
    cases hp
    simp
  | cons op ops ih =>
    obtain ⟨hop, hops⟩ := List.forall_mem_cons.1 hops
    obtain ⟨⟨taken, l'⟩, hperform, hp⟩ := bind_eq_ok hp
    obtain ⟨later, hlater, hp⟩ := bind_eq_ok hp
    cases hp
    have h' := h.perform hop.1 hop.2 hperform
    exact List.forall_mem_cons.2 ⟨h', ih h' hops hlater⟩

/-- **What a run keeps** is bounded by the settings and the longest request. -/
theorem retained_le (hs : s.check = .ok ()) (hm : BlockPool.make s = .ok p)
    (h : Reaches p ops l) :
    l.pool.retained ≤
      s.budget + s.largest.maxBlocks * (LeaseOp.longest ops - s.largest.blockSize) := by
  obtain ⟨hown, outs, hp, taken, hmem⟩ := h
  have hl := (inOrder_ofPool hs hm (LeaseOp.longest ops)).performAll
    (fun op hop => ⟨hown op hop, LeaseOp.demand_le_longest hop⟩) hp _ hmem
  have hle := hl.tidy.sum_retained_le
  rwa [hl.sizeClasses] at hle

/-- **A block longer than the whole budget** is kept if the class with the longest blocks keeps
any. -/
theorem reaches_beyond_budget {n : Nat} (hs : s.check = .ok ()) (hm : BlockPool.make s = .ok p)
    (hkeep : s.largest.maxBlocks ≠ 0) (hb : s.budget < n) (hn : n ≤ maxLength) (name : String) :
    ∃ l, Reaches p [.acquire name n, .release name] l ∧ l.pool.retained = n := by
  obtain rfl := eq_empty_of_make hm
  have hlong : ∀ c ∈ (empty s).classes, c.blockSize < n := by
    simp only [empty, List.forall_mem_map]
    exact fun k hk => Nat.lt_of_le_of_lt (Settings.blockSize_le_budget hs hkeep hk) hb
  let stats : PoolStats := ⟨1, 1, 0, 0⟩
  have hacquire : (empty s).acquire n = (.zeros n, ⟨(empty s).classes, stats⟩) := by
    unfold acquire
    rw [find_of_long hlong]
    rfl
  have hcan : (empty s).canAcquire n = true := by
    rw [canAcquire, hacquire]
    exact decide_eq_true hn
  let taken : Leases := ⟨⟨(empty s).classes, stats⟩, Table.empty.set name (.zeros n)⟩
  have htake : (ofPool (empty s)).perform (.acquire name n) = .ok (some (.zeros n), taken) := by
    simp only [Leases.perform, ofPool, hcan, hacquire, if_true]
    rfl
  let kept : Leases := ⟨taken.pool.release (.zeros n), taken.blocks.erase name⟩
  have hgive : taken.perform (.release name) = .ok (none, kept) := by
    simp only [Leases.perform, Leases.block, taken, Table.get?_set_self]
    rfl
  refine ⟨kept, ⟨by simp [LeaseOp.isDonation], [(some (.zeros n), taken), (none, kept)], ?_, none,
    by simp⟩, ?_⟩
  · simp only [Leases.performAll, bind, Except.bind, htake, hgive]
  · have hlargest : s.largest = Settings.largest ⟨(empty s).classes.map ClassPool.sizeClass⟩ := by
      rw [sizeClasses_empty]
    have hnone : ∀ c ∈ (empty s).classes, c.blocks.items = [] := by simp [empty, Pool.empty]
    rw [BlockPool.retained, release_classes]
    rw [hlargest] at hkeep
    exact sum_retained_offer (fun c hc => Nat.le_of_lt (hlong c hc)) hnone hkeep

/-- **What pools keep.**  A pool whose blocks come back to it keeps no more than its settings
promise, plus what is asked for beyond the longest class, in each place of that class.  So it may
keep more than promised, unless that class has no places. -/
theorem retained_bounds (hs : s.check = .ok ()) (hm : BlockPool.make s = .ok p) :
    (∀ ops l, Reaches p ops l → l.pool.retained ≤
      s.budget + s.largest.maxBlocks * (LeaseOp.longest ops - s.largest.blockSize)) ∧
    (s.budget < maxLength →
      ((∀ ops l, Reaches p ops l → l.pool.retained ≤ s.budget) ↔ s.largest.maxBlocks = 0)) := by
  refine ⟨fun ops l h => retained_le hs hm h, fun hb => ⟨fun hall => ?_, fun hnone ops l h => ?_⟩⟩
  · by_contra hkeep
    obtain ⟨l, hl, hretained⟩ :=
      reaches_beyond_budget hs hm hkeep (Nat.lt_succ_self _) hb "block"
    have hle := hall _ l hl
    omega
  · have hle := retained_le hs hm h
    rwa [hnone, Nat.zero_mul, Nat.add_zero] at hle

/-- With the standard settings, a block of 256 bytes that came back is within what they promise. -/
theorem retained_bounds_server : Settings.server.check = .ok () ∧
    BlockPool.make .server = .ok (.empty .server) ∧
    ∃ l, Reaches (.empty .server) [.acquire "a" 200, .mark "a" 7, .release "a"] l ∧
      l.pool.retained = 256 ∧ l.pool.retained ≤ Settings.server.budget := by
  have hreaches : ∃ l, Reaches (.empty .server) [.acquire "a" 200, .mark "a" 7, .release "a"] l ∧
      l.pool.retained = 256 :=
    ⟨_, ⟨by decide, _, rfl, _, List.mem_cons_of_mem _ (List.mem_cons_of_mem _
      List.mem_cons_self)⟩, by decide +kernel⟩
  obtain ⟨l, hl, hretained⟩ := hreaches
  have hle := (retained_bounds (s := .server) rfl rfl).1 _ l hl
  exact ⟨rfl, rfl, l, hl, hretained, Nat.le_trans hle (by decide)⟩

/-- With the standard settings, one block of 30000 bytes that came back is more than they
promise. -/
theorem not_retained_le_budget : ¬ ∀ (s : Settings) (p : BlockPool), s.check = .ok () →
    BlockPool.make s = .ok p → ∀ ops l, Reaches p ops l → l.pool.retained ≤ s.budget := by
  intro h
  obtain ⟨l, hl, hretained⟩ := reaches_beyond_budget (s := .server) (n := 30000) rfl rfl
    (by decide) (by decide) (by decide) "a"
  have hle := h .server _ rfl rfl _ l hl
  rw [hretained] at hle
  exact absurd hle (by decide)

end Leases

end Tandem.Memory
