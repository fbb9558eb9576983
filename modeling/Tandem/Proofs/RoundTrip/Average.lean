import Tandem.RoundTrip.Average
import Mathlib.Algebra.Order.BigOperators.Group.List
import Mathlib.Algebra.Order.Field.Rat
import Mathlib.Data.List.DropRight
import Mathlib.Data.List.GetD
import Mathlib.Tactic.Linarith
import Mathlib.Tactic.NormNum
import Mathlib.Tactic.SplitIfs

/-!
# The mean of the last samples

Whatever numbers the samples are, a mean keeps the last of them, as many as its capacity, also where
the list that has grown becomes a ring and wherever the ring begins (`RollingMean.Holds.add`).  With
exact numbers, the sum that is kept up to date sample by sample is the sum of those
(`RollingMean.Averages.foldl`).  No time that has passed is negative, so that the guard against a
mean below zero has nothing to do.
-/

namespace Tandem

variable {α : Type}

namespace Samples

/-- The samples kept, oldest first. -/
def inOrder : Samples α → List α
  | growing xs => xs
  | ring xs next => xs.drop next ++ xs.take next

/-- There is room for the next sample: behind the others, or at a position within the ring. -/
def Fits (capacity : Nat) : Samples α → Prop
  | growing xs => xs.length < capacity
  | ring xs next => xs.length = capacity ∧ next < xs.length

variable {xs : List α} {next : Nat}

theorem inOrder_ring (h : next < xs.length) :
    (ring xs next).inOrder = xs[next] :: (xs.drop (next + 1) ++ xs.take next) := by
  rw [inOrder, List.drop_eq_getElem_cons h, List.cons_append]

/-- **In a ring**, the new sample takes the place of the oldest one and is the youngest then. -/
theorem inOrder_replace (h : next < xs.length) (x : α) :
    (ring (xs.set next x) ((next + 1) % xs.length)).inOrder =
      xs.drop (next + 1) ++ xs.take next ++ [x] := by
  have hset : xs.set next x = xs.take next ++ x :: xs.drop (next + 1) :=
    List.set_eq_take_append_cons_drop.trans (if_pos h)
  have hlen : (xs.take next ++ [x]).length = next + 1 := by
    rw [List.length_append, List.length_take_of_le h.le, List.length_singleton]
  have hsplit : xs.set next x = (xs.take next ++ [x]) ++ xs.drop (next + 1) := by
    rw [hset, List.append_assoc, List.singleton_append]
  rcases Nat.lt_or_ge (next + 1) xs.length with hlt | hge
  · rw [inOrder, Nat.mod_eq_of_lt hlt, hsplit, List.drop_left' hlen, List.take_left' hlen,
      List.append_assoc]
  · -- the position wraps around: the ring begins with its first sample again
    obtain hend : next + 1 = xs.length := Nat.le_antisymm h hge
    rw [inOrder, hend, Nat.mod_self, List.drop_zero, List.take_zero, List.append_nil, hsplit, hend,
      List.drop_length, List.append_nil, List.nil_append]

end Samples

/-! ### The last elements of a list -/

theorem rtake_of_length_le {xs : List α} {n : Nat} (h : xs.length ≤ n) : xs.rtake n = xs := by
  rw [List.rtake, Nat.sub_eq_zero_of_le h, List.drop_zero]

theorem rtake_cons_length (x : α) (xs : List α) : (x :: xs).rtake xs.length = xs := by
  rw [List.rtake, List.length_cons, Nat.add_sub_cancel_left, List.drop_one, List.tail_cons]

theorem rtake_concat (xs : List α) (x : α) (n : Nat) :
    (xs ++ [x]).rtake n = (xs.rtake n ++ [x]).rtake n := by
  simp only [List.rtake, List.length_append, List.length_drop, List.length_singleton]
  rw [← List.drop_append_of_le_length (Nat.sub_le xs.length n), List.drop_drop]
  congr 1
  omega

namespace RollingMean

variable [SampleNumber α] {r : RollingMean α} {xs : List α}

/-- The samples kept are the last of `xs`, in a place where there is room for the next one. -/
structure Holds (r : RollingMean α) (capacity : Nat) (xs : List α) : Prop where
  capacity_eq : r.capacity = capacity
  fits : r.samples.Fits capacity
  inOrder_eq : r.samples.inOrder = xs.rtake capacity

theorem holds_empty {capacity : Nat} (h : 0 < capacity) :
    Holds (empty capacity : RollingMean α) capacity [] where
  capacity_eq := rfl
  fits := h
  inOrder_eq := (List.rtake_nil capacity).symm

variable {capacity : Nat}

/-- **Taking in a sample**, a mean keeps the last ones. -/
theorem Holds.add (h : r.Holds capacity xs) (x : α) : (r.add x).Holds capacity (xs ++ [x]) := by
  obtain ⟨c, samples, sum⟩ := r
  obtain ⟨rfl, hfits, hinOrder⟩ := h
  cases samples with
  | growing ys =>
    have hroom : (ys ++ [x]).length ≤ c := by
      rw [List.length_append, List.length_singleton]
      exact hfits
    have hlast : ys ++ [x] = (xs ++ [x]).rtake c := by
      rw [rtake_concat, ← hinOrder]
      exact (rtake_of_length_le hroom).symm
    simp only [RollingMean.add]
    split_ifs with hfull
    · refine ⟨rfl, ⟨hfull, ?_⟩, ?_⟩
      · rw [List.length_append, List.length_singleton]
        exact Nat.succ_pos _
      · rw [Samples.inOrder, List.drop_zero, List.take_zero, List.append_nil, hlast]
    · exact ⟨rfl, Nat.lt_of_le_of_ne hroom hfull, hlast⟩
  | ring ys next =>
    obtain ⟨hlen, hnext⟩ := hfits
    refine ⟨rfl, ⟨?_, ?_⟩, ?_⟩
    · rw [List.length_set, hlen]
    · rw [List.length_set, hlen]
      exact Nat.mod_lt _ (by omega)
    · obtain rfl : ys.length = c := hlen
      have hrest : (ys.drop (next + 1) ++ ys.take next ++ [x]).length = ys.length := by
        simp only [List.length_append, List.length_drop, List.length_take, List.length_singleton]
        omega
      have hlast := rtake_cons_length ys[next] (ys.drop (next + 1) ++ ys.take next ++ [x])
      rw [hrest, ← List.cons_append, ← Samples.inOrder_ring hnext] at hlast
      rw [rtake_concat, ← hinOrder]
      exact (Samples.inOrder_replace hnext x).trans hlast.symm

/-! ### Exact numbers -/

/-- Exact numbers as samples. -/
instance : SampleNumber ℚ where
  zero := 0
  add := (· + ·)
  sub := (· - ·)
  share x n := x / n
  atLeastZero x := max x 0

/-- A mean with exact numbers that has taken in the samples `xs`. -/
structure Averages (r : RollingMean ℚ) (capacity : Nat) (xs : List ℚ) : Prop extends
    Holds r capacity xs where
  sum_eq : r.sum = (xs.rtake capacity).sum

theorem averages_empty (h : 0 < capacity) : Averages (empty capacity) capacity [] where
  toHolds := holds_empty h
  sum_eq := by rw [List.rtake_nil]; rfl

/-- **The sum** that is kept up to date is that of the samples kept. -/
theorem Averages.add {r : RollingMean ℚ} {xs : List ℚ} (h : r.Averages capacity xs) (x : ℚ) :
    (r.add x).Averages capacity (xs ++ [x]) := by
  refine ⟨h.toHolds.add x, ?_⟩
  have hkept := (h.toHolds.add x).inOrder_eq
  obtain ⟨c, samples, sum⟩ := r
  obtain ⟨⟨rfl, hfits, hinOrder⟩, hsum⟩ := h
  rw [← hkept]
  rw [← hinOrder] at hsum
  cases samples with
  | growing ys =>
    have hinOrder' : (RollingMean.add ⟨c, .growing ys, sum⟩ x).samples.inOrder = ys ++ [x] := by
      simp only [RollingMean.add]
      split_ifs
      · rw [Samples.inOrder, List.drop_zero, List.take_zero, List.append_nil]
      · rfl
    rw [hinOrder', List.sum_append, List.sum_singleton]
    exact congrArg (· + x) hsum
  | ring ys next =>
    obtain ⟨hlen, hnext⟩ := hfits
    obtain rfl : ys.length = c := hlen
    rw [Samples.inOrder_ring hnext, List.sum_cons] at hsum
    have hinOrder' := Samples.inOrder_replace hnext x
    have hsum' : (RollingMean.add ⟨ys.length, .ring ys next, sum⟩ x).sum = sum - ys[next] + x := by
      rw [← ys.getD_eq_getElem 0 hnext]
      rfl
    rw [hsum', show (RollingMean.add ⟨ys.length, .ring ys next, sum⟩ x).samples.inOrder = _ from
      hinOrder', List.sum_append, List.sum_singleton]
    have hsum : sum = ys[next] + (ys.drop (next + 1) ++ ys.take next).sum := hsum
    linarith

theorem Averages.foldl {r : RollingMean ℚ} {xs : List ℚ} (h : r.Averages capacity xs)
    (ys : List ℚ) : (ys.foldl RollingMean.add r).Averages capacity (xs ++ ys) := by
  induction ys generalizing r xs with
  | nil => rwa [List.append_nil]
  | cons y ys ih =>
    rw [List.foldl_cons, List.append_cons]
    exact ih (h.add y)

omit [SampleNumber α] in
theorem size_eq (r : RollingMean α) (h : r.samples.Fits capacity) :
    r.size = r.samples.inOrder.length := by
  obtain ⟨c, samples, sum⟩ := r
  cases samples with
  | growing ys => rfl
  | ring ys next =>
    have hnext : next < ys.length := h.2
    simp only [size, Samples.inOrder, List.length_append, List.length_drop, List.length_take]
    omega

theorem Averages.size_eq {r : RollingMean ℚ} {xs : List ℚ} (h : r.Averages capacity xs) :
    r.size = min xs.length capacity := by
  rw [RollingMean.size_eq r h.fits, h.inOrder_eq, List.rtake, List.length_drop]
  omega

/-- **The mean is that of the last samples.**  Whatever samples a mean has taken in, it keeps the
last of them, as many as its capacity, with room for the next one within its list, and their sum.
There is a mean as soon as there is a sample; what would be below zero is zero, and samples that are
not below zero have exactly their mean. -/
theorem mean_of_last (hcapacity : 0 < capacity) (xs : List ℚ) :
    let r := xs.foldl RollingMean.add (empty capacity)
    let mean := (xs.rtake capacity).sum / (min xs.length capacity : Nat)
    r.sum = (xs.rtake capacity).sum ∧
      r.samples.inOrder = xs.rtake capacity ∧ r.samples.Fits capacity ∧
      r.size = min xs.length capacity ∧ r.size ≤ capacity ∧
      (r.mean? = none ↔ xs = []) ∧
      (xs ≠ [] → r.mean? = some (max mean 0)) ∧
      (xs ≠ [] → (∀ x ∈ xs, 0 ≤ x) → r.mean? = some mean ∧ 0 ≤ mean) := by
  intro r mean
  have h : r.Averages capacity xs := by
    have hempty := averages_empty hcapacity
    exact hempty.foldl xs
  have hsize : r.size = 0 ↔ xs = [] := by
    rw [h.size_eq, ← List.length_eq_zero_iff]
    omega
  have hmean : xs ≠ [] → r.mean? = some (max mean 0) := fun hxs => by
    rw [mean?, if_neg (mt hsize.1 hxs), h.sum_eq, h.size_eq]
    rfl
  refine ⟨h.sum_eq, h.inOrder_eq, h.fits, h.size_eq, h.size_eq ▸ Nat.min_le_right _ _, ?_, hmean,
    fun hxs hnonneg => ?_⟩
  · by_cases hxs : xs = []
    · exact iff_of_true (if_pos (hsize.2 hxs)) hxs
    · exact iff_of_false (by rw [hmean hxs]; exact Option.some_ne_none _) hxs
  · have hsum : 0 ≤ (xs.rtake capacity).sum :=
      List.sum_nonneg fun x hx => hnonneg x (List.mem_of_mem_drop hx)
    have hmean' : 0 ≤ mean := div_nonneg hsum (Nat.cast_nonneg _)
    exact ⟨by rw [hmean hxs, max_eq_left hmean'], hmean'⟩

/-- Of five samples, a mean of three averages the last three, around the end of its ring. -/
theorem mean_of_last_three : 0 < 3 ∧
    ([10, 20, 30, 100, 5].foldl RollingMean.add (empty 3)).mean? = some (45 : ℚ) := by
  have hxs : ([10, 20, 30, 100, 5] : List ℚ) ≠ [] := List.cons_ne_nil _ _
  have hnonneg : ∀ x ∈ ([10, 20, 30, 100, 5] : List ℚ), 0 ≤ x := by
    simp only [List.forall_mem_cons, List.not_mem_nil]
    norm_num
  obtain ⟨-, -, -, -, -, -, -, hmean⟩ := mean_of_last (show 0 < 3 by decide) [10, 20, 30, 100, 5]
  refine ⟨by decide, (hmean hxs hnonneg).1.trans ?_⟩
  simp only [List.rtake, List.length_cons, List.length_nil, List.drop_succ_cons, List.drop_zero,
    List.sum_cons, List.sum_nil]
  norm_num

end RollingMean

end Tandem
