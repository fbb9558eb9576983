import Tandem.Kind
import Tandem.Serializable
import Tandem.Proofs.Scalar
import Mathlib.Tactic.SplitIfs

/-!
# Reads that fail

A read `Rewinds` if it takes nothing when it fails, and it is `Honest` if it complains of missing
bytes only where bytes are missing.  Doing one read after the other keeps honesty, but a read that
fails after another one has taken something does not rewind by itself: it has to be `atomic`, or
what it takes must have been announced by a count (`Read.rewinds_count_bind`).  All reads of values
are honest and rewind (`Kind.honest_read`, `Kind.rewinds_read`).
-/

namespace Tandem

/-- An error that complains of missing bytes says that more were needed than were there. -/
def ReadError.Honest : ReadError → Prop
  | endOfData expected remaining => remaining < expected
  | _ => True

namespace Read

variable {α β : Type} {r : Read α} {f : α → Read β} {c c' : Cursor} {a : α} {e : ReadError}
  {n : Nat}
  {size : Nat → Nat}

/-- A failure takes nothing. -/
def Rewinds (r : Read α) : Prop := ∀ c e c', r.run c = (.error e, c') → c'.rest = c.rest

/-- A failure is a true complaint. -/
def Honest (r : Read α) : Prop := ∀ c e c', r.run c = (.error e, c') → e.Honest

theorem run_bind_of_ok (h : r.run c = (.ok a, c')) : (r >>= f).run c = (f a).run c' := by
  show (andThen r f).run c = _
  simp only [andThen, h]

theorem run_bind_of_error (h : r.run c = (.error e, c')) :
    (r >>= f).run c = (.error e, c') := by
  show (andThen r f).run c = _
  simp only [andThen, h]

theorem run_atomic_of_ok (h : r.run c = (.ok a, c')) : (atomic r).run c = (.ok a, c') := by
  simp only [atomic, h]

theorem run_atomic_of_error (h : r.run c = (.error e, c')) :
    (atomic r).run c = (.error e, { c' with rest := c.rest }) := by
  simp only [atomic, h]

theorem run_take_of_le (h : n ≤ c.rest.length) :
    (take n).run c = (.ok (c.rest.take n), { c with rest := c.rest.drop n }) :=
  if_neg fun hl => Nat.not_lt.2 h (Bytes.lacks_iff.1 hl)

theorem run_take_of_lt (h : c.rest.length < n) :
    (take n).run c = (.error (.endOfData n c.rest.length), c) :=
  if_pos (Bytes.lacks_iff.2 h)

/-! ### Counts -/

theorem count_of_toInt {bs : Bytes} (h4 : bs.length = 4)
    (hpos : ¬ (Scalar.decode .i32 bs).toInt < 0) :
    Kind.count (Scalar.decode .i32 bs).toInt.toNat = bs := by
  have hlt := (Scalar.decode .i32 bs).isLt
  have hcond := BitVec.toInt_eq_toNat_cond (Scalar.decode .i32 bs)
  have hpos' : ¬ BitVec.toInt (Scalar.decode .i32 bs) < 0 := hpos
  have hnat : (BitVec.toInt (Scalar.decode .i32 bs)).toNat = (Scalar.decode .i32 bs).toNat := by
    split at hcond <;> omega
  show Bytes.bigEndian 4 (BitVec.toInt (Scalar.decode .i32 bs)).toNat = bs
  rw [hnat]
  exact Scalar.encode_decode (k := .i32) h4

/-- **A count** takes nothing and complains truly, or is a number of 31 bits, and what it announces
is there. -/
theorem count_cases (size : Nat → Nat) (c : Cursor) :
    (∃ e, e.Honest ∧ (count size).run c = (.error e, c)) ∨
      ∃ n, (n ≤ Kind.maxCount ∧ c.rest.take 4 = Kind.count n) ∧ size n ≤ (c.rest.drop 4).length ∧
        (count size).run c = (.ok n, { c with rest := c.rest.drop 4 }) := by
  simp only [count, Bytes.lacks_iff]
  have hlt : (Scalar.decode .i32 (c.rest.take 4)).toInt < 2 ^ 31 := BitVec.toInt_lt
  split_ifs with hfour hneg hsize
  · exact .inl ⟨.endOfData _ _, hfour, rfl⟩
  · exact .inl ⟨.negativeLength _, trivial, rfl⟩
  · exact .inl ⟨.endOfData _ _, hsize, rfl⟩
  · have h4 : (c.rest.take 4).length = 4 := List.length_take_of_le (Nat.not_lt.1 hfour)
    refine .inr ⟨_, ⟨?_, (count_of_toInt h4 hneg).symm⟩, Nat.not_lt.1 hsize, rfl⟩
    unfold Kind.maxCount
    omega

/-! ### Rewinding -/

theorem rewinds_atomic (r : Read α) : (atomic r).Rewinds := by
  intro c e c' h
  cases hr : r.run c with
  | mk x d =>
    cases x with
    | ok a =>
      rw [run_atomic_of_ok hr] at h
      cases h
    | error e' =>
      rw [run_atomic_of_error hr] at h
      cases h
      rfl

theorem rewinds_take (n : Nat) : (take n).Rewinds := by
  intro c e c' h
  rcases Nat.lt_or_ge c.rest.length n with hlt | hle
  · rw [run_take_of_lt hlt] at h
    cases h
    rfl
  · rw [run_take_of_le hle] at h
    cases h

/-- What comes after a read that rewinds must not fail. -/
theorem Rewinds.bind (hr : r.Rewinds)
    (hf : ∀ c a c', r.run c = (.ok a, c') → ∃ b c'', (f a).run c' = (.ok b, c'')) :
    (r >>= f).Rewinds := by
  intro c e c' h
  cases hrun : r.run c with
  | mk x d =>
    cases x with
    | ok a =>
      obtain ⟨b, d', hb⟩ := hf c a d hrun
      rw [run_bind_of_ok hrun, hb] at h
      cases h
    | error e' =>
      rw [run_bind_of_error hrun] at h
      cases h
      exact hr c e c' hrun

theorem Rewinds.map (hr : r.Rewinds) (g : α → β) : (r >>= fun a => pure (g a)).Rewinds :=
  hr.bind fun _ a c' _ => ⟨g a, c', rfl⟩

/-- **A count and what it announces** are taken together or not at all. -/
theorem rewinds_count_bind {f : Nat → Read β}
    (hf : ∀ n c, size n ≤ c.rest.length → ∃ b c', (f n).run c = (.ok b, c')) :
    (count size >>= f).Rewinds := by
  intro c e c' h
  rcases count_cases size c with ⟨e', -, hc⟩ | ⟨n, -, hle, hc⟩
  · rw [run_bind_of_error hc] at h
    cases h
    rfl
  · obtain ⟨b, d, hb⟩ := hf n { c with rest := c.rest.drop 4 } hle
    rw [run_bind_of_ok hc, hb] at h
    cases h

/-! ### Honesty -/

theorem honest_pure (a : α) : (pure a : Read α).Honest := fun _ _ _ h => by cases h

theorem honest_fail (he : e.Honest) : (fail e : Read α).Honest := fun _ _ _ h => by
  cases h
  exact he

theorem Honest.bind (hr : r.Honest) (hf : ∀ a, (f a).Honest) : (r >>= f).Honest := by
  intro c e c' h
  cases hrun : r.run c with
  | mk x d =>
    cases x with
    | ok a =>
      rw [run_bind_of_ok hrun] at h
      exact hf a d e c' h
    | error e' =>
      rw [run_bind_of_error hrun] at h
      cases h
      exact hr c e c' hrun

theorem Honest.atomic (hr : r.Honest) : (Read.atomic r).Honest := by
  intro c e c' h
  cases hrun : r.run c with
  | mk x d =>
    cases x with
    | ok a =>
      rw [run_atomic_of_ok hrun] at h
      cases h
    | error e' =>
      rw [run_atomic_of_error hrun] at h
      cases h
      exact hr c e d hrun

theorem Honest.times (hr : r.Honest) (n : Nat) : (Read.times n r).Honest := by
  have honto : ∀ n as c e c', timesOnto r n as c = (.error e, c') → e.Honest := by
    intro n
    induction n with
    | zero =>
      intro as c e c' h
      cases h
    | succ n ih =>
      intro as c e c' h
      rw [timesOnto] at h
      cases hrun : r.run c with
      | mk x d =>
        rw [hrun] at h
        cases x with
        | ok a => exact ih (a :: as) d e c' h
        | error e' =>
          cases h
          exact hr c e c' hrun
  exact honto n []

theorem honest_take (n : Nat) : (take n).Honest := by
  intro c e c' h
  rcases Nat.lt_or_ge c.rest.length n with hlt | hle
  · rw [run_take_of_lt hlt] at h
    cases h
    exact hlt
  · rw [run_take_of_le hle] at h
    cases h

theorem honest_count (size : Nat → Nat) : (count size).Honest := by
  intro c e c' h
  rcases count_cases size c with ⟨e', he, hc⟩ | ⟨n, -, -, hc⟩
  · rw [hc] at h
    cases h
    exact he
  · rw [hc] at h
    cases h

/-! ### Values -/

theorem honest_strIn (e : Encoding) : (strIn e).Honest := by
  refine ((honest_count id).bind fun n => (honest_take n).bind fun bs => ?_).atomic
  split
  · exact honest_pure _
  · exact honest_fail trivial

theorem honest_encoding : encoding.Honest := fun _ _ _ h => by cases h

theorem honest_str : str.Honest := honest_encoding.bind honest_strIn

theorem rewinds_str : str.Rewinds := fun c e c' h => rewinds_atomic _ c e c' h

theorem honest_char : char.Honest := by
  refine (honest_str.bind fun s => ?_).atomic
  split
  · exact honest_pure _
  · exact honest_encoding.bind fun e => honest_fail trivial

theorem rawOf_cases (n : Nat) (c : Cursor) :
    c.rest.length < n ∧ (rawOf n).run c = (.error (.endOfData n c.rest.length), c) ∨
      ∃ v, n ≤ c.rest.length ∧ v.1 = c.rest.take n ∧
        (rawOf n).run c = (.ok v, { c with rest := c.rest.drop n }) := by
  rcases Nat.lt_or_ge c.rest.length n with hlt | hle
  · exact .inl ⟨hlt, run_bind_of_error (run_take_of_lt hlt)⟩
  · have hn : (c.rest.take n).length = n := by
      rw [List.length_take]
      omega
    refine .inr ⟨⟨_, hn⟩, hle, rfl, (run_bind_of_ok (run_take_of_le hle)).trans ?_⟩
    rw [dif_pos hn]
    rfl

theorem honest_rawOf (n : Nat) : (rawOf n).Honest := by
  intro c e c' h
  rcases rawOf_cases n c with ⟨hlt, hc⟩ | ⟨v, -, -, hc⟩
  · rw [hc] at h
    cases h
    exact hlt
  · rw [hc] at h
    cases h

theorem rewinds_rawOf (n : Nat) : (rawOf n).Rewinds := by
  intro c e c' h
  rcases rawOf_cases n c with ⟨hlt, hc⟩ | ⟨v, -, -, hc⟩
  · rw [hc] at h
    cases h
    rfl
  · rw [hc] at h
    cases h

end Read

/-- **Reads of values complain truly.** -/
theorem Kind.honest_read (k : Kind) : k.read.Honest := by
  cases k with
  | bool =>
    exact ((Read.honest_take _).bind fun _ => Read.honest_pure _).bind fun _ =>
      Read.honest_pure _
  | scalar k => exact (Read.honest_take _).bind fun _ => Read.honest_pure _
  | char => exact Read.honest_char
  | str => exact Read.honest_str
  | strIn e => exact Read.honest_strIn e
  | chars => exact Read.honest_str.bind fun _ => Read.honest_pure _
  | bytes => exact (Read.honest_count _).bind Read.honest_take
  | raw n => exact Read.honest_rawOf n
  | bools =>
    exact (Read.honest_count _).bind fun _ => (Read.honest_take _).bind fun _ => Read.honest_pure _
  | scalars k =>
    exact (Read.honest_count _).bind fun _ => (Read.honest_take _).bind fun _ => Read.honest_pure _
  | strs => exact ((Read.honest_count _).bind fun n => Read.honest_str.times n).atomic

/-- **Reads of values that fail** take nothing. -/
theorem Kind.rewinds_read (k : Kind) : k.read.Rewinds := by
  -- what was announced is taken without fail
  have htake : ∀ {β : Type} (n : Nat) (g : Bytes → β) (c : Cursor), n ≤ c.rest.length →
      ∃ b c', (Read.take n >>= fun bs => pure (g bs)).run c = (.ok b, c') :=
    fun n g c hn => ⟨_, _, Read.run_bind_of_ok (Read.run_take_of_le hn)⟩
  cases k with
  | bool => exact ((Read.rewinds_take _).map _).map _
  | scalar k => exact (Read.rewinds_take _).map _
  | char => exact Read.rewinds_atomic _
  | str => exact Read.rewinds_str
  | strIn e => exact Read.rewinds_atomic _
  | chars => exact Read.rewinds_str.map _
  | bytes => exact Read.rewinds_count_bind fun n c hn => ⟨_, _, Read.run_take_of_le hn⟩
  | raw n => exact Read.rewinds_rawOf n
  | bools => exact Read.rewinds_count_bind fun n c hn => htake _ _ c hn
  | scalars k => exact Read.rewinds_count_bind fun n c hn => htake _ _ c hn
  | strs => exact Read.rewinds_atomic _

end Tandem
