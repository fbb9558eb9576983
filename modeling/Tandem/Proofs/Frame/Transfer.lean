import Tandem.Frame.Transfer

/-!
# How bytes get into a stream

A stream takes what it is offered in pieces of its own choosing, and now and then nothing.  Whatever
it answers, what it has taken and what is left are together what there was to be written
(`Transfer.offered_eq_append`), and writing goes on where it stopped (`Transfer.writeAll_append`).

How far it gets is found by adding up the answers.  There is a first one that decides, because it is
a fault or because it takes the last byte, or there is none yet; `Transfer.Goes` says what comes of
it in each case.  That the bytes stand in two stretches, a header and a body, makes no difference.
-/

namespace Tandem.Frame

namespace Attempt

/-- The number of bytes that the stream says it took. -/
def amount : Attempt → Nat
  | wrote n => n
  | busy | failed _ => 0

/-- The fault that an answer amounts to: a stream that takes nothing and is not busy has failed. -/
def fault? : Attempt → Option Fault
  | wrote 0 => some .writeZero
  | wrote _ | busy => none
  | failed f => some f

/-- Whether the stream was not busy. -/
def isReady : Attempt → Bool
  | busy => false
  | wrote _ | failed _ => true

/-- The number of bytes that the stream says it took, over several answers. -/
def total : List Attempt → Nat
  | [] => 0
  | a :: as => a.amount + total as

/-- None of the answers amounts to a fault. -/
def NoFault (as : List Attempt) : Prop := ∀ a ∈ as, a.fault? = none

instance : DecidablePred NoFault := fun as =>
  inferInstanceAs (Decidable (∀ a ∈ as, a.fault? = none))

variable {a : Attempt} {as : List Attempt} {n : Nat}

@[simp] theorem total_nil : total [] = 0 := rfl

@[simp] theorem total_cons (a : Attempt) (as : List Attempt) :
    total (a :: as) = a.amount + total as := rfl

theorem noFault_nil : NoFault [] := nofun

theorem NoFault.cons (ha : a.fault? = none) (h : NoFault as) : NoFault (a :: as) :=
  List.forall_mem_cons.2 ⟨ha, h⟩

theorem NoFault.of_cons (h : NoFault (a :: as)) : a.fault? = none ∧ NoFault as :=
  List.forall_mem_cons.1 h

theorem NoFault.countP_le_total (h : NoFault as) : as.countP isReady ≤ total as := by
  induction as with
  | nil => exact Nat.le_refl 0
  | cons a as ih =>
    obtain ⟨ha, has⟩ := h.of_cons
    have hrest := ih has
    rw [total_cons]
    cases a with
    | busy =>
      rw [List.countP_cons_of_neg Bool.false_ne_true]
      exact Nat.le_trans hrest (Nat.le_add_left _ _)
    | wrote n =>
      cases n with
      | zero => cases ha
      | succ n =>
        rw [List.countP_cons_of_pos rfl]
        simp only [amount]
        omega
    | failed f => cases ha

/-- Answers to an offer of `n` bytes: either there is a first one that decides, as a fault or
because the amounts have come up to `n`, or there is none yet. -/
theorem open_or_decided (hpos : 0 < n) (as : List Attempt) :
    (NoFault as ∧ total as < n) ∨
      ∃ before a rest, as = before ++ a :: rest ∧ NoFault before ∧ total before < n ∧
        ((∃ f, a.fault? = some f) ∨ a.fault? = none ∧ n ≤ total before + a.amount) := by
  induction as generalizing n with
  | nil => exact .inl ⟨noFault_nil, hpos⟩
  | cons a as ih =>
    cases ha : a.fault? with
    | some f => exact .inr ⟨[], a, as, rfl, noFault_nil, hpos, .inl ⟨f, ha⟩⟩
    | none =>
      by_cases hall : n ≤ a.amount
      · exact .inr ⟨[], a, as, rfl, noFault_nil, hpos, .inr ⟨ha, by simpa using hall⟩⟩
      · -- the rest of the answers is about what this one leaves
        rcases ih (n := n - a.amount) (by omega) with
          ⟨hfault, htotal⟩ | ⟨before, b, rest, rfl, hfault, htotal, hb⟩
        · exact .inl ⟨hfault.cons ha, by rw [total_cons]; omega⟩
        · refine .inr ⟨a :: before, b, rest, rfl, hfault.cons ha, by rw [total_cons]; omega,
            hb.imp_right fun ⟨hnone, hle⟩ => ⟨hnone, by rw [total_cons]; omega⟩⟩

end Attempt

namespace Transfer

open Attempt

variable {t left : Transfer} {a : Attempt} {as before more rest : List Attempt} {f : Fault}
  {taken : Bytes}

/-! ### One attempt -/

theorem attempt_of_fault (t : Transfer) (h : a.fault? = some f) : t.attempt a = .error f := by
  cases a with
  | wrote n => cases n <;> cases h; rfl
  | busy => cases h
  | failed g => cases h; rfl

theorem advance_zero (t : Transfer) : t.advance 0 = t := by
  simp only [advance, Nat.zero_sub, List.drop_zero]

theorem advance_advance (t : Transfer) (m n : Nat) :
    (t.advance m).advance n = t.advance (m + n) := by
  have hbody : m - t.header.length + (n - (t.header.length - m)) = m + n - t.header.length := by
    omega
  simp only [advance, List.drop_drop, List.length_drop, hbody]

theorem length_offered_advance (t : Transfer) (n : Nat) :
    (t.advance n).offered.length = t.offered.length - n := by
  rw [offered_advance, List.length_drop]

theorem attempt_of_noFault (t : Transfer) (h : a.fault? = none) :
    t.attempt a = .ok (t.offered.take a.amount, t.advance a.amount) := by
  cases a with
  | wrote n =>
    cases n with
    | zero => cases h
    | succ n => rfl
  | busy =>
    rw [amount, advance_zero]
    rfl
  | failed f => cases h

theorem offered_of_attempt (h : t.attempt a = .ok (taken, left)) :
    t.offered = taken ++ left.offered := by
  cases ha : a.fault? with
  | some f =>
    rw [t.attempt_of_fault ha] at h
    cases h
  | none =>
    rw [t.attempt_of_noFault ha] at h
    cases h
    rw [offered_advance, List.take_append_drop]

/-! ### Any number of attempts -/

theorem isDone_eq_false_iff : t.isDone = false ↔ 0 < t.offered.length := by
  rw [← Bool.not_eq_true, isDone_iff, List.length_pos_iff]

theorem isDone_advance_of_lt {n : Nat} (h : n < t.offered.length) :
    (t.advance n).isDone = false := by
  rw [isDone_eq_false_iff, length_offered_advance]
  exact Nat.sub_pos_of_lt h

theorem writeAll_of_isDone (h : t.isDone = true) (as : List Attempt) :
    t.writeAll as = ([], .done) := by
  cases as <;> simp only [writeAll, h, if_true]

theorem writeAll_nil_of_open (h : t.isDone = false) : t.writeAll [] = ([], .left t) := by
  simp only [writeAll, h, Bool.false_eq_true, if_false]

theorem writeAll_cons_of_fault (h : t.isDone = false) (ha : a.fault? = some f)
    (as : List Attempt) : t.writeAll (a :: as) = ([], .failed f) := by
  simp only [writeAll, h, Bool.false_eq_true, if_false, t.attempt_of_fault ha]

theorem writeAll_cons_of_noFault (h : t.isDone = false) (ha : a.fault? = none)
    (as : List Attempt) :
    t.writeAll (a :: as) =
      (t.offered.take a.amount ++ ((t.advance a.amount).writeAll as).1,
        ((t.advance a.amount).writeAll as).2) := by
  simp only [writeAll, h, Bool.false_eq_true, if_false, t.attempt_of_noFault ha]

/-- Writing goes round until everything was taken, the answers are used up or one is a fault. -/
@[elab_as_elim]
theorem rounds_induction {motive : Transfer → List Attempt → Prop}
    (done : ∀ t as, t.isDone = true → motive t as)
    (nil : ∀ t, t.isDone = false → motive t [])
    (fault : ∀ t a as f, t.isDone = false → a.fault? = some f → motive t (a :: as))
    (round : ∀ t a as, t.isDone = false → a.fault? = none → motive (t.advance a.amount) as →
      motive t (a :: as)) (t : Transfer) (as : List Attempt) : motive t as := by
  induction as generalizing t with
  | nil =>
    cases hopen : t.isDone with
    | true => exact done t [] hopen
    | false => exact nil t hopen
  | cons a as ih =>
    cases hopen : t.isDone with
    | true => exact done t (a :: as) hopen
    | false =>
      cases ha : a.fault? with
      | some f => exact fault t a as f hopen ha
      | none => exact round t a as hopen ha (ih (t.advance a.amount))

/-- **Writing goes on where it stopped**, and where it has come to an end it does not go on. -/
theorem writeAll_append (t : Transfer) (as more : List Attempt) :
    t.writeAll (as ++ more) =
      match t.writeAll as with
      | (got, .left left) => (got ++ (left.writeAll more).1, (left.writeAll more).2)
      | ended => ended := by
  induction t, as using rounds_induction with
  | done t as hdone => rw [writeAll_of_isDone hdone, writeAll_of_isDone hdone]
  | nil t hopen =>
    rw [List.nil_append, writeAll_nil_of_open hopen]
    rfl
  | fault t a as f hopen ha =>
    rw [List.cons_append, writeAll_cons_of_fault hopen ha, writeAll_cons_of_fault hopen ha]
  | round t a as hopen ha ih =>
    rw [List.cons_append, writeAll_cons_of_noFault hopen ha, writeAll_cons_of_noFault hopen ha, ih]
    cases (t.advance a.amount).writeAll as with
    | mk got progress => cases progress <;> simp only [List.append_assoc]

/-- **Nothing is lost and nothing is taken twice**: what the stream has taken and what is left are
together what there was to be written, and only success leaves nothing. -/
theorem offered_eq_append (t : Transfer) (as : List Attempt) :
    ∃ bs, t.offered = (t.writeAll as).1 ++ bs ∧ ((t.writeAll as).2 = .done ↔ bs = []) ∧
      ∀ left, (t.writeAll as).2 = .left left → left.offered = bs := by
  induction t, as using rounds_induction with
  | done t as hdone =>
    rw [writeAll_of_isDone hdone]
    exact ⟨[], (isDone_iff t).1 hdone, iff_of_true rfl rfl, nofun⟩
  | nil t hopen =>
    have hsome : t.offered ≠ [] := List.length_pos_iff.1 (isDone_eq_false_iff.1 hopen)
    rw [writeAll_nil_of_open hopen]
    refine ⟨t.offered, rfl, iff_of_false nofun hsome, fun left h => ?_⟩
    cases h
    rfl
  | fault t a as f hopen ha =>
    have hsome : t.offered ≠ [] := List.length_pos_iff.1 (isDone_eq_false_iff.1 hopen)
    rw [writeAll_cons_of_fault hopen ha]
    exact ⟨t.offered, rfl, iff_of_false nofun hsome, nofun⟩
  | round t a as hopen ha ih =>
    obtain ⟨bs, hoffered, hdone, hleft⟩ := ih
    rw [writeAll_cons_of_noFault hopen ha]
    refine ⟨bs, ?_, hdone, hleft⟩
    rw [List.append_assoc, ← hoffered, offered_advance, List.take_append_drop]

theorem open_of_left {got : Bytes} (h : t.writeAll as = (got, .left left)) :
    t.isDone = false ∧ left.isDone = false := by
  obtain ⟨bs, hoffered, hdone, hleft⟩ := t.offered_eq_append as
  rw [h] at hoffered hdone hleft
  have hbs : 0 < left.offered.length := by
    rw [hleft left rfl]
    exact List.length_pos_iff.2 fun hnil => nomatch hdone.2 hnil
  refine ⟨isDone_eq_false_iff.2 ?_, isDone_eq_false_iff.2 hbs⟩
  rw [hoffered, ← hleft left rfl, List.length_append]
  exact Nat.lt_of_lt_of_le hbs (Nat.le_add_left _ _)

/-! ### Adding up the answers -/

/-- As long as the answers do not decide, the stream has taken as many bytes as they say. -/
theorem writeAll_of_noFault (hfault : NoFault as) (hpart : total as < t.offered.length) :
    t.writeAll as = (t.offered.take (total as), .left (t.advance (total as))) := by
  induction as generalizing t with
  | nil =>
    rw [writeAll_nil_of_open (isDone_eq_false_iff.2 hpart), total_nil, advance_zero,
      List.take_zero]
  | cons a as ih =>
    obtain ⟨ha, has⟩ := hfault.of_cons
    have hopen := isDone_eq_false_iff.2 (Nat.zero_lt_of_lt hpart)
    have hrest : total as < (t.advance a.amount).offered.length := by
      rw [total_cons] at hpart
      rw [length_offered_advance]
      omega
    rw [writeAll_cons_of_noFault hopen ha, ih has hrest, total_cons, advance_advance,
      offered_advance, List.take_add]

theorem writeAll_append_cons (hbefore : NoFault before) (hpart : total before < t.offered.length)
    (a : Attempt) (rest : List Attempt) :
    t.writeAll (before ++ a :: rest) =
      (t.offered.take (total before) ++ ((t.advance (total before)).writeAll (a :: rest)).1,
        ((t.advance (total before)).writeAll (a :: rest)).2) := by
  rw [writeAll_append, writeAll_of_noFault hbefore hpart]

/-- Whether the stream never takes more than it is offered. -/
def isWithin (t : Transfer) : List Attempt → Bool
  | [] => true
  | a :: as =>
    t.isDone ||
      (decide (a.amount ≤ t.offered.length) &&
        match t.attempt a with
        | .error _ => true
        | .ok (_, left) => left.isWithin as)

theorem total_le_of_isWithin (hbefore : NoFault before) (hpart : total before < t.offered.length)
    (h : t.isWithin (before ++ a :: rest) = true) :
    total before + a.amount ≤ t.offered.length := by
  induction before generalizing t with
  | nil =>
    rw [List.nil_append, isWithin, isDone_eq_false_iff.2 hpart, Bool.false_or,
      Bool.and_eq_true] at h
    rw [total_nil, Nat.zero_add]
    exact of_decide_eq_true h.1
  | cons b before ih =>
    obtain ⟨hb, hbefore⟩ := hbefore.of_cons
    have hopen := isDone_eq_false_iff.2 (Nat.zero_lt_of_lt hpart)
    rw [List.cons_append, isWithin, hopen, Bool.false_or, Bool.and_eq_true,
      t.attempt_of_noFault hb] at h
    rw [total_cons] at hpart ⊢
    have hrest : total before < (t.advance b.amount).offered.length := by
      rw [length_offered_advance]
      omega
    -- the others are within what this answer leaves
    have hle := ih hbefore hrest h.2
    rw [length_offered_advance] at hle
    omega

/-- What comes of writing to a stream that gives these answers. -/
inductive Goes (t : Transfer) : List Attempt → Bytes × Progress → Prop
  /-- there is nothing to be written -/
  | nothing {as : List Attempt} (hnone : t.offered = []) : Goes t as ([], .done)
  /-- the stream takes the last byte, and is not asked again -/
  | done {before : List Attempt} {a : Attempt} (rest : List Attempt) (hbefore : NoFault before)
      (ha : a.fault? = none) (hpart : total before < t.offered.length)
      (hall : total before + a.amount = t.offered.length) :
      Goes t (before ++ a :: rest) (t.offered, .done)
  /-- a fault, after which the stream is not asked again, with bytes still to be written -/
  | failed {before : List Attempt} {a : Attempt} {f : Fault} (rest : List Attempt)
      (hbefore : NoFault before) (ha : a.fault? = some f)
      (hpart : total before < t.offered.length) :
      Goes t (before ++ a :: rest) (t.offered.take (total before), .failed f)
  /-- no answer has decided -/
  | left {as : List Attempt} (hfault : NoFault as) (hpart : total as < t.offered.length) :
      Goes t as (t.offered.take (total as), .left (t.advance (total as)))

theorem writeAll_of_goes {r : Bytes × Progress} (h : t.Goes as r) : t.writeAll as = r := by
  cases h with
  | nothing hnone => exact writeAll_of_isDone ((isDone_iff t).2 hnone) as
  | @done before a rest hbefore ha hpart hall =>
    have hrest : a.amount = (t.advance (total before)).offered.length := by
      rw [length_offered_advance]
      omega
    have hopen := isDone_advance_of_lt hpart
    have hdone : ((t.advance (total before)).advance a.amount).isDone = true := by
      rw [isDone_iff, offered_advance, hrest, List.drop_length]
    rw [writeAll_append_cons hbefore hpart, writeAll_cons_of_noFault hopen ha,
      writeAll_of_isDone hdone, hrest, List.take_length, List.append_nil, offered_advance,
      List.take_append_drop]
  | @failed before a f rest hbefore ha hpart =>
    rw [writeAll_append_cons hbefore hpart,
      writeAll_cons_of_fault (isDone_advance_of_lt hpart) ha, List.append_nil]
  | left hfault hpart => exact writeAll_of_noFault hfault hpart

/-- **What comes of writing** to a stream that never takes more than it is offered can be read off
its answers, added up. -/
theorem goes_writeAll (h : t.isWithin as = true) : t.Goes as (t.writeAll as) := by
  cases hopen : t.isDone with
  | true =>
    rw [writeAll_of_isDone hopen]
    exact .nothing ((isDone_iff t).1 hopen)
  | false =>
    rcases open_or_decided (isDone_eq_false_iff.1 hopen) as with
      ⟨hfault, hpart⟩ | ⟨before, a, rest, rfl, hbefore, hpart, ⟨f, ha⟩ | ⟨ha, hall⟩⟩
    · have hgoes := Goes.left hfault hpart
      rwa [← writeAll_of_goes hgoes] at hgoes
    · have hgoes := Goes.failed rest hbefore ha hpart
      rwa [← writeAll_of_goes hgoes] at hgoes
    · have hle := total_le_of_isWithin hbefore hpart h
      have hgoes := Goes.done rest hbefore ha hpart (Nat.le_antisymm hle hall)
      rwa [← writeAll_of_goes hgoes] at hgoes

example : (ofBody [7]).writeAll [.wrote 4, .busy, .wrote 0, .wrote 1] =
    ([0, 0, 0, 1], .failed .writeZero) := by decide

/-- How bytes get into a stream that gives these answers: each of them once, in their order. -/
structure WritesOnce (t : Transfer) (as : List Attempt) : Prop where
  /-- at any time, the stream has taken the first of the bytes … -/
  isPrefix : (t.writeAll as).1 <+: t.offered
  /-- … and what it takes later comes behind them -/
  grows : ∀ more, (t.writeAll as).1 <+: (t.writeAll (as ++ more)).1
  /-- writing succeeds if and only if the stream has taken all of them -/
  done_iff : (t.writeAll as).2 = .done ↔ (t.writeAll as).1 = t.offered
  /-- how many it has taken is what it has said, up to the answer that decides -/
  goes_iff : ∀ r, t.Goes as r ↔ t.writeAll as = r
  /-- until then it is offered all the others, and it has not been ready as often as there are
  bytes -/
  going : ∀ left, (t.writeAll as).2 = .left left → (t.writeAll as).1 ++ left.offered = t.offered ∧
    as.countP isReady < t.offered.length
  /-- after that nothing more is written, whatever it would answer -/
  ended : (∀ left, (t.writeAll as).2 ≠ .left left) →
    ∀ more, t.writeAll (as ++ more) = t.writeAll as

/-- **Each byte is written once**, also of bytes that are in no frame. -/
theorem writesOnce (h : t.isWithin as = true) : t.WritesOnce as := by
  obtain ⟨bs, hoffered, hdone, hleft⟩ := t.offered_eq_append as
  have hgoes := goes_writeAll h
  refine ⟨⟨bs, hoffered.symm⟩, fun more => ?_, ?_, fun r => ⟨writeAll_of_goes, ?_⟩,
    fun left hl => ⟨?_, ?_⟩, fun hended more => ?_⟩
  · rw [writeAll_append]
    split
    · next got left heq =>
      rw [heq]
      exact List.prefix_append _ _
    · exact List.prefix_rfl
  · rw [hdone, hoffered]
    exact ⟨fun hnil => by rw [hnil, List.append_nil], fun heq => List.self_eq_append_right.1 heq⟩
  · rintro rfl
    exact hgoes
  · rw [hleft left hl, hoffered]
  · generalize t.writeAll as = r at hgoes hl
    cases hgoes with
    | nothing | done | failed => cases hl
    | left hfault hpart => exact Nat.lt_of_le_of_lt hfault.countP_le_total hpart
  · rw [writeAll_append]
    split
    · next got left heq => exact absurd (by rw [heq]) (hended left)
    · rfl

end Transfer

end Tandem.Frame
