import Tandem.Frame.Basic
import Tandem.Proofs.Scalar
import Mathlib.Tactic.SplitIfs

/-!
# Cutting a stream into frames

`Frame.Cuts` says how a stream is made up of frames, without saying how they are found: whole frames
one after the other, then either the beginning of a frame or a header that is refused.
`Frame.split` finds exactly this (`cuts_iff`).  What it finds in a stream goes on from what it left
uncut of a first part (`split_append`), which is what makes it possible to cut a stream that comes
in pieces.
-/

namespace Tandem

namespace Frame

/-- The four bytes of a length. -/
def lengthBytes (n : Int) : Bytes := Scalar.encode (Scalar.ofInt .i32 n)

/-- Lengths that can be declared and are below the maximum. -/
def Allowed (max : Option Nat) (n : Nat) : Prop := n < 2 ^ 31 ∧ ∀ m, max = some m → n < m

/-- How a stream is made up of frames. -/
inductive Cuts (max : Option Nat) : Bytes → Cut → Prop
  | partHeader {bs : Bytes} (h : bs.length < 4) : Cuts max bs ⟨[], none, bs⟩
  | partBody {n : Nat} {got : Bytes} (hn : Allowed max n) (h : got.length < n) :
      Cuts max (lengthBytes n ++ got) ⟨[], none, lengthBytes n ++ got⟩
  | frame {body bs : Bytes} {c : Cut} (hn : Allowed max body.length) (h : Cuts max bs c) :
      Cuts max (lengthBytes body.length ++ body ++ bs) { c with bodies := body :: c.bodies }
  | negative {n : Int} {bs : Bytes} (h : -2 ^ 31 ≤ n) (hn : n < 0) :
      Cuts max (lengthBytes n ++ bs) ⟨[], some (.negativeLength n), lengthBytes n ++ bs⟩
  | tooLong {n m : Nat} {bs : Bytes} (hmax : max = some m) (hm : m ≤ n) (hn : n < 2 ^ 31) :
      Cuts max (lengthBytes n ++ bs) ⟨[], some (.bodyTooLong n m), lengthBytes n ++ bs⟩

variable {max : Option Nat} {bs s t : Bytes}

/-! ### Declared lengths -/

@[simp] theorem length_lengthBytes (n : Int) : (lengthBytes n).length = 4 :=
  Scalar.length_encode _

theorem declared_lengthBytes {n : Int} (h₁ : -2 ^ 31 ≤ n) (h₂ : n < 2 ^ 31) :
    declared (lengthBytes n) = n := by
  rw [declared, lengthBytes, Scalar.decode_encode]
  exact BitVec.toInt_ofInt_eq_self (by decide) h₁ h₂

theorem declared_bounds (header : Bytes) :
    -2 ^ 31 ≤ declared header ∧ declared header < 2 ^ 31 :=
  ⟨BitVec.le_toInt _, BitVec.toInt_lt⟩

theorem lengthBytes_declared {header : Bytes} (h : header.length = 4) :
    lengthBytes (declared header) = header := by
  have hd : Scalar.ofInt .i32 (declared header) = Scalar.decode .i32 header :=
    BitVec.ofInt_toInt
  rw [lengthBytes, hd, Scalar.encode_decode h]

theorem accept_eq_ok_iff {z : Int} {n : Nat} (hz : z < 2 ^ 31) :
    accept max z = .ok n ↔ z = n ∧ Allowed max n := by
  unfold accept Allowed
  split_ifs with h0
  · simp only [false_iff, not_and]
    omega
  · cases max with
    | none =>
      simp only [Except.ok.injEq, reduceCtorEq, false_implies, implies_true, and_true]
      omega
    | some m =>
      simp only [Option.some.injEq, forall_eq']
      split_ifs with hm
      · simp only [false_iff]; omega
      · simp only [Except.ok.injEq]; omega

theorem accept_eq_error_iff {z : Int} {e : FramingError} :
    accept max z = .error e ↔
      z < 0 ∧ e = .negativeLength z ∨
        ∃ n m : Nat, z = n ∧ max = some m ∧ m ≤ n ∧ e = .bodyTooLong n m := by
  unfold accept
  split_ifs with h0
  · constructor
    · intro h; cases h; exact .inl ⟨h0, rfl⟩
    · rintro (⟨-, rfl⟩ | ⟨n, m, rfl, -⟩)
      · rfl
      · omega
  · cases max with
    | none => simp [h0]
    | some m =>
      simp only [h0, false_and, false_or, Option.some.injEq]
      split_ifs with hm
      · constructor
        · intro h; cases h; exact ⟨z.toNat, m, by omega, rfl, hm, rfl⟩
        · rintro ⟨n, m, rfl, rfl, -, rfl⟩; simp
      · simp only [false_iff, not_exists, not_and]
        rintro n k rfl rfl hk
        omega

/-! ### Cutting without counting rounds -/

theorem splitUpTo_eq {n k : Nat} (hn : bs.length ≤ n) (hk : bs.length ≤ k) :
    splitUpTo max n bs = splitUpTo max k bs := by
  induction n generalizing k bs with
  | zero =>
    have hb : bs = [] := List.length_eq_zero_iff.1 (Nat.le_zero.1 hn)
    subst hb
    cases k <;> rfl
  | succ n ih =>
    cases k with
    | zero =>
      have hb : bs = [] := List.length_eq_zero_iff.1 (Nat.le_zero.1 hk)
      subst hb
      rfl
    | succ k =>
      rw [splitUpTo, splitUpTo]
      split_ifs with h4
      · rfl
      · split
        · rfl
        · next length _ =>
          split_ifs
          · rfl
          · unfold headerLength at *
            rw [ih (k := k) (by simp only [List.length_drop]; omega)
              (by simp only [List.length_drop]; omega)]

theorem split_eq (max : Option Nat) (bs : Bytes) :
    split max bs =
      if bs.length < 4 then ⟨[], none, bs⟩
      else
        match accept max (declared (bs.take 4)) with
        | .error e => ⟨[], some e, bs⟩
        | .ok length =>
          if bs.length < 4 + length then ⟨[], none, bs⟩
          else
            { split max (bs.drop (4 + length)) with
              bodies := bs.slice 4 length :: (split max (bs.drop (4 + length))).bodies } := by
  have h : split max bs = splitUpTo max (bs.length + 1) bs :=
    splitUpTo_eq (Nat.le_refl _) (Nat.le_succ _)
  rw [h, splitUpTo]
  simp only [headerLength]
  by_cases h4 : bs.length < 4
  · simp only [h4, ↓reduceIte]
  · simp only [h4, ↓reduceIte]
    cases accept max (declared (bs.take 4)) with
    | error e => rfl
    | ok length =>
      have hd : splitUpTo max bs.length (bs.drop (4 + length)) =
          split max (bs.drop (4 + length)) :=
        splitUpTo_eq (by simp only [List.length_drop]; omega) (Nat.le_refl _)
      simp only [hd]

theorem split_of_short (h : bs.length < 4) : split max bs = ⟨[], none, bs⟩ := by
  rw [split_eq, if_pos h]

@[simp] theorem split_nil (max : Option Nat) : split max [] = ⟨[], none, []⟩ := rfl

section Header

variable {header : Bytes} (h4 : header.length = 4)

include h4

theorem split_refused (bs : Bytes) {e : FramingError}
    (he : accept max (declared header) = .error e) :
    split max (header ++ bs) = ⟨[], some e, header ++ bs⟩ := by
  rw [split_eq, if_neg (by simp [h4]), List.take_left' h4, he]

theorem split_incomplete {n : Nat} (hn : accept max (declared header) = .ok n)
    (hl : bs.length < n) : split max (header ++ bs) = ⟨[], none, header ++ bs⟩ := by
  rw [split_eq, if_neg (by simp [h4]), List.take_left' h4, hn]
  simp only [List.length_append, h4]
  rw [if_pos (by omega)]

theorem split_frame (body bs : Bytes) (hn : accept max (declared header) = .ok body.length) :
    split max (header ++ body ++ bs) =
      { split max bs with bodies := body :: (split max bs).bodies } := by
  have ht : (header ++ body ++ bs).take 4 = header := by
    rw [List.append_assoc, List.take_left' h4]
  have hd : (header ++ body ++ bs).drop (4 + body.length) = bs :=
    List.drop_left' (by simp [h4])
  have hs : (header ++ body ++ bs).slice 4 body.length = body := by
    rw [Bytes.slice, List.append_assoc, List.drop_left' h4, List.take_left]
  rw [split_eq, if_neg (by simp [h4]), ht, hn]
  simp only [hd, hs]
  rw [if_neg (by simp [h4])]

theorem split_single (body : Bytes) (hn : accept max (declared header) = .ok body.length) :
    split max (header ++ body) = ⟨[body], none, []⟩ := by
  have h := split_frame h4 body [] hn
  rwa [List.append_nil, split_nil] at h

end Header

theorem cases_of_split (max : Option Nat) (bs : Bytes) :
    bs.length < 4 ∨
      ∃ header rest, bs = header ++ rest ∧ header.length = 4 ∧
        ((∃ e, accept max (declared header) = .error e) ∨
          ∃ n, accept max (declared header) = .ok n ∧
            (rest.length < n ∨ ∃ body more, rest = body ++ more ∧ body.length = n)) := by
  by_cases h4 : bs.length < 4
  · exact .inl h4
  · refine .inr ⟨bs.take 4, bs.drop 4, (List.take_append_drop 4 bs).symm,
      List.length_take_of_le (by omega), ?_⟩
    cases ha : accept max (declared (bs.take 4)) with
    | error e => exact .inl ⟨e, rfl⟩
    | ok n =>
      refine .inr ⟨n, rfl, ?_⟩
      by_cases hn : (bs.drop 4).length < n
      · exact .inl hn
      · exact .inr ⟨_, _, (List.take_append_drop n _).symm, List.length_take_of_le (by omega)⟩

/-- **A stream that goes on.**  What was cut stays cut; cutting goes on from what was left, unless a
length was refused. -/
theorem split_append (max : Option Nat) (s t : Bytes) :
    split max (s ++ t) =
      match (split max s).error with
      | some e => ⟨(split max s).bodies, some e, (split max s).rest ++ t⟩
      | none =>
        { split max ((split max s).rest ++ t) with
          bodies := (split max s).bodies ++ (split max ((split max s).rest ++ t)).bodies } := by
  induction hl : s.length using Nat.strongRecOn generalizing s with
  | ind k ih =>
    rcases cases_of_split max s with h | ⟨header, rest, rfl, h4, ⟨e, he⟩ | ⟨n, hn, h | h⟩⟩
    · rw [split_of_short h]; rfl
    · rw [split_refused h4 _ he, List.append_assoc, split_refused h4 _ he, ← List.append_assoc]
    · rw [split_incomplete h4 hn h]; rfl
    · obtain ⟨body, more, rfl, rfl⟩ := h
      have := ih more.length (by simp only [List.length_append] at hl; omega) more rfl
      rw [← List.append_assoc, split_frame h4 _ _ hn, List.append_assoc, split_frame h4 _ _ hn,
        this]
      cases (split max more).error <;> rfl

/-! ### What a cut says about the stream -/

theorem cuts_split (max : Option Nat) (bs : Bytes) : Cuts max bs (split max bs) := by
  induction hl : bs.length using Nat.strongRecOn generalizing bs with
  | ind k ih =>
    rcases cases_of_split max bs with h | ⟨header, rest, rfl, h4, ⟨e, he⟩ | ⟨n, hn, h | h⟩⟩
    · rw [split_of_short h]
      exact .partHeader h
    · rw [split_refused h4 _ he]
      obtain ⟨hlo, hhi⟩ := declared_bounds header
      rw [← lengthBytes_declared h4] at he ⊢
      rw [declared_lengthBytes hlo hhi] at he
      rcases accept_eq_error_iff.1 he with ⟨h0, rfl⟩ | ⟨n, m, hz, rfl, hm, rfl⟩
      · exact .negative hlo h0
      · rw [hz] at hhi ⊢
        exact .tooLong rfl hm (by omega)
    · rw [split_incomplete h4 hn h]
      obtain ⟨hz, ha⟩ := (accept_eq_ok_iff (declared_bounds header).2).1 hn
      rw [← lengthBytes_declared h4, hz]
      exact .partBody ha h
    · obtain ⟨body, more, rfl, rfl⟩ := h
      obtain ⟨hz, ha⟩ := (accept_eq_ok_iff (declared_bounds header).2).1 hn
      have hc := ih more.length (by simp only [List.length_append] at hl; omega) more rfl
      rw [← List.append_assoc, split_frame h4 _ _ hn, ← lengthBytes_declared h4, hz]
      exact .frame ha hc

/-- **`split` finds the frames** that a stream is made up of, and nothing else. -/
theorem cuts_iff {c : Cut} : Cuts max bs c ↔ split max bs = c := by
  constructor
  · intro h
    induction h with
    | partHeader h => exact split_of_short h
    | @partBody n got hn h =>
      refine split_incomplete (length_lengthBytes _) ?_ h
      rw [declared_lengthBytes (by omega) (by have := hn.1; omega)]
      exact (accept_eq_ok_iff (by have := hn.1; omega)).2 ⟨rfl, hn⟩
    | @frame body bs c hn h ih =>
      rw [split_frame (length_lengthBytes _) _ _, ih]
      rw [declared_lengthBytes (by omega) (by have := hn.1; omega)]
      exact (accept_eq_ok_iff (by have := hn.1; omega)).2 ⟨rfl, hn⟩
    | @negative n bs h hn =>
      refine split_refused (length_lengthBytes _) _ ?_
      rw [declared_lengthBytes h (by omega)]
      exact accept_eq_error_iff.2 (.inl ⟨hn, rfl⟩)
    | @tooLong n m bs hmax hm hn =>
      refine split_refused (length_lengthBytes _) _ ?_
      rw [declared_lengthBytes (by omega) (by omega)]
      exact accept_eq_error_iff.2 (.inr ⟨n, m, rfl, hmax, hm, rfl⟩)
  · rintro rfl
    exact cuts_split max bs

end Frame

end Tandem
