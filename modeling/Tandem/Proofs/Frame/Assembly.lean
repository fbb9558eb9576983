import Tandem.Frame.Assembly
import Tandem.Proofs.Frame.Splitting

/-!
# An assembly cuts as `split` does

An assembly that has taken the beginning of a frame (`Assembly.Took`) takes the next piece exactly
as `split` goes on with it: it gives out a body or an error if and only if there is one in the bytes
so far (`Took.split_take`).  As pieces are not longer than wanted, none of them reaches beyond the
header or the body that it belongs to.
-/

namespace Tandem

namespace Frame

/-- The number of bytes that the beginning of a frame lacks of its header or, if the header is
there, of its body. -/
def missing (bs : Bytes) : Nat :=
  if bs.length < 4 then 4 - bs.length else 4 + (declared (bs.take 4)).toNat - bs.length

namespace Assembly

/-- Nothing but these bytes, the beginning of a frame, has been taken and not been given out. -/
def Took (max : Option Nat) : Assembly → Bytes → Prop
  | header got, bs => bs = got ∧ got.length < 4
  | body length got, bs =>
    ∃ head : Bytes, bs = head ++ got ∧ head.length = 4 ∧
      accept max (declared head) = .ok length ∧ got.length < length

variable {max : Option Nat} {a : Assembly} {bs piece : Bytes}

theorem took_start (max : Option Nat) : start.Took max [] := ⟨rfl, by decide⟩

theorem Took.split_eq (h : a.Took max bs) : split max bs = ⟨[], none, bs⟩ := by
  cases a with
  | header got =>
    obtain ⟨rfl, h4⟩ := h
    exact split_of_short h4
  | body length got =>
    obtain ⟨head, rfl, h4, hn, hl⟩ := h
    exact split_incomplete h4 hn hl

theorem Took.wanted_eq (h : a.Took max bs) : a.wanted = missing bs := by
  cases a with
  | header got =>
    obtain ⟨rfl, h4⟩ := h
    rw [missing, if_pos h4]
    rfl
  | body length got =>
    obtain ⟨head, rfl, h4, hn, -⟩ := h
    obtain ⟨hd, -⟩ := (accept_eq_ok_iff (declared_bounds head).2).1 hn
    have hlen : (head ++ got).length = 4 + got.length := by simp [h4]
    rw [missing, if_neg (by omega), List.take_left' h4, hd, hlen, Int.toNat_natCast, wanted]
    omega

theorem Took.wanted_pos (h : a.Took max bs) : 0 < a.wanted := by
  cases a with
  | header got => exact Nat.sub_pos_of_lt h.2
  | body length got =>
    obtain ⟨-, -, -, -, hl⟩ := h
    exact Nat.sub_pos_of_lt hl

/-- What taking a piece must give after the beginning of a frame. -/
def Continues (max : Option Nat) (bs : Bytes) :
    Except FramingError (Option Bytes) × Assembly → Prop
  | (.ok none, a) => a.Took max bs
  | (.ok (some whole), a) => split max bs = ⟨[whole], none, []⟩ ∧ a = start
  | (.error e, a) => split max bs = ⟨[], some e, bs⟩ ∧ a = header bs

/-- **Taking a piece** gives what `split` finds in the bytes so far. -/
theorem Took.split_take (h : a.Took max bs) (hp : piece.length ≤ a.wanted) :
    Continues max (bs ++ piece) (a.take max piece) := by
  cases a with
  | header got =>
    obtain ⟨rfl, h4⟩ := h
    have hp : piece.length ≤ 4 - bs.length := hp
    by_cases hlt : (bs ++ piece).length < 4
    · simp only [take, headerLength, hlt, ↓reduceIte]
      exact ⟨rfl, hlt⟩
    · have hlen : (bs ++ piece).length = 4 := by
        simp only [List.length_append] at hlt ⊢
        omega
      simp only [take, headerLength, hlt, ↓reduceIte]
      split
      · next e he =>
        have := split_refused hlen [] he
        rw [List.append_nil] at this
        exact ⟨this, rfl⟩
      · next he =>
        have := split_single hlen [] he
        rw [List.append_nil] at this
        exact ⟨this, rfl⟩
      · next n hne he =>
        refine ⟨bs ++ piece, (List.append_nil _).symm, hlen, he, ?_⟩
        exact Nat.pos_of_ne_zero hne
  | body length got =>
    obtain ⟨head, rfl, h4, hn, hl⟩ := h
    have hp : piece.length ≤ length - got.length := hp
    simp only [take]
    split_ifs with hlt
    · exact ⟨head, List.append_assoc _ _ _, h4, hn, hlt⟩
    · have hlen : (got ++ piece).length = length := by
        simp only [List.length_append] at hlt ⊢
        omega
      have := split_single h4 (got ++ piece) (by rw [hlen]; exact hn)
      rw [← List.append_assoc] at this
      exact ⟨this, rfl⟩

end Assembly

end Frame

end Tandem
