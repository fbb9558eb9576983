import Tandem.Kind
import Tandem.Proofs.Frame.Splitting

/-!
# Streams of whole frames

`Frame.encodeAll` puts bodies one behind the other, each in its frame.  Cutting such a stream gives
back the bodies up to the first one that is too long for the maximum (`split_encodeAll`).  Of a
stream that has come in part only, it gives the beginning of that (`split_isPrefix`), so that
nothing is ever found in a part that is not in the whole.
-/

namespace Tandem

namespace Frame

/-- Bodies one behind the other, each with its length in front. -/
def encodeAll (bodies : List Bytes) : Bytes := bodies.flatMap encode

@[simp] theorem encodeAll_nil : encodeAll [] = [] := rfl

theorem encodeAll_cons (body : Bytes) (bodies : List Bytes) :
    encodeAll (body :: bodies) = encode body ++ encodeAll bodies := List.flatMap_cons

theorem encodeAll_append (bodies more : List Bytes) :
    encodeAll (bodies ++ more) = encodeAll bodies ++ encodeAll more := List.flatMap_append

/-- The body is shorter than the maximum. -/
def isBelow (max : Option Nat) (body : Bytes) : Bool :=
  match max with
  | some m => body.length < m
  | none => true

variable {max : Option Nat} {body bs p q : Bytes} {bodies : List Bytes}

theorem encode_eq (h : body.length ≤ Kind.maxCount) :
    encode body = lengthBytes body.length ++ body := by
  have hlt : body.length < 2 ^ 32 := by
    have hmax : Kind.maxCount < 2 ^ 32 := by decide
    omega
  have hnat : (Scalar.ofInt .i32 body.length).toNat = body.length := by
    rw [Scalar.ofInt, BitVec.ofInt_natCast, BitVec.toNat_ofNat]
    exact Nat.mod_eq_of_lt hlt
  rw [encode, lengthBytes, Scalar.encode, hnat]
  rfl

theorem accept_of_isBelow (h : body.length ≤ Kind.maxCount) (hbelow : isBelow max body = true) :
    accept max (declared (lengthBytes body.length)) = .ok body.length := by
  have hlt : body.length < 2 ^ 31 := by
    have hmax : Kind.maxCount < 2 ^ 31 := by decide
    omega
  rw [declared_lengthBytes (by omega) (by omega)]
  refine (accept_eq_ok_iff (by omega)).2 ⟨rfl, hlt, fun m hm => ?_⟩
  subst hm
  exact of_decide_eq_true hbelow

theorem accept_of_not_isBelow (h : body.length ≤ Kind.maxCount)
    (hbelow : isBelow max body = false) :
    ∃ e, accept max (declared (lengthBytes body.length)) = .error e := by
  have hlt : body.length < 2 ^ 31 := by
    have hmax : Kind.maxCount < 2 ^ 31 := by decide
    omega
  cases max with
  | none => cases hbelow
  | some m =>
    rw [declared_lengthBytes (by omega) (by omega)]
    exact ⟨_, accept_eq_error_iff.2
      (.inr ⟨body.length, m, rfl, rfl, Nat.not_lt.1 (of_decide_eq_false hbelow), rfl⟩)⟩

theorem split_encode_append (h : body.length ≤ Kind.maxCount) (hbelow : isBelow max body = true)
    (bs : Bytes) :
    split max (encode body ++ bs) =
      { split max bs with bodies := body :: (split max bs).bodies } := by
  rw [encode_eq h]
  exact split_frame (length_lengthBytes _) body bs (accept_of_isBelow h hbelow)

theorem split_encode_refused (h : body.length ≤ Kind.maxCount) (hbelow : isBelow max body = false)
    (bs : Bytes) : ∃ e, split max (encode body ++ bs) = ⟨[], some e, encode body ++ bs⟩ := by
  obtain ⟨e, he⟩ := accept_of_not_isBelow h hbelow
  refine ⟨e, ?_⟩
  rw [encode_eq h, List.append_assoc]
  exact split_refused (length_lengthBytes _) (body ++ bs) he

/-- **A stream of whole frames** gives back the bodies in front of the first one that is too long;
there is an error if and only if there is such a body. -/
theorem split_encodeAll (h : ∀ body ∈ bodies, body.length ≤ Kind.maxCount) :
    (split max (encodeAll bodies)).bodies = bodies.takeWhile (isBelow max) ∧
      ((split max (encodeAll bodies)).error = none ↔ ∀ body ∈ bodies, isBelow max body = true) := by
  induction bodies with
  | nil => exact ⟨rfl, fun _ _ h => (List.not_mem_nil h).elim, fun _ => rfl⟩
  | cons body bodies ih =>
    obtain ⟨hbodies, herror⟩ := ih fun b hb => h b (List.mem_cons_of_mem _ hb)
    have hbody := h body List.mem_cons_self
    rw [encodeAll_cons]
    cases hbelow : isBelow max body with
    | true =>
      rw [split_encode_append hbody hbelow, List.takeWhile_cons_of_pos hbelow, hbodies]
      refine ⟨rfl, ?_⟩
      rw [List.forall_mem_cons, ← herror]
      exact ⟨fun he => ⟨hbelow, he⟩, And.right⟩
    | false =>
      obtain ⟨e, he⟩ := split_encode_refused hbody hbelow (encodeAll bodies)
      rw [he, List.takeWhile_cons_of_neg (by rw [hbelow]; exact Bool.false_ne_true)]
      refine ⟨rfl, (fun h => by cases h), fun hall => ?_⟩
      have htrue := hall body List.mem_cons_self
      rw [hbelow] at htrue
      cases htrue

/-- **A part of a stream** gives the beginning of what the whole gives, and no error that the whole
does not give at the same place. -/
theorem split_isPrefix (h : p <+: q) :
    (split max p).bodies <+: (split max q).bodies ∧
      ((split max p).error.isSome →
        (split max q).error.isSome ∧ (split max q).bodies = (split max p).bodies) := by
  obtain ⟨bs, rfl⟩ := h
  rw [split_append]
  cases (split max p).error with
  | some e => exact ⟨List.prefix_rfl, fun _ => ⟨rfl, rfl⟩⟩
  | none => exact ⟨List.prefix_append _ _, fun h => by cases h⟩

end Frame

end Tandem
