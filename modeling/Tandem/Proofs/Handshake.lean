import Tandem.Client
import Tandem.Proofs.Scalar

/-!
# What a handshake leaves of the stream

A client takes the nine bytes of the token message off the stream and no byte more, however the
stream is cut into pieces; what is left goes on right behind them (`Client.connect_of_stream`).  For
a listener, a datagram echoes a token exactly if it is the token message, byte for byte
(`Handshake.tokenOfDatagram?_eq_some_iff`).
-/

namespace Tandem

namespace Handshake

@[simp] theorem length_encodeToken (t : Token) : (encodeToken t).length = tokenLength := by
  simp [encodeToken, tokenLength, ScalarKind.size]

/-- A byte that is not the version is used up; behind the version, eight bytes are, if they are
there. -/
theorem takeToken_cons (v : UInt8) (rest : Bytes) : takeToken (v :: rest) =
    if v = version then
      if rest.length < 8 then (.error (.tooShort 8 rest.length), 1)
      else (.ok (Scalar.decode .i64 (rest.take 8)), tokenLength)
    else (.error (.unsupportedVersion v), 1) := by
  have htoken : token (v :: rest) =
      if v = version then number rest else (.error (.unsupportedVersion v), rest) := by
    show (if v = version then number else throw (.unsupportedVersion v)) rest = _
    split_ifs <;> rfl
  rw [takeToken, Take.off, htoken]
  split_ifs with hv hshort
  · simp only [number, if_pos hshort, List.length_cons, Nat.add_sub_cancel_left]
  · have hused : rest.length + 1 - (rest.length - 8) = tokenLength := by
      rw [tokenLength]
      omega
    simp only [number, if_neg hshort, List.length_cons, List.length_drop, hused]
  · simp only [List.length_cons, Nat.add_sub_cancel_left]

theorem takeHello_eq (bs : Bytes) : takeHello bs =
    if helloLength ≤ bs.length then (.ok (Scalar.decode .i64 (bs.take 8)), 8)
    else (.error (.shortHello bs.length), 0) := by
  have hhello : hello bs =
      if helloLength ≤ bs.length then number bs else (.error (.shortHello bs.length), bs) := by
    show (if helloLength ≤ bs.length then number else throw (.shortHello bs.length)) bs = _
    split_ifs <;> rfl
  rw [takeHello, Take.off, hhello]
  split_ifs with hlong
  · have hroom : 8 ≤ bs.length := Nat.le_trans (by decide) hlong
    simp only [number, if_neg (Nat.not_lt.2 hroom), List.length_drop, Nat.sub_sub_self hroom]
  · simp only [Nat.sub_self]
/-- **Eight bytes behind the version** are a token, and nothing behind them is looked at. -/
theorem takeToken_append (t : Token) (rest : Bytes) :
    takeToken (encodeToken t ++ rest) = (.ok t, tokenLength) := by
  have hlen : (Scalar.encode t).length = 8 := Scalar.length_encode t
  have hlong : ¬ (Scalar.encode t ++ rest).length < 8 := by
    rw [List.length_append, hlen]
    omega
  rw [encodeToken, List.cons_append, takeToken_cons, if_pos rfl, if_neg hlong,
    List.take_left' hlen, Scalar.decode_encode]

theorem takeToken_encodeToken (t : Token) : takeToken (encodeToken t) = (.ok t, tokenLength) := by
  have h := takeToken_append t []
  rwa [List.append_nil] at h

@[simp] theorem tokenOfDatagram?_encodeToken (t : Token) :
    tokenOfDatagram? (encodeToken t) = some t := by
  simp only [tokenOfDatagram?, length_encodeToken, if_true, takeToken_encodeToken]
  rfl

theorem encodeToken_injective {t t' : Token} (h : encodeToken t = encodeToken t') : t = t' := by
  have htoken := congrArg tokenOfDatagram? h
  rw [tokenOfDatagram?_encodeToken, tokenOfDatagram?_encodeToken] at htoken
  exact Option.some.inj htoken

/-- **Nothing but the token message** of a token is an echo of it. -/
theorem tokenOfDatagram?_eq_some_iff {bs : Bytes} {t : Token} :
    tokenOfDatagram? bs = some t ↔ bs = encodeToken t := by
  constructor
  · intro h
    unfold tokenOfDatagram? at h
    split_ifs at h with hlen
    cases bs with
    | nil => cases hlen
    | cons v rest =>
      have hrest : rest.length = 8 := Nat.succ.inj hlen
      rw [takeToken_cons, if_neg (Nat.not_lt.2 (Nat.le_of_eq hrest.symm))] at h
      split_ifs at h with hv
      · obtain rfl := hv
        obtain rfl := Option.some.inj h
        rw [encodeToken, List.take_of_length_le (Nat.le_of_eq hrest), Scalar.encode_decode hrest]
      · cases h
  · rintro rfl
    exact tokenOfDatagram?_encodeToken t

end Handshake

namespace Client

theorem flatten_of_gather {n : Nat} {pieces rest : List Bytes} {bs : Bytes}
    (h : gather n pieces = some (bs, rest)) :
    bs.length = n ∧ pieces.flatten = bs ++ rest.flatten := by
  fun_induction gather n pieces generalizing bs rest with
  | case1 pieces =>
    cases h
    exact ⟨rfl, rfl⟩
  | case2 => cases h
  | case3 n piece pieces hle ih =>
    obtain ⟨⟨more, rest'⟩, hmore, heq⟩ := Option.map_eq_some_iff.1 h
    cases heq
    obtain ⟨hlen, hflatten⟩ := ih hmore
    refine ⟨by rw [List.length_append, hlen]; omega, ?_⟩
    rw [List.flatten_cons, hflatten, List.append_assoc]
  | case4 n piece pieces hgt =>
    cases h
    refine ⟨by rw [List.length_take]; omega, ?_⟩
    rw [List.flatten_cons, List.flatten_cons, ← List.append_assoc, List.take_append_drop]

theorem gather_of_awaitToken {pieces rest : List Bytes} {ending : StreamEnd} {bs : Bytes}
    (h : awaitToken pieces ending = .ok (bs, rest)) :
    gather Handshake.tokenLength pieces = some (bs, rest) := by
  unfold awaitToken at h
  split at h
  · next hgather =>
    cases h
    exact hgather
  · split at h <;> cases h

variable {n : Network} {t t' : Token} {frames more : Bytes}

theorem handshake_of_stream {echo : Option Bytes} {rest : List Bytes}
    (h : handshake n = (.ok t', echo, rest))
    (hstream : n.pieces.flatten ++ more = Handshake.encodeToken t ++ frames) :
    t' = t ∧ echo = some (Handshake.encodeToken t) ∧ rest.flatten ++ more = frames := by
  unfold handshake at h
  cases hawait : awaitToken n.pieces n.ending with
  | error e =>
    rw [hawait] at h
    cases h
  | ok result =>
    obtain ⟨bs, rest'⟩ := result
    obtain ⟨hlen, hflatten⟩ := flatten_of_gather (gather_of_awaitToken hawait)
    rw [hflatten, List.append_assoc] at hstream
    obtain ⟨rfl, hrest⟩ := List.append_inj hstream
      (hlen.trans (Handshake.length_encodeToken t).symm)
    simp only [hawait, Handshake.takeToken_encodeToken] at h
    cases hfault : n.echoFault with
    | some f =>
      rw [hfault] at h
      cases h
    | none =>
      rw [hfault] at h
      cases hhello : awaitHello t n.arrivals with
      | error e =>
        rw [hhello] at h
        cases h
      | ok _ =>
        rw [hhello] at h
        cases h
        exact ⟨rfl, rfl, hrest⟩

/-- **A client goes on right behind the token** that the stream began with: it has the token, has
echoed it, and nothing of what follows is lost. -/
theorem connect_of_stream {config : ClientConfig} {c : Connection}
    (hresult : (connect config n).result = .ok c)
    (hstream : n.pieces.flatten ++ more = Handshake.encodeToken t ++ frames) :
    c = (Connection.create config.toEndpointConfig none t).start ∧
      (connect config n).echo = some (Handshake.encodeToken t) ∧
      (connect config n).rest.flatten ++ more = frames := by
  unfold connect at hresult ⊢
  split at hresult
  · cases hresult
  · split at hresult
    · cases hresult
    · cases hresult
    · split at hresult
      · cases hresult
      · next t' echo rest hhandshake =>
        cases hresult
        obtain ⟨rfl, hecho, hrest⟩ := handshake_of_stream hhandshake hstream
        exact ⟨rfl, hecho, hrest⟩

end Client

end Tandem
