import Tandem.Proofs.Handshake

/-!
# When a client connects

A client connects exactly if the stream begins with a token message and the first datagram is a
greeting with the same token (`Client.Welcomes`).  Otherwise it gives up, and for each way in which
the server can fail it says what was missing or wrong (`Client.Refusal`).  These are all cases
(`Client.welcomes_or_refusal`), whatever the server sends, in whatever pieces, and however it goes
on (`Client.connects_exactly`).
-/

namespace Tandem

namespace Handshake

theorem exists_encodeToken {bs : Bytes} (hlen : bs.length = tokenLength)
    (hversion : bs.head? = some version) : ∃ t, encodeToken t = bs := by
  cases bs with
  | nil => cases hlen
  | cons v rest =>
    obtain rfl := Option.some.inj hversion
    refine ⟨Scalar.decode .i64 rest, ?_⟩
    rw [encodeToken, Scalar.encode_decode (Nat.succ.inj hlen)]

theorem takeToken_of_version {bs : Bytes} {v : UInt8} (hhead : bs.head? = some v)
    (hv : v ≠ version) : (takeToken bs).1 = .error (.unsupportedVersion v) := by
  cases bs with
  | nil => cases hhead
  | cons w rest =>
    obtain rfl := Option.some.inj hhead
    rw [takeToken_cons, if_neg hv]

theorem takeHello_of_short {bs : Bytes} {room : Nat} (hroom : helloLength ≤ room)
    (h : bs.length < helloLength) :
    (takeHello (bs.take room)).1 = .error (.shortHello bs.length) := by
  have hwhole : bs.take room = bs := List.take_of_length_le (by omega)
  rw [hwhole, takeHello_eq, if_neg (Nat.not_le.2 h)]

/-- **A greeting has the token** that it begins with. -/
theorem takeHello_of_long {bs : Bytes} {room : Nat} (hroom : helloLength ≤ room)
    (h : helloLength ≤ bs.length) :
    ∃ t : Token, t.encode = bs.take 8 ∧ (takeHello (bs.take room)).1 = .ok t := by
  have hlen : helloLength ≤ (bs.take room).length := by
    rw [List.length_take]
    exact Nat.le_min.2 ⟨hroom, h⟩
  have height : 8 ≤ helloLength := by decide
  have hbytes : (bs.take 8).length = ScalarKind.i64.size :=
    List.length_take_of_le (Nat.le_trans height h)
  refine ⟨Scalar.decode .i64 (bs.take 8), Scalar.encode_decode hbytes, ?_⟩
  rw [takeHello_eq, if_pos hlen, List.take_take, Nat.min_eq_left (Nat.le_trans height hroom)]

end Handshake

namespace Client

/-- The bytes of the stream that come in time. -/
def Network.stream (n : Network) : Bytes := n.pieces.flatten

/-- The first datagram that comes.  That an earlier one found nobody is no datagram. -/
def firstDatagram? : List Arrival → Option Bytes
  | [] => none
  | .datagram bs :: _ => some bs
  | .failed _ :: arrivals => firstDatagram? arrivals

/-- The server can be reached and the client's own sockets work. -/
structure Network.IsReachable (n : Network) : Prop where
  reachable : n.unreachable = none
  socket : n.socketFault = none
  echo : n.echoFault = none
  arrivals : ∀ f, .failed f ∈ n.arrivals → f.isBounce = true

/-- All that comes from the server in time begins with a token message. -/
structure Network.HasToken (n : Network) : Prop where
  length_le : Handshake.tokenLength ≤ n.stream.length
  version : n.stream.head? = some Handshake.version

/-- The server sends a token message, and the first datagram is a greeting with the same token. -/
structure Welcomes (n : Network) : Prop extends n.HasToken where
  greets : ∃ d, firstDatagram? n.arrivals = some d ∧ Handshake.helloLength ≤ d.length ∧
    d.take 8 = (n.stream.drop 1).take 8

/-- Why a client gives up. -/
inductive Refusal (n : Network) : ConnectError → Prop
  /-- the token does not come in time -/
  | noToken (hshort : n.stream.length < Handshake.tokenLength) (hending : n.ending = .silent) :
      Refusal n (.refused "timeout waiting for auth token from server" .timedOut)
  /-- the stream ends within the token -/
  | closed (hshort : n.stream.length < Handshake.tokenLength) (hending : n.ending = .closed) :
      Refusal n (.establishment "receiving the auth token failed" .disconnecting
        (some .unexpectedEnd))
  | failed {f : Fault} (hshort : n.stream.length < Handshake.tokenLength)
      (hending : n.ending = .failed f) : Refusal n (.failed "receiving the auth token failed" f)
  | version {v : UInt8} (hlen : Handshake.tokenLength ≤ n.stream.length)
      (hhead : n.stream.head? = some v) (hv : v ≠ Handshake.version) :
      Refusal n (.refused
        ("malformed auth token: " ++ (Handshake.Malformed.unsupportedVersion v).message)
        .protocolViolation)
  /-- no greeting comes in time -/
  | noHello (htoken : n.HasToken) (hnone : firstDatagram? n.arrivals = none) :
      Refusal n (.refused "timeout waiting for UDP acknowledgement" .timedOut)
  | shortHello {d : Bytes} (htoken : n.HasToken) (hfirst : firstDatagram? n.arrivals = some d)
      (hshort : d.length < Handshake.helloLength) :
      Refusal n (.refused
        ("malformed UDP acknowledgement: " ++ (Handshake.Malformed.shortHello d.length).message)
        .protocolViolation)
  | otherToken {d : Bytes} (htoken : n.HasToken) (hfirst : firstDatagram? n.arrivals = some d)
      (hlen : Handshake.helloLength ≤ d.length) (hother : d.take 8 ≠ (n.stream.drop 1).take 8) :
      Refusal n (.refused "auth token mismatch in UDP acknowledgement" .protocolViolation)

variable {n : Network} {e : ConnectError} {t : Token}

/-- **There is no other way** than to be welcomed or refused. -/
theorem welcomes_or_refusal (n : Network) : Welcomes n ∨ ∃ e, Refusal n e := by
  rcases Nat.lt_or_ge n.stream.length Handshake.tokenLength with hshort | hlen
  · refine .inr ?_
    cases hending : n.ending with
    | silent => exact ⟨_, .noToken hshort hending⟩
    | closed => exact ⟨_, .closed hshort hending⟩
    | failed f => exact ⟨_, .failed hshort hending⟩
  · have hpos : 0 < n.stream.length := Nat.lt_of_lt_of_le (by decide) hlen
    have hhead : n.stream.head? = some n.stream[0] := by
      rw [List.head?_eq_getElem?, List.getElem?_eq_getElem hpos]
    by_cases hv : n.stream[0] = Handshake.version
    · have htoken : n.HasToken := ⟨hlen, hv ▸ hhead⟩
      cases hfirst : firstDatagram? n.arrivals with
      | none => exact .inr ⟨_, .noHello htoken hfirst⟩
      | some d =>
        rcases Nat.lt_or_ge d.length Handshake.helloLength with hshort | hhello
        · exact .inr ⟨_, .shortHello htoken hfirst hshort⟩
        · by_cases hsame : d.take 8 = (n.stream.drop 1).take 8
          · exact .inl ⟨htoken, d, hfirst, hhello, hsame⟩
          · exact .inr ⟨_, .otherToken htoken hfirst hhello hsame⟩
    · exact .inr ⟨_, .version hlen hhead hv⟩

/-! ### Waiting for the token -/

theorem gather_eq_none {k : Nat} {pieces : List Bytes} (h : pieces.flatten.length < k) :
    gather k pieces = none := by
  cases hgather : gather k pieces with
  | none => rfl
  | some r =>
    obtain ⟨bs, rest⟩ := r
    obtain ⟨hlen, hflatten⟩ := flatten_of_gather hgather
    rw [hflatten, List.length_append] at h
    omega

/-- **However the stream is cut**, its first bytes can be gathered if there are so many. -/
theorem exists_gather {k : Nat} {pieces : List Bytes} (h : k ≤ pieces.flatten.length) :
    ∃ rest, gather k pieces = some (pieces.flatten.take k, rest) ∧
      rest.flatten = pieces.flatten.drop k := by
  have hsome : ∃ r, gather k pieces = some r := by
    fun_induction gather k pieces with
    | case1 pieces => exact ⟨_, rfl⟩
    | case2 => cases h
    | case3 k piece pieces hle ih =>
      rw [List.flatten_cons, List.length_append] at h
      obtain ⟨r, hr⟩ := ih (by omega)
      rw [hr]
      exact ⟨_, rfl⟩
    | case4 k piece pieces hgt => exact ⟨_, rfl⟩
  obtain ⟨⟨bs, rest⟩, hgather⟩ := hsome
  obtain ⟨hlen, hflatten⟩ := flatten_of_gather hgather
  refine ⟨rest, ?_, ?_⟩
  · rw [hgather, hflatten, List.take_left' hlen]
  · rw [hflatten, List.drop_left' hlen]

theorem awaitToken_of_gather {pieces rest : List Bytes} {bs : Bytes}
    (h : gather Handshake.tokenLength pieces = some (bs, rest)) (ending : StreamEnd) :
    awaitToken pieces ending = .ok (bs, rest) := by
  simp only [awaitToken, h]

/-! ### Waiting for the greeting -/

/-- Only the first datagram matters for the greeting. -/
theorem awaitHello_eq {arrivals : List Arrival}
    (h : ∀ f, .failed f ∈ arrivals → f.isBounce = true) (t : Token) :
    awaitHello t arrivals = awaitHello t ((firstDatagram? arrivals).map .datagram).toList := by
  induction arrivals with
  | nil => rfl
  | cons a arrivals ih =>
    cases a with
    | datagram bs => rfl
    | failed f =>
      rw [awaitHello, if_pos (h f List.mem_cons_self), firstDatagram?]
      exact ih fun f' hf' => h f' (List.mem_cons_of_mem _ hf')

theorem awaitHello_of_short {d : Bytes} (h : d.length < Handshake.helloLength) (t : Token) :
    awaitHello t [.datagram d] = .error (.refused
      ("malformed UDP acknowledgement: " ++ (Handshake.Malformed.shortHello d.length).message)
      .protocolViolation) := by
  have hroom : Handshake.helloLength ≤ helloRoom := by decide
  rw [awaitHello, Handshake.takeHello_of_short hroom h]

theorem awaitHello_of_long {d : Bytes} (h : Handshake.helloLength ≤ d.length) (t : Token) :
    awaitHello t [.datagram d] =
      if d.take 8 = t.encode then .ok ()
      else .error (.refused "auth token mismatch in UDP acknowledgement" .protocolViolation) := by
  have hroom : Handshake.helloLength ≤ helloRoom := by decide
  obtain ⟨u, hbytes, hu⟩ := Handshake.takeHello_of_long hroom h
  have hsame : u = t ↔ d.take 8 = t.encode := by
    rw [← hbytes]
    refine ⟨congrArg _, fun heq => ?_⟩
    rw [← u.decode_encode, heq, t.decode_encode]
  rw [awaitHello, hu]
  exact ite_congr (propext hsame) (fun _ => rfl) fun _ => rfl

/-! ### The handshake -/

theorem handshake_of_short (h : n.stream.length < Handshake.tokenLength) :
    handshake n = (match n.ending with
      | .silent => .error (.refused "timeout waiting for auth token from server" .timedOut)
      | .closed => .error (.failed "receiving the auth token failed" .unexpectedEnd)
      | .failed f => .error (.failed "receiving the auth token failed" f), none, []) := by
  have hgather : gather Handshake.tokenLength n.pieces = none := gather_eq_none h
  simp only [handshake, awaitToken, hgather]
  cases n.ending <;> rfl

theorem handshake_of_version {v : UInt8} (hlen : Handshake.tokenLength ≤ n.stream.length)
    (hhead : n.stream.head? = some v) (hv : v ≠ Handshake.version) :
    (handshake n).1 = .error (.refused
      ("malformed auth token: " ++ (Handshake.Malformed.unsupportedVersion v).message)
      .protocolViolation) := by
  obtain ⟨rest, hgather, -⟩ := exists_gather hlen
  have htake : (n.stream.take Handshake.tokenLength).head? = some v := by
    rw [List.head?_take, hhead]
    rfl
  simp only [handshake, awaitToken_of_gather hgather]
  rw [show n.pieces.flatten = n.stream from rfl, Handshake.takeToken_of_version htake hv]

/-- **With a token message**, it comes down to the greeting.  Nothing but the token message is taken
off the stream, and it is what was sent back. -/
theorem handshake_of_token (h : n.HasToken) (hn : n.IsReachable) :
    ∃ t : Token, ∃ rest, Handshake.encodeToken t = n.stream.take Handshake.tokenLength ∧
      t.encode = (n.stream.drop 1).take 8 ∧
      rest.flatten = n.stream.drop Handshake.tokenLength ∧
      handshake n =
        ((awaitHello t ((firstDatagram? n.arrivals).map .datagram).toList).map fun _ => t,
        some (n.stream.take Handshake.tokenLength), rest) := by
  obtain ⟨rest, hgather, hrest⟩ := exists_gather h.length_le
  have hlen : (n.stream.take Handshake.tokenLength).length = Handshake.tokenLength :=
    List.length_take_of_le h.length_le
  have hhead : (n.stream.take Handshake.tokenLength).head? = some Handshake.version := by
    rw [List.head?_take, h.version]
    rfl
  obtain ⟨t, ht⟩ := Handshake.exists_encodeToken hlen hhead
  refine ⟨t, rest, ht, ?_, hrest, ?_⟩
  · have hdrop := congrArg (List.drop 1) ht
    rw [List.drop_take] at hdrop
    exact hdrop
  · simp only [handshake, awaitToken_of_gather hgather, hn.echo, awaitHello_eq hn.arrivals]
    rw [show n.pieces.flatten = n.stream from rfl, ← ht, Handshake.takeToken_encodeToken]

/-! ### Connecting -/

variable {c : ClientConfig}

theorem connect_of_handshake (hc : c.check = .ok ()) (hn : n.IsReachable) :
    connect c n = match handshake n with
      | (.error e, echo, rest) => ⟨.error e, echo, rest, true⟩
      | (.ok t, echo, rest) =>
        ⟨.ok (Connection.create c.toEndpointConfig none t).start, echo, rest, false⟩ := by
  rcases hhandshake : handshake n with ⟨_ | _, _, _⟩ <;>
    simp only [connect, hc, hn.reachable, hn.socket, hhandshake]

/-- A client that is connected: it has the token that the stream began with, has sent these bytes
and no others back, and goes on right behind them. -/
structure Joined (c : ClientConfig) (n : Network) (o : Outcome) (x : Connection) : Prop where
  token : x.token.encode = (n.stream.drop 1).take 8
  started : x = (Connection.create c.toEndpointConfig none x.token).start
  echo : o.echo = some (n.stream.take Handshake.tokenLength)
  rest : o.rest.flatten = n.stream.drop Handshake.tokenLength
  isOpen : o.closed = false

theorem connect_of_welcomes (hc : c.check = .ok ()) (hn : n.IsReachable) (h : Welcomes n) :
    ∃ x, (connect c n).result = .ok x ∧ Joined c n (connect c n) x := by
  obtain ⟨t, rest, -, ht, hrest, hhandshake⟩ := handshake_of_token h.toHasToken hn
  obtain ⟨d, hfirst, hlen, hsame⟩ := h.greets
  have hconnect : connect c n = ⟨.ok (Connection.create c.toEndpointConfig none t).start,
      some (n.stream.take Handshake.tokenLength), rest, false⟩ := by
    rw [connect_of_handshake hc hn, hhandshake, hfirst]
    simp only [Option.map_some, Option.toList_some, awaitHello_of_long hlen, hsame, ← ht, if_true]
    rfl
  rw [hconnect]
  exact ⟨_, rfl, ht, rfl, rfl, hrest, rfl⟩

/-- **Every refusal** is what the client says when it gives up, and the stream is closed. -/
theorem connect_of_refusal (hc : c.check = .ok ()) (hn : n.IsReachable) (h : Refusal n e) :
    (connect c n).result = .error e ∧ (connect c n).closed = true := by
  have herror : (handshake n).1 = .error e →
      (connect c n).result = .error e ∧ (connect c n).closed = true := fun herr => by
    rw [connect_of_handshake hc hn]
    generalize handshake n = r at herr
    obtain ⟨r, echo, rest⟩ := r
    obtain rfl : r = .error e := herr
    exact ⟨rfl, rfl⟩
  -- where the token has come, it depends on the first datagram
  have hgreeting : n.HasToken → (∀ t : Token, t.encode = (n.stream.drop 1).take 8 →
      awaitHello t ((firstDatagram? n.arrivals).map .datagram).toList = .error e) →
      (handshake n).1 = .error e := fun htoken hawait => by
    obtain ⟨t, rest, -, ht, -, hhandshake⟩ := handshake_of_token htoken hn
    rw [hhandshake, hawait t ht]
    rfl
  apply herror
  cases h with
  | noToken hshort hending => rw [handshake_of_short hshort, hending]
  | closed hshort hending => rw [handshake_of_short hshort, hending]; rfl
  | failed hshort hending => rw [handshake_of_short hshort, hending]
  | version hlen hhead hv => exact handshake_of_version hlen hhead hv
  | noHello htoken hnone =>
    refine hgreeting htoken fun t _ => ?_
    rw [hnone]
    rfl
  | shortHello htoken hfirst hshort =>
    refine hgreeting htoken fun t _ => ?_
    rw [hfirst]
    exact awaitHello_of_short hshort t
  | otherToken htoken hfirst hlen hother =>
    refine hgreeting htoken fun t ht => ?_
    rw [hfirst]
    exact (awaitHello_of_long hlen t).trans (if_neg (ht ▸ hother))

/-- All calls of the handler, if things happen afterwards to the connection that was made.  The
handler is given to the connection when there is one. -/
def Outcome.calls (o : Outcome) (es : List Connection.Event) : List Call :=
  match o.result with
  | .ok x => (x.run es).dispatcher.calls
  | .error _ => []

/-- **A client connects exactly if it is welcomed** by a server that it can reach: nine bytes of the
stream come in time, the first of them is the version, and the first datagram, in time, has twelve
bytes or more and begins with the other eight.  Then it has this token and goes on right behind it.
Otherwise the handshake fails for the one cause that there is, the stream is closed and the handler
is never called. -/
theorem connects_exactly (hc : c.check = .ok ()) (hn : n.IsReachable) :
    ((∃ x, (connect c n).result = .ok x) ↔
      Handshake.tokenLength ≤ n.stream.length ∧ n.stream.head? = some Handshake.version ∧
        ∃ d, firstDatagram? n.arrivals = some d ∧ Handshake.helloLength ≤ d.length ∧
          d.take 8 = (n.stream.drop 1).take 8) ∧
      (∀ x, (connect c n).result = .ok x → Joined c n (connect c n) x) ∧
      (∀ e, (connect c n).result = .error e ↔ Refusal n e) ∧
      ∀ e, (connect c n).result = .error e →
        (∃ reason cause fault, e = .establishment reason cause fault) ∧
          (connect c n).closed = true ∧ ∀ es, (connect c n).calls es = [] := by
  have hwelcome : (∃ x, (connect c n).result = .ok x) ↔ Welcomes n := by
    refine ⟨fun ⟨x, hx⟩ => ?_, fun h => ?_⟩
    · rcases welcomes_or_refusal n with h | ⟨e, h⟩
      · exact h
      · rw [(connect_of_refusal hc hn h).1] at hx
        cases hx
    · obtain ⟨x, hx, -⟩ := connect_of_welcomes hc hn h
      exact ⟨x, hx⟩
  have hrefusal : ∀ e, (connect c n).result = .error e ↔ Refusal n e := by
    refine fun e => ⟨fun he => ?_, fun h => (connect_of_refusal hc hn h).1⟩
    rcases welcomes_or_refusal n with h | ⟨e', h⟩
    · obtain ⟨x, hx, -⟩ := connect_of_welcomes hc hn h
      rw [hx] at he
      cases he
    · rw [(connect_of_refusal hc hn h).1] at he
      exact Except.error.inj he ▸ h
  refine ⟨hwelcome.trans ⟨fun h => ⟨h.length_le, h.version, h.greets⟩,
    fun ⟨hlen, hversion, hgreets⟩ => ⟨⟨hlen, hversion⟩, hgreets⟩⟩, fun x hx => ?_, hrefusal,
    fun e he => ⟨?_, (connect_of_refusal hc hn ((hrefusal e).1 he)).2, fun es => ?_⟩⟩
  · obtain ⟨y, hy, hjoined⟩ := connect_of_welcomes hc hn (hwelcome.1 ⟨x, hx⟩)
    rw [hx] at hy
    exact Except.ok.inj hy ▸ hjoined
  · cases (hrefusal e).1 he <;> exact ⟨_, _, _, rfl⟩
  · rw [Outcome.calls, he]

/-- A server that sends the token in two pieces and one byte more, and then the greeting, after a
datagram of the client's that found nobody. -/
def Network.greeting : Network where
  unreachable := none
  socketFault := none
  pieces := [[0, 1, 2], [3, 4, 5, 6, 7, 8, 9]]
  ending := .silent
  echoFault := none
  arrivals := [.failed .connectionRefused, .datagram [1, 2, 3, 4, 5, 6, 7, 8, 0, 0, 0, 0]]

/-- Greeted, a client goes on at the tenth byte; without the greeting, it gives up. -/
theorem connects_exactly_greeting :
    (ClientConfig.ofAddress default).check = .ok () ∧ Network.greeting.IsReachable ∧
      (∃ x, (connect (.ofAddress default) .greeting).result = .ok x ∧
        x.token.encode = [1, 2, 3, 4, 5, 6, 7, 8] ∧
        (connect (.ofAddress default) .greeting).echo = some [0, 1, 2, 3, 4, 5, 6, 7, 8] ∧
        (connect (.ofAddress default) .greeting).rest.flatten = [9]) ∧
      (connect (.ofAddress default) { Network.greeting with arrivals := [] }).result =
        .error (.refused "timeout waiting for UDP acknowledgement" .timedOut) := by
  have hcheck : (ClientConfig.ofAddress default).check = .ok () := by decide
  have hgreeted : Network.greeting.IsReachable := ⟨rfl, rfl, rfl, fun f hf => by
    simp only [Network.greeting, List.mem_cons, Arrival.failed.injEq, reduceCtorEq,
      List.not_mem_nil, or_false] at hf
    exact hf ▸ rfl⟩
  have hmute : { Network.greeting with arrivals := [] }.IsReachable :=
    ⟨rfl, rfl, rfl, fun _ hf => absurd hf List.not_mem_nil⟩
  obtain ⟨hiff, hjoined, -⟩ := connects_exactly hcheck hgreeted
  obtain ⟨x, hx⟩ := hiff.2 ⟨by decide, rfl, _, rfl, by decide, rfl⟩
  obtain ⟨htoken, -, hecho, hrest, -⟩ := hjoined x hx
  exact ⟨hcheck, hgreeted, ⟨x, hx, htoken, hecho, hrest⟩,
    ((connects_exactly hcheck hmute).2.2.1 _).2 (.noHello ⟨by decide, rfl⟩ rfl)⟩

end Client

end Tandem
