import Tandem.Proofs.Frame.Receiver

/-!
# Framing does not depend on how a stream is cut

A run of a receiver (`Receiver.Run`) takes a stream in pieces, each as long as the reader likes and
memory was offered for.  Between two calls the rest of the program does what it likes with its own
views.  Every run is where `split` is with the stream so far (`Run.tracks`), by induction on the
run; hence all runs over a stream give the same bodies and end with the same error
(`Run.split_stream`).
-/

namespace Tandem

open Memory (HeldBy Keeps)

namespace Frame

namespace Receiver

/-- What a run has taken of the stream, and what has come of it. -/
structure Progress where
  stream : Bytes
  bodies : List Bytes
  error : Option FramingError
  deriving DecidableEq, Repr

namespace Progress

def start : Progress := ⟨[], [], none⟩

/-- Takes the answer to a piece; a body shows what it has when it is handed out. -/
def after (p : Progress) (piece : Bytes) :
    Except FramingError (Option View) × Receiver × Memory → Progress
  | (.ok none, _) => ⟨p.stream ++ piece, p.bodies, p.error⟩
  | (.ok (some v), _, m) => ⟨p.stream ++ piece, p.bodies ++ [v.bytes m], p.error⟩
  | (.error e, _) => ⟨p.stream ++ piece, p.bodies, some e⟩

theorem after_error {p : Progress} {piece : Bytes} {e : FramingError}
    {answer : Except FramingError (Option View) × Receiver × Memory} (h : answer.1 = .error e) :
    p.after piece answer = ⟨p.stream ++ piece, p.bodies, some e⟩ := by
  obtain ⟨result, r, m⟩ := answer
  obtain rfl : result = .error e := h
  rfl

end Progress

/-- The body that a call hands out. -/
def handed : Except FramingError (Option View) → List View
  | .ok (some v) => [v]
  | _ => []

/-- A run of a receiver with a maximum; the views are those of the rest of the program.  As long as
no length was refused, the bytes that are reported are those of a piece that was put into the memory
offered for it; afterwards any number may be reported. -/
inductive Run (max : Option Nat) : Progress → Receiver → Memory → List View → Prop
  | start {m : Memory} {vs : List View} (h : m.HeldBy vs) : Run max .start (.create max) m vs
  | call {p : Progress} {r : Receiver} {m : Memory} {vs : List View} (h : Run max p r m vs)
      (piece : Bytes) (n : Nat) (hp : piece.length ≤ r.targetLength)
      (hn : p.error = none → n = piece.length) :
      Run max (p.after piece (r.call piece n m)) (r.call piece n m).2.1 (r.call piece n m).2.2
        (handed (r.call piece n m).1 ++ vs)
  | elsewhere {p : Progress} {r : Receiver} {m m' : Memory} {vs vs' : List View}
      (h : Run max p r m vs) (hk : Keeps r.views m m') (h' : m'.HeldBy (r.views ++ vs')) :
      Run max p r m' vs'

/-- The receiver is where `split` is with the stream so far. -/
inductive Tracks (max : Option Nat) : Progress → Receiver → Memory → List View → Prop
  | waiting {s : Bytes} {bodies : List Bytes} {rest : Bytes} {r : Receiver} {m : Memory}
      {vs : List View} (hs : split max s = ⟨bodies, none, rest⟩) (hmax : r.max = max)
      (hw : r.Waiting) (ht : (r.assembly m).Took max rest) (h : m.HeldBy (r.views ++ vs)) :
      Tracks max ⟨s, bodies, none⟩ r m vs
  | refused {s : Bytes} {bodies : List Bytes} {rest : Bytes} {e : FramingError} {r : Receiver}
      {m : Memory} {vs : List View} (hs : split max s = ⟨bodies, some e, rest⟩) (hr : r.Refused e)
      (h : m.HeldBy vs) : Tracks max ⟨s, bodies, some e⟩ r m vs

variable {max : Option Nat} {p : Progress} {r : Receiver} {m m' : Memory} {vs vs' : List View}
  {piece : Bytes} {n : Nat}

theorem assembly_eq_of_keeps (hk : Keeps r.views m m') : r.assembly m' = r.assembly m := by
  obtain ⟨phase, max⟩ := r
  cases phase with
  | header bs filled => rfl
  | body v filled =>
    have hv : v.bytes m' = v.bytes m := hk.bytes_eq List.mem_cons_self
    simp only [assembly, hv]

theorem tracks_start (h : m.HeldBy vs) : Tracks max .start (.create max) m vs :=
  .waiting (split_nil max) rfl (waiting_create max) (Assembly.took_start max) h

theorem tracks_of_answers {s rest : Bytes} {bodies : List Bytes}
    {taken : Except FramingError (Option Bytes) × Assembly}
    {answer : Except FramingError (Option View) × Receiver × Memory}
    (hs : split max s = ⟨bodies, none, rest⟩) (hc : Assembly.Continues max (rest ++ piece) taken)
    (ha : Answers vs max m taken answer) :
    Tracks max (Progress.after ⟨s, bodies, none⟩ piece answer) answer.2.1 answer.2.2
      (handed answer.1 ++ vs) := by
  have happ : split max (s ++ piece) =
      { split max (rest ++ piece) with
        bodies := bodies ++ (split max (rest ++ piece)).bodies } := by
    rw [split_append, hs]
  obtain ⟨out, a⟩ := taken
  obtain ⟨result, r', m'⟩ := answer
  cases out with
  | error e =>
    cases result with
    | ok out => exact ha.elim
    | error e' =>
      obtain ⟨rfl, -, hr, h, -⟩ := ha
      rw [hc.1, List.append_nil] at happ
      exact .refused happ hr h
  | ok body =>
    cases body with
    | none =>
      match result with
      | .ok none =>
        obtain ⟨hmax, hw, rfl, h, -⟩ := ha
        rw [hc.split_eq, List.append_nil] at happ
        exact .waiting happ hmax hw hc h
    | some body =>
      match result with
      | .ok (some v) =>
        obtain ⟨rfl, rfl, h, -⟩ := ha
        rw [hc.1] at happ
        exact .waiting happ rfl (waiting_create max) (Assembly.took_start max) h

/-- **A call** leaves the receiver where `split` is. -/
theorem Tracks.call (h : Tracks max p r m vs) (hp : piece.length ≤ r.targetLength)
    (hn : p.error = none → n = piece.length) :
    Tracks max (p.after piece (r.call piece n m)) (r.call piece n m).2.1 (r.call piece n m).2.2
      (handed (r.call piece n m).1 ++ vs) := by
  cases h with
  | waiting hs hmax hw ht h =>
    obtain rfl := hn rfl
    have ha := call_answers hw h hp
    rw [hmax] at ha
    rw [hw.targetLength_eq h] at hp
    exact tracks_of_answers hs (ht.split_take hp) ha
  | @refused s bodies rest e _ _ _ hs hr h =>
    have hpiece : piece = [] := by
      rw [hr.targetLength_eq] at hp
      exact List.length_eq_zero_iff.1 (Nat.le_zero.1 hp)
    obtain ⟨he, hr', -, hm⟩ := call_refused hr hp n m
    rw [Progress.after_error he, he, hm, hpiece, List.append_nil]
    rw [hpiece] at hr'
    exact .refused hs hr' h

theorem Tracks.elsewhere (h : Tracks max p r m vs) (hk : Keeps r.views m m')
    (h' : m'.HeldBy (r.views ++ vs')) : Tracks max p r m' vs' := by
  cases h with
  | waiting hs hmax hw ht h =>
    rw [← assembly_eq_of_keeps hk] at ht
    exact .waiting hs hmax hw ht h'
  | refused hs hr h =>
    rw [hr.views_eq] at h'
    exact .refused hs hr h'

/-- **Every run** is where `split` is with the stream so far. -/
theorem Run.tracks (h : Run max p r m vs) : Tracks max p r m vs := by
  induction h with
  | start h => exact tracks_start h
  | call _ piece n hp hn ih => exact ih.call hp hn
  | elsewhere _ hk h' ih => exact ih.elsewhere hk h'

/-- **Framing is independent of how the stream is cut.**  A run gives the bodies and the error that
`split` finds in the stream; the bytes behind a length that was refused are not looked at.  Until
then memory is offered for what is missing of the current header or body, at least a byte of it.
A length that was refused is refused by every later call. -/
theorem Run.split_stream (h : Run max p r m vs) :
    ∃ rest,
      (∀ unread, (p.error = none → unread = []) →
        split max (p.stream ++ unread) = ⟨p.bodies, p.error, rest ++ unread⟩ ∧
          Cuts max (p.stream ++ unread) ⟨p.bodies, p.error, rest ++ unread⟩) ∧
      (p.error = none →
        r.targetLength = missing rest ∧ 0 < r.targetLength ∧ r.isOverrun = false) ∧
      ∀ e, p.error = some e → ∀ piece n, piece.length ≤ r.targetLength →
        (r.call piece n m).1 = .error e := by
  cases h.tracks with
  | @waiting s bodies rest _ _ _ hs hmax hw ht hv =>
    refine ⟨rest, ?_, ?_, ?_⟩
    · intro unread hu
      rw [hu rfl, List.append_nil, List.append_nil]
      exact ⟨hs, cuts_iff.2 hs⟩
    · intro _
      have htarget := hw.targetLength_eq hv
      exact ⟨htarget.trans ht.wanted_eq, htarget ▸ ht.wanted_pos, hw.not_isOverrun⟩
    · intro e he
      cases he
  | @refused s bodies rest e _ _ _ hs hr hv =>
    refine ⟨rest, ?_, ?_, ?_⟩
    · intro unread _
      have happ : split max (s ++ unread) = ⟨bodies, some e, rest ++ unread⟩ := by
        rw [split_append, hs]
      exact ⟨happ, cuts_iff.2 happ⟩
    · intro he
      cases he
    · intro e' he piece n hp
      cases he
      exact (call_refused hr hp n m).1

/-- A body of two bytes, an empty one and a negative length, in pieces that cut both headers and the
first body, followed by a byte that is not looked at. -/
theorem split_stream_in_pieces :
    ∃ p r m vs, Run (some 9) p r m vs ∧ p.bodies = [[7, 8], []] ∧
      p.error = some (.negativeLength (-2)) ∧
      (split (some 9) [0, 0, 0, 2, 7, 8, 0, 0, 0, 0, 255, 255, 255, 254, 5]).bodies = p.bodies ∧
      (r.call [] 0 m).1 = .error (.negativeLength (-2)) := by
  have h₀ : Run (some 9) .start (.create (some 9)) .initial [] :=
    .start Memory.wellFormed_initial.heldBy_nil
  have h₁ := h₀.call [0] 1 (by decide) (fun _ => rfl)
  have h₂ := h₁.call [0, 0, 2] 3 (by decide) (fun _ => rfl)
  have h₃ := h₂.call [7] 1 (by decide) (fun _ => rfl)
  have h₄ := h₃.call [8] 1 (by decide) (fun _ => rfl)
  have h₅ := h₄.call [0, 0, 0, 0] 4 (by decide) (fun _ => rfl)
  have h₆ := h₅.call [255, 255] 2 (by decide) (fun _ => rfl)
  have h₇ := h₆.call [255, 254] 2 (by decide) (fun _ => rfl)
  have h₈ := h₇.call [] 3 (by decide) (fun he => absurd he (by decide))
  obtain ⟨rest, hsplit, -, hlate⟩ := h₈.split_stream
  have := (hsplit [5] (fun he => absurd he (by decide))).1
  refine ⟨_, _, _, _, h₈, by decide, by decide, ?_, ?_⟩
  · exact congrArg Cut.bodies this
  · exact hlate _ (by decide) [] 0 (by decide)

end Receiver

end Frame

end Tandem
