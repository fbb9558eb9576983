import Tandem.Frame.Receiver
import Tandem.Proofs.Frame.Assembly
import Tandem.Proofs.View

/-!
# A receiver puts frames together in shared memory

A call offers memory for the next piece, has it filled and takes note of the bytes that came.  A
receiver that waits for bytes (`Receiver.Waiting`) and has got as far as an assembly answers a call
as the assembly takes the piece (`call_answers`); the array of the body that is being received is
its own the whole time.  A receiver that has refused a length refuses it again whatever it is told
(`call_refused`).
-/

namespace Tandem

open Memory (HeldBy Keeps)

namespace Frame

namespace Receiver

/-- The views that a receiver holds. -/
def views (r : Receiver) : List View :=
  match r.phase with
  | .header .. => []
  | .body v _ => [v]

/-- What has come of the current frame. -/
def assembly (r : Receiver) (m : Memory) : Assembly :=
  match r.phase with
  | .header bs filled => .header (bs.take filled)
  | .body v filled => .body v.length ((v.bytes m).take filled)

/-- There is something missing of the current header or body. -/
def Waiting (r : Receiver) : Prop :=
  match r.phase with
  | .header bs filled => bs.length = 4 ∧ filled < 4
  | .body v filled => filled < v.length

/-- The current header is complete, and its length was refused. -/
def Refused (r : Receiver) (e : FramingError) : Prop :=
  ∃ bs filled, r.phase = .header bs filled ∧ bs.length = 4 ∧ 4 ≤ filled ∧
    accept r.max (declared bs) = .error e

/-- One call: memory is offered, `piece` is put into it and `n` bytes are reported. -/
def call (r : Receiver) (piece : Bytes) (n : Nat) (m : Memory) :
    Except FramingError (Option View) × Receiver × Memory :=
  let (r, m) := r.prepare m
  let (r, m) := r.place piece m
  r.report n m

/-- A receiver answers as an assembly does; `vs` are the views beside it. -/
def Answers (vs : List View) (max : Option Nat) (m : Memory) :
    Except FramingError (Option Bytes) × Assembly →
      Except FramingError (Option View) × Receiver × Memory → Prop
  | (.ok none, a), (.ok none, r, m') =>
    r.max = max ∧ r.Waiting ∧ r.assembly m' = a ∧ m'.HeldBy (r.views ++ vs) ∧ Keeps vs m m'
  | (.ok (some body), _), (.ok (some v), r, m') =>
    r = .create max ∧ v.bytes m' = body ∧ m'.HeldBy (v :: vs) ∧ Keeps vs m m'
  | (.error e, _), (.error e', r, m') =>
    e' = e ∧ r.max = max ∧ r.Refused e ∧ m'.HeldBy vs ∧ Keeps vs m m'
  | _, _ => False

variable {r : Receiver} {m : Memory} {vs : List View} {piece : Bytes} {e : FramingError}

theorem waiting_create (max : Option Nat) : (create max).Waiting := ⟨rfl, by decide⟩

theorem Refused.views_eq (h : r.Refused e) : r.views = [] := by
  obtain ⟨bs, filled, hp, -⟩ := h
  simp [views, hp]

theorem Refused.targetLength_eq (h : r.Refused e) : r.targetLength = 0 := by
  obtain ⟨bs, filled, hp, h4, hf, -⟩ := h
  simp only [targetLength, hp]
  omega

theorem Waiting.targetLength_eq (hw : r.Waiting) (h : m.HeldBy (r.views ++ vs)) :
    r.targetLength = (r.assembly m).wanted := by
  obtain ⟨phase, max⟩ := r
  cases phase with
  | header bs filled =>
    obtain ⟨h4, hf⟩ := hw
    have hl : (bs.take filled).length = filled := List.length_take_of_le (by omega)
    simp only [targetLength, assembly, Assembly.wanted, headerLength, hl, h4]
  | body v filled =>
    have hf : filled < v.length := hw
    have hb := h.length_bytes (v := v) List.mem_cons_self
    have hl : ((v.bytes m).take filled).length = filled := List.length_take_of_le (by omega)
    simp only [targetLength, assembly, Assembly.wanted, hl]

theorem Waiting.not_isOverrun (hw : r.Waiting) : r.isOverrun = false := by
  obtain ⟨phase, max⟩ := r
  cases phase with
  | header bs filled =>
    obtain ⟨h4, hf⟩ := hw
    simp only [isOverrun, decide_eq_false_iff_not]
    omega
  | body v filled =>
    have hf : filled < v.length := hw
    simp only [isOverrun, decide_eq_false_iff_not]
    omega

/-! ### Calls during a header -/

section Header

variable {bs : Bytes} {filled : Nat} {max : Option Nat}

theorem call_header (bs : Bytes) (filled : Nat) (max : Option Nat) (piece : Bytes) (n : Nat)
    (m : Memory) :
    call ⟨.header bs filled, max⟩ piece n m =
      report ⟨.header (bs.splice filled piece) filled, max⟩ n m := rfl

theorem header_answers (h4 : bs.length = 4) (hf : filled < 4) (h : m.HeldBy vs)
    (hp : piece.length ≤ 4 - filled) :
    Answers vs max m (Assembly.take max (.header (bs.take filled)) piece)
      (call ⟨.header bs filled, max⟩ piece piece.length m) := by
  have hsplice : (bs.splice filled piece).length = 4 := by
    rw [Bytes.length_splice_eq_max (by omega)]
    omega
  have htake : (bs.splice filled piece).take (filled + piece.length) = bs.take filled ++ piece :=
    Bytes.take_splice_add (by omega)
  have hgot : (bs.take filled ++ piece).length = filled + piece.length := by
    simp [List.length_take_of_le (show filled ≤ bs.length by omega)]
  rw [call_header]
  by_cases hlt : filled + piece.length < 4
  · simp only [Assembly.take, report, headerLength, hgot, hlt, ↓reduceIte]
    exact ⟨rfl, ⟨hsplice, hlt⟩, congrArg Assembly.header htake, h, .refl vs m⟩
  · have hwhole : bs.take filled ++ piece = bs.splice filled piece := by
      rw [← htake, List.take_of_length_le (by omega)]
    simp only [Assembly.take, report, headerLength, hgot, hlt, ↓reduceIte]
    rw [hwhole]
    cases ha : accept max (declared (bs.splice filled piece)) with
    | error e =>
      exact ⟨rfl, rfl, ⟨_, _, rfl, hsplice, Nat.le_of_not_lt hlt, ha⟩, h, .refl vs m⟩
    | ok length =>
      cases length with
      | zero =>
        obtain ⟨hc, kc⟩ := View.held_create h 0
        exact ⟨rfl, View.bytes_create 0 m, hc, kc⟩
      | succ k =>
        obtain ⟨hc, kc⟩ := View.held_create h (k + 1)
        obtain ⟨hs, ks⟩ := View.held_setLength hc (k + 1)
        exact ⟨rfl, Nat.succ_pos k, rfl, hs, kc.trans ks⟩

end Header

/-! ### Calls during a body -/

section Body

variable {v : View} {filled : Nat} {max : Option Nat}

theorem call_body (v : View) (filled : Nat) (max : Option Nat) (piece : Bytes) (n : Nat)
    (m : Memory) :
    call ⟨.body v filled, max⟩ piece n m =
      report ⟨.body ((v.own m).1.write filled piece (v.own m).2).1 filled, max⟩ n
        ((v.own m).1.write filled piece (v.own m).2).2 := rfl

theorem body_answers (hf : filled < v.length) (h : m.HeldBy (v :: vs))
    (hp : piece.length ≤ v.length - filled) :
    Answers vs max m (Assembly.take max (.body v.length ((v.bytes m).take filled)) piece)
      (call ⟨.body v filled, max⟩ piece piece.length m) := by
  obtain ⟨hc, -⟩ := View.continues_own h
  have hcap := hc.held.le_capacity List.mem_cons_self
  have hlen := h.length_bytes List.mem_cons_self
  have hfit : filled + piece.length ≤ (v.own m).1.capacity (v.own m).2 := by
    have := hc.length_eq
    omega
  obtain ⟨hw, kw⟩ := View.held_write hc.held filled piece
  have hl := View.length_write hc.held filled piece
  have hb := View.bytes_write hc.held (Nat.le_trans hfit (View.le_capacity_own hc.held))
  rw [hc.length_eq] at hl hb
  rw [hc.bytes_eq] at hb
  have hgot : ((v.bytes m).take filled ++ piece).length = filled + piece.length := by
    simp [List.length_take_of_le (show filled ≤ (v.bytes m).length by omega)]
  have hsplice : (((v.bytes m).splice filled piece).take v.length).take (filled + piece.length) =
      (v.bytes m).take filled ++ piece := by
    rw [List.take_take, Nat.min_eq_left (by omega), Bytes.take_splice_add (by omega)]
  rw [call_body]
  by_cases hlt : filled + piece.length < v.length
  · simp only [Assembly.take, report, hl, hgot, hlt, ↓reduceIte]
    refine ⟨rfl, ?_, ?_, hw, hc.keeps.trans kw⟩
    · simp only [Waiting, hl]
      exact hlt
    · simp only [assembly, hb, hl, hsplice]
  · simp only [Assembly.take, report, hl, hgot, hlt, ↓reduceIte]
    refine ⟨rfl, ?_, hw, hc.keeps.trans kw⟩
    rw [hb, ← hsplice, show filled + piece.length = v.length by omega, List.take_take,
      Nat.min_self]

end Body

/-! ### All calls -/

/-- **A receiver that waits for bytes** answers a call as an assembly that has got as far. -/
theorem call_answers (hw : r.Waiting) (h : m.HeldBy (r.views ++ vs))
    (hp : piece.length ≤ r.targetLength) :
    Answers vs r.max m ((r.assembly m).take r.max piece) (r.call piece piece.length m) := by
  obtain ⟨phase, max⟩ := r
  cases phase with
  | header bs filled =>
    obtain ⟨h4, hf⟩ := hw
    simp only [targetLength, h4] at hp
    exact header_answers h4 hf h hp
  | body v filled => exact body_answers hw h hp

/-- **A receiver that has refused a length** goes on refusing it and leaves the memory alone,
however many bytes are reported. -/
theorem call_refused (h : r.Refused e) (hp : piece.length ≤ r.targetLength) (n : Nat)
    (m : Memory) :
    (r.call piece n m).1 = .error e ∧ (r.call piece n m).2.1.Refused e ∧
      (r.call piece n m).2.1.max = r.max ∧ (r.call piece n m).2.2 = m := by
  have hpiece : piece = [] := by
    rw [h.targetLength_eq] at hp
    exact List.length_eq_zero_iff.1 (Nat.le_zero.1 hp)
  obtain ⟨phase, max⟩ := r
  obtain ⟨bs, filled, hphase, h4, hf, ha⟩ := h
  simp only at hphase ha
  subst hphase hpiece
  have hn : ¬ filled + n < 4 := by omega
  rw [call_header, Bytes.splice_nil]
  simp only [report, headerLength, hn, ↓reduceIte, ha]
  exact ⟨trivial, ⟨bs, filled + n, rfl, h4, by omega, ha⟩, trivial, trivial⟩

end Receiver

end Frame

end Tandem
