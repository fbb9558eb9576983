import Tandem.Proofs.Frame.Segmentation
import Tandem.Proofs.Memory.Books
import Tandem.Proofs.Memory.Conservation

/-!
# What a receiver takes of the memory

A peer decides how long the bodies are that it declares, but a receiver with a maximum asks for
memory only after it has accepted a length.  The accepted lengths of a stream
(`Frame.acceptedLengths`) are those of its bodies and that of the frame it breaks off in.  A call
asks for one array if it completes a header that is accepted, and otherwise for none
(`Receiver.Takes`): the array of a body is nobody else's while the body comes in, so that offering
it as memory never copies it.  Hence, in every run, there are as many arrays as accepted lengths,
each of them is handed out with its body or is the one that is being filled, and what was refused
has taken nothing (`Receiver.Intake.takes_accepted`).
-/

namespace Tandem

open Memory (HeldBy Keeps)

/-! ### Blocks from a pool -/

/-- A block is as long as was asked for or as its class says, or it is one that was not used. -/
theorem Memory.BlockPool.length_acquire (p : BlockPool) (min : Nat) :
    (p.acquire min).1.length = min ∨
      ∃ c ∈ p.classes,
        (p.acquire min).1.length = c.blockSize ∨ (p.acquire min).1 ∈ c.blocks.items := by
  have hstep := p.stepsTo_acquire min
  generalize hout : some (p.acquire min).1 = out at hstep
  generalize (p.acquire min).2 = q at hstep
  cases hstep with
  | reuse h =>
    obtain rfl := Option.some.inj hout
    obtain ⟨c, hc, hb⟩ := List.mem_flatMap.1 (h.perm.mem_iff.2 List.mem_cons_self)
    exact .inr ⟨c, hc, .inr hb⟩
  | make b h =>
    obtain rfl := Option.some.inj hout
    exact h.imp_right fun ⟨c, hc, hb⟩ => ⟨c, hc, .inl hb⟩
  | miss => cases hout

namespace Frame

variable {max : Option Nat} {s rest piece : Bytes} {bodies : List Bytes} {a : Assembly}

/-! ### Accepted lengths -/

/-- The length in the header of the frame that a stream breaks off in, if the header is complete. -/
def begun? (rest : Bytes) : Option Nat :=
  if rest.length < headerLength then none else some (declared (rest.take headerLength)).toNat

/-- The lengths that are accepted in a stream, in their order. -/
def acceptedLengths (max : Option Nat) (s : Bytes) : List Nat :=
  (split max s).bodies.map List.length ++
    match (split max s).error with
    | some _ => []
    | none => (begun? (split max s).rest).toList

theorem acceptedLengths_of_split (h : split max s = ⟨bodies, none, rest⟩) :
    acceptedLengths max s = bodies.map List.length ++ (begun? rest).toList := by
  rw [acceptedLengths, h]

theorem acceptedLengths_of_refused {e : FramingError} (h : split max s = ⟨bodies, some e, rest⟩) :
    acceptedLengths max s = bodies.map List.length := by
  rw [acceptedLengths, h]
  exact List.append_nil _

theorem acceptedLengths_append (h : split max s = ⟨bodies, none, rest⟩) (piece : Bytes) :
    acceptedLengths max (s ++ piece) =
      bodies.map List.length ++ acceptedLengths max (rest ++ piece) := by
  rw [acceptedLengths, acceptedLengths, split_append, h]
  simp only [List.map_append, List.append_assoc]

theorem lt_of_mem_acceptedLengths {m n : Nat} (h : n ∈ acceptedLengths (some m) s) : n < m := by
  have hcuts := cuts_split (some m) s
  have hallowed : ∀ {k : Nat}, Allowed (some m) k → k < m := fun hk => hk.2 m rfl
  rw [acceptedLengths] at h
  generalize split (some m) s = c at hcuts h
  induction hcuts with
  | partHeader hshort =>
    rw [begun?, if_pos (show _ < headerLength from hshort)] at h
    cases h
  | @partBody k got hk hgot =>
    have hnot : ¬ (lengthBytes k ++ got).length < headerLength := by
      rw [List.length_append, length_lengthBytes, headerLength]
      omega
    have hdeclared : declared (lengthBytes k) = k := by
      have := hk.1
      exact declared_lengthBytes (by omega) (by omega)
    have htake : (lengthBytes k ++ got).take headerLength = lengthBytes k :=
      List.take_left' (length_lengthBytes k)
    rw [begun?, if_neg hnot, htake, hdeclared, Int.toNat_natCast] at h
    obtain rfl : n = k := by simpa using h
    exact hallowed hk
  | @frame body bs c hbody _ ih =>
    rcases List.mem_cons.1 (show n ∈ body.length :: _ from h) with rfl | h
    · exact hallowed hbody
    · exact ih h
  | negative | tooLong => cases h

namespace Assembly

/-- The length in the header that was accepted last, while its body comes in. -/
def begun : Assembly → Option Nat
  | header _ => none
  | body length _ => some length

/-- The length in a header that a piece completes, if it is accepted. -/
def asks (max : Option Nat) (a : Assembly) (piece : Bytes) : Option Nat :=
  match a with
  | header got =>
    if (got ++ piece).length < headerLength then none
    else (accept max (declared (got ++ piece))).toOption
  | body .. => none

theorem Took.begun?_eq (h : a.Took max rest) : begun? rest = a.begun := by
  cases a with
  | header got =>
    obtain ⟨rfl, hlen⟩ := h
    exact if_pos hlen
  | body length got =>
    obtain ⟨head, rfl, hlen, haccept, -⟩ := h
    obtain ⟨hdeclared, -⟩ := (accept_eq_ok_iff (declared_bounds head).2).1 haccept
    have hnot : ¬ (head ++ got).length < headerLength := by
      rw [List.length_append, hlen, headerLength]
      omega
    have htake : (head ++ got).take headerLength = head := List.take_left' hlen
    rw [begun?, if_neg hnot, htake, hdeclared, Int.toNat_natCast]
    rfl

/-- **Taking a piece** accepts one more length if the piece completes a header that is accepted. -/
theorem Took.acceptedLengths_take (h : a.Took max rest) (hp : piece.length ≤ a.wanted) :
    acceptedLengths max (rest ++ piece) = a.begun.toList ++ (a.asks max piece).toList := by
  have hcontinues := h.split_take hp
  cases a with
  | header got =>
    obtain ⟨rfl, -⟩ := h
    simp only [begun, Option.toList_none, List.nil_append, asks]
    simp only [take] at hcontinues
    split_ifs at hcontinues ⊢ with hlen
    · have htook : (header (rest ++ piece)).Took max (rest ++ piece) := hcontinues
      rw [acceptedLengths_of_split htook.split_eq, htook.begun?_eq]
      rfl
    · cases haccept : accept max (declared (rest ++ piece)) with
      | error e =>
        rw [haccept] at hcontinues
        exact acceptedLengths_of_refused hcontinues.1
      | ok n =>
        rw [haccept] at hcontinues
        cases n with
        | zero =>
          rw [acceptedLengths_of_split hcontinues.1]
          rfl
        | succ n =>
          have htook : (body (n + 1) []).Took max (rest ++ piece) := hcontinues
          rw [acceptedLengths_of_split htook.split_eq, htook.begun?_eq]
          rfl
  | body length got =>
    have hgot : got.length + piece.length ≤ length := by
      have hwanted : piece.length ≤ length - got.length := hp
      obtain ⟨-, -, -, -, hlt⟩ := h
      omega
    simp only [take] at hcontinues
    simp only [begun, asks, Option.toList_none, List.append_nil]
    split_ifs at hcontinues with hlen
    · have htook : (body length (got ++ piece)).Took max (rest ++ piece) := hcontinues
      rw [acceptedLengths_of_split htook.split_eq, htook.begun?_eq]
      rfl
    · have hwhole : (got ++ piece).length = length := by
        rw [List.length_append] at hlen ⊢
        omega
      rw [acceptedLengths_of_split hcontinues.1, List.map_singleton, hwhole]
      rfl

end Assembly

namespace Receiver

variable {r : Receiver} {m m' : Memory} {v : View} {vs : List View} {filled n : Nat} {bs : Bytes}

/-! ### What a call asks for -/

/-- What a call asks for and what it makes of the memory.  The arrays that are handed out and kept
are the ones before it and the one that it has asked for. -/
inductive Takes (r : Receiver) (m : Memory) :
    Option Nat → Except FramingError (Option View) × Receiver × Memory → Prop
  | nothing {result : Except FramingError (Option View)} {r' : Receiver}
      (hviews : handed result ++ r'.views = r.views) : Takes r m none (result, r', m)
  /-- bytes are put into the array of the body -/
  | fills {v : View} {p : Nat} {bs : Bytes} {result : Except FramingError (Option View)}
      {r' : Receiver} (hr : r.views = [v]) (hviews : handed result ++ r'.views = [v]) :
      Takes r m none (result, r', m.overwrite v.array p bs)
  /-- an array of `n` bytes is asked for, and nothing else -/
  | array {n : Nat} {result : Except FramingError (Option View)} {r' : Receiver} (hr : r.views = [])
      (hviews : handed result ++ r'.views = [⟨m.arrays, 0, n⟩]) :
      Takes r m (some n) (result, r', (m.create n).2)

/-- Nobody else has a view of the body that comes in. -/
def IsPrivate (r : Receiver) (vs : List View) : Prop :=
  ∀ v ∈ r.views, ∀ u ∈ vs, u.array ≠ v.array

theorem handles_of_private (h : m.HeldBy (v :: vs)) (hprivate : ∀ u ∈ vs, u.array ≠ v.array) :
    v.handles m = 1 := by
  rw [View.handles, h.handles_eq v List.mem_cons_self, View.holders_cons,
    View.holders_eq_zero.2 hprivate, if_pos rfl]

theorem prepare_of_private (h : m.HeldBy (r.views ++ vs)) (hprivate : r.IsPrivate vs) :
    r.prepare m = (r, m) := by
  obtain ⟨phase, max⟩ := r
  cases phase with
  | header bs filled => rfl
  | body v filled =>
    have hone : v.handles m = 1 := handles_of_private h (hprivate v List.mem_cons_self)
    simp only [prepare, View.own, hone, if_true]

theorem takes_header (hm : m.WellFormed) (h4 : bs.length = 4) (hp : filled + piece.length ≤ 4) :
    Takes ⟨.header bs filled, max⟩ m ((Assembly.header (bs.take filled)).asks max piece)
      (call ⟨.header bs filled, max⟩ piece piece.length m) := by
  have hgot : (bs.take filled ++ piece).length = filled + piece.length := by
    rw [List.length_append, List.length_take_of_le (by omega)]
  rw [call_header]
  simp only [report, Assembly.asks, hgot]
  split_ifs with hlen
  · exact .nothing rfl
  · have hwhole : bs.take filled ++ piece = bs.splice filled piece := by
      have htake :
          (bs.splice filled piece).take (filled + piece.length) = bs.take filled ++ piece :=
        Bytes.take_splice_add (by omega)
      rw [← htake, List.take_of_length_le]
      rw [Bytes.length_splice_eq_max (by omega)]
      rw [headerLength] at hlen
      omega
    rw [hwhole]
    cases accept max (declared (bs.splice filled piece)) with
    | error e => exact .nothing rfl
    | ok n =>
      cases n with
      | zero => exact .array rfl rfl
      | succ n =>
        have hroom : n + 1 ≤ (View.create (n + 1) m).1.capacity (View.create (n + 1) m).2 :=
          hm.le_length_create (n + 1)
        simp only [View.setLength_of_le hroom]
        exact .array rfl rfl

theorem takes_body (h : m.HeldBy (v :: vs)) (hprivate : ∀ u ∈ vs, u.array ≠ v.array) (n : Nat) :
    Takes ⟨.body v filled, max⟩ m none (call ⟨.body v filled, max⟩ piece n m) := by
  have hown : v.own m = (v, m) := if_pos (handles_of_private h hprivate)
  have hwrite : v.write filled piece m = (v, m.overwrite v.array (v.offset + filled) piece) := by
    simp only [View.write, hown]
  rw [call_body, hown, hwrite]
  simp only [report]
  split_ifs
  · exact .fills rfl rfl
  · exact .fills rfl rfl

theorem call_takes (hw : r.Waiting) (h : m.HeldBy (r.views ++ vs)) (hprivate : r.IsPrivate vs)
    (hp : piece.length ≤ r.targetLength) :
    Takes r m ((r.assembly m).asks r.max piece) (r.call piece piece.length m) := by
  obtain ⟨phase, max⟩ := r
  cases phase with
  | header bs filled =>
    obtain ⟨h4, hf⟩ := hw
    have hp : piece.length ≤ bs.length - filled := hp
    exact takes_header h.wellFormed h4 (by omega)
  | body v filled => exact takes_body h (hprivate v List.mem_cons_self) piece.length

namespace Takes

variable {asked : Option Nat} {answer : Except FramingError (Option View) × Receiver × Memory}

theorem counters (h : Takes r m asked answer) :
    answer.2.2.arrays = m.arrays + asked.toList.length ∧
      answer.2.2.cache.created = m.cache.created + asked.toList.length ∧
      answer.2.2.cache.pool.stats.acquired = m.cache.pool.stats.acquired + asked.toList.length := by
  cases h with
  | nothing => exact ⟨rfl, rfl, rfl⟩
  | @fills v p bs =>
    obtain ⟨cells, heq⟩ := Memory.overwrite_eq m v.array p bs
    simp only [heq]
    exact ⟨rfl, rfl, rfl⟩
  | @array n =>
    -- the call does not change the running thread
    have hcache : (m.create n).2.cache =
        ⟨(m.cache.pool.acquire n).2, m.cache.created + 1, m.cache.recycled⟩ :=
      (Memory.cache_of_set (m := m) (m.create n).2 rfl rfl m.thread).trans (if_pos rfl)
    refine ⟨rfl, ?_, ?_⟩
    · rw [hcache]
      rfl
    · rw [hcache]
      exact (Memory.stats_acquire _ n).1

end Takes

/-! ### Runs -/

/-- What the calls of a run have taken of the memory. -/
structure Taken where
  /-- the arrays made during the calls, each with the length of its block -/
  arrays : List (ArrayId × Nat)
  /-- by how much the running threads' counts of arrays went up during the calls -/
  created : Nat
  /-- by how much their counts of blocks asked for went up -/
  acquired : Nat
  deriving DecidableEq, Repr

namespace Taken

def start : Taken := ⟨[], 0, 0⟩

/-- Adds what was made of the memory from `m` to `m'`. -/
def after (t : Taken) (m m' : Memory) : Taken where
  arrays := t.arrays ++
    (List.range' m.arrays (m'.arrays - m.arrays)).map fun a => (a, (m'.block a).length)
  created := t.created + (m'.cache.created - m.cache.created)
  acquired := t.acquired + (m'.cache.pool.stats.acquired - m.cache.pool.stats.acquired)

end Taken

/-- A run of a receiver that takes bodies shorter than `max`, with what its calls have taken of the
memory; the views are those of the rest of the program, which has none of the body that comes in.
Memory may be offered and not be read into. -/
inductive Intake (max : Nat) : Progress → Taken → Receiver → Memory → List View → Prop
  | start {m : Memory} {vs : List View} (h : m.HeldBy vs) :
      Intake max .start .start (.create (some max)) m vs
  | offer {p : Progress} {t : Taken} {r : Receiver} {m : Memory} {vs : List View}
      (h : Intake max p t r m vs) :
      Intake max p (t.after m (r.prepare m).2) (r.prepare m).1 (r.prepare m).2 vs
  | call {p : Progress} {t : Taken} {r : Receiver} {m : Memory} {vs : List View}
      (h : Intake max p t r m vs) (piece : Bytes) (n : Nat) (hp : piece.length ≤ r.targetLength)
      (hn : p.error = none → n = piece.length) :
      Intake max (p.after piece (r.call piece n m)) (t.after m (r.call piece n m).2.2)
        (r.call piece n m).2.1 (r.call piece n m).2.2 (handed (r.call piece n m).1 ++ vs)
  | elsewhere {p : Progress} {t : Taken} {r : Receiver} {m m' : Memory} {vs vs' : List View}
      (h : Intake max p t r m vs) (hk : Keeps r.views m m') (h' : m'.HeldBy (r.views ++ vs'))
      (hprivate : r.IsPrivate vs') : Intake max p t r m' vs'

namespace Intake

variable {max : Nat} {p : Progress} {t : Taken}

/-- A call asks for an array of the length that is accepted in the stream by it, or for none; one
that refuses a length leaves the memory as it was. -/
def Asks (max : Nat) (p : Progress) (r : Receiver) (m : Memory) (piece : Bytes) (n : Nat) : Prop :=
  (∃ asked : Option Nat, acceptedLengths (some max) (p.stream ++ piece) =
      acceptedLengths (some max) p.stream ++ asked.toList ∧ Takes r m asked (r.call piece n m)) ∧
    ∀ e, (r.call piece n m).1 = .error e → (r.call piece n m).2.2 = m

/-- What is true of all runs: the run of the receiver, whose body is its own, and the counts. -/
structure Sound (max : Nat) (p : Progress) (t : Taken) (r : Receiver) (m : Memory)
    (vs : List View) :
    Prop where
  run : Run (some max) p r m vs
  isPrivate : r.IsPrivate vs
  arrays : t.arrays.length = (acceptedLengths (some max) p.stream).length
  created : t.created = (acceptedLengths (some max) p.stream).length
  acquired : t.acquired = (acceptedLengths (some max) p.stream).length
  /-- the array of the body that comes in was made last, and its block is as long as it was then -/
  last : ∀ v ∈ r.views, t.arrays.getLast? = some (v.array, (m.block v.array).length)

theorem length_views_le (r : Receiver) : r.views.length ≤ 1 := by
  obtain ⟨phase, max⟩ := r
  cases phase with
  | header => exact Nat.zero_le 1
  | body => exact Nat.le_refl 1

theorem heldBy_of_tracks {max : Option Nat} (h : Tracks max p r m vs) :
    m.HeldBy (r.views ++ vs) := by
  cases h with
  | waiting _ _ _ _ h => exact h
  | refused _ hr h => rwa [hr.views_eq]

theorem memory_of_error {e : FramingError} (h : m.HeldBy (r.views ++ vs))
    (hprivate : r.IsPrivate vs)
    (he : (r.call piece n m).1 = .error e) : (r.call piece n m).2.2 = m := by
  obtain ⟨phase, max⟩ := r
  cases phase with
  | header bs filled =>
    rw [call_header] at he ⊢
    simp only [report] at he ⊢
    split_ifs at he ⊢
    cases haccept : accept max (declared (bs.splice filled piece)) with
    | error e' => rfl
    | ok k =>
      rw [haccept] at he
      cases k <;> cases he
  | body v filled =>
    rw [call_body] at he
    simp only [report] at he
    split_ifs at he

/-- **The accepted lengths** are those of the bodies that were handed out and of the one that comes
in. -/
theorem acceptedLengths_eq {max : Option Nat} (h : Tracks max p r m vs) :
    acceptedLengths max p.stream = p.bodies.map List.length ++ r.views.map View.length := by
  cases h with
  | @waiting s bodies rest _ _ _ hs _ _ ht _ =>
    rw [acceptedLengths_of_split hs, ht.begun?_eq]
    obtain ⟨phase, max'⟩ := r
    cases phase <;> rfl
  | refused hs hr _ =>
    rw [acceptedLengths_of_refused hs, hr.views_eq, List.map_nil, List.append_nil]

/-- **Every call** asks for what is accepted by it. -/
theorem asks_of_tracks (h : Tracks (some max) p r m vs) (hprivate : r.IsPrivate vs)
    (hp : piece.length ≤ r.targetLength) (hn : p.error = none → n = piece.length) :
    Asks max p r m piece n := by
  refine ⟨?_, fun e => memory_of_error (heldBy_of_tracks h) hprivate⟩
  cases h with
  | @waiting s bodies rest _ _ _ hs hmax hw ht hv =>
    obtain rfl := hn rfl
    refine ⟨(r.assembly m).asks (some max) piece, ?_, hmax ▸ call_takes hw hv hprivate hp⟩
    rw [hw.targetLength_eq hv] at hp
    rw [acceptedLengths_append hs, acceptedLengths_of_split hs, ht.begun?_eq,
      ht.acceptedLengths_take hp, List.append_assoc]
  | @refused s bodies rest e _ _ _ hs hr hv =>
    have hpiece : piece = [] := by
      rw [hr.targetLength_eq] at hp
      exact List.length_eq_zero_iff.1 (Nat.le_zero.1 hp)
    obtain ⟨he, hr', -, hm⟩ := call_refused hr hp n m
    refine ⟨none, by rw [hpiece, List.append_nil, Option.toList_none, List.append_nil], ?_⟩
    have hanswer : r.call piece n m = (.error e, (r.call piece n m).2.1, m) :=
      Prod.ext he (Prod.ext rfl hm)
    rw [hanswer]
    exact .nothing (by rw [hr'.views_eq, hr.views_eq]; rfl)

theorem length_arrays_after (t : Taken) (m m' : Memory) :
    (t.after m m').arrays.length = t.arrays.length + (m'.arrays - m.arrays) := by
  rw [Taken.after, List.length_append, List.length_map, List.length_range']

theorem arrays_after_of_eq (t : Taken) {m m' : Memory} (h : m'.arrays = m.arrays) :
    (t.after m m').arrays = t.arrays := by
  rw [Taken.after, h, Nat.sub_self, List.range'_zero, List.map_nil, List.append_nil]

section Call

variable {asked : Option Nat} {answer : Except FramingError (Option View) × Receiver × Memory}

theorem last_after (htakes : Takes r m asked answer) (hheld : m.HeldBy (r.views ++ vs))
    (hlast : ∀ v ∈ r.views, t.arrays.getLast? = some (v.array, (m.block v.array).length)) :
    ∀ v ∈ answer.2.1.views, (t.after m answer.2.2).arrays.getLast? =
      some (v.array, (answer.2.2.block v.array).length) := by
  have hcounters := htakes.counters.1
  intro v hv
  cases htakes with
  | @nothing result r' hviews =>
    rw [arrays_after_of_eq t rfl]
    exact hlast v (hviews ▸ List.mem_append_right _ hv)
  | @fills w p bs result r' hr hviews =>
    obtain rfl : v = w := List.mem_singleton.1 (hviews ▸ List.mem_append_right _ hv)
    have hmem : v ∈ r.views := hr ▸ List.mem_singleton_self v
    have hpos := hheld.handles_pos (List.mem_append_left vs hmem)
    rw [arrays_after_of_eq t hcounters, hlast v hmem, Memory.block_overwrite hpos, if_pos rfl,
      Memory.Block.length_overwrite]
  | @array k result r' hr hviews =>
    obtain rfl : v = ⟨m.arrays, 0, k⟩ := List.mem_singleton.1 (hviews ▸ List.mem_append_right _ hv)
    have hone : (m.create k).2.arrays - m.arrays = 1 := by
      rw [hcounters]
      exact Nat.add_sub_cancel_left _ _
    simp only [Taken.after, hone, List.range'_one, List.map_singleton]
    exact List.getLast?_concat

/-- What the receiver keeps by a call is its own: it was so before, or it is new. -/
theorem isPrivate_after (htakes : Takes r m asked answer) (hheld : m.HeldBy (r.views ++ vs))
    (hprivate : r.IsPrivate vs) : answer.2.1.IsPrivate (handed answer.1 ++ vs) := by
  intro v hv u hu
  -- what is handed out is not kept
  have hsplit : ∀ {result : Except FramingError (Option View)} {kept : List View},
      (handed result ++ kept).length ≤ 1 → v ∈ kept → u ∈ handed result ++ vs → u ∈ vs := by
    intro result kept hlen hmem hu
    have hpos := List.length_pos_of_mem hmem
    rw [List.length_append] at hlen
    have hnone : handed result = [] := List.length_eq_zero_iff.1 (by omega)
    rwa [hnone, List.nil_append] at hu
  cases htakes with
  | nothing hviews =>
    have hlen := length_views_le r
    rw [← hviews] at hlen
    exact hprivate v (hviews ▸ List.mem_append_right _ hv) u (hsplit hlen hv hu)
  | fills hr hviews =>
    have hlen := length_views_le r
    rw [hr, ← hviews] at hlen
    exact hprivate v (hr ▸ hviews ▸ List.mem_append_right _ hv) u (hsplit hlen hv hu)
  | @array k result r' hr hviews =>
    obtain rfl : v = ⟨m.arrays, 0, k⟩ := List.mem_singleton.1 (hviews ▸ List.mem_append_right _ hv)
    have hu : u ∈ vs := hsplit (by rw [hviews]; exact Nat.le_refl 1) hv hu
    exact hheld.ne_arrays (List.mem_append_right _ hu)

end Call

theorem stream_after (p : Progress) (piece : Bytes)
    (answer : Except FramingError (Option View) × Receiver × Memory) :
    (p.after piece answer).stream = p.stream ++ piece := by
  obtain ⟨result, r', m'⟩ := answer
  cases result with
  | error e => rfl
  | ok out => cases out <;> rfl

/-- **Every call** keeps the counts. -/
theorem Sound.call (h : Sound max p t r m vs) (hp : piece.length ≤ r.targetLength)
    (hn : p.error = none → n = piece.length) :
    Sound max (p.after piece (r.call piece n m)) (t.after m (r.call piece n m).2.2)
      (r.call piece n m).2.1 (r.call piece n m).2.2 (handed (r.call piece n m).1 ++ vs) := by
  have hheld := heldBy_of_tracks h.run.tracks
  obtain ⟨⟨asked, haccepted, htakes⟩, -⟩ := asks_of_tracks h.run.tracks h.isPrivate hp hn
  obtain ⟨harrays, hcreated, hacquired⟩ := htakes.counters
  refine ⟨h.run.call piece n hp hn, isPrivate_after htakes hheld h.isPrivate, ?_, ?_, ?_,
    last_after htakes hheld h.last⟩
  · rw [stream_after, haccepted, List.length_append, length_arrays_after, h.arrays, harrays,
      Nat.add_sub_cancel_left]
  · rw [stream_after, haccepted, List.length_append, Taken.after, h.created, hcreated,
      Nat.add_sub_cancel_left]
  · rw [stream_after, haccepted, List.length_append, Taken.after, h.acquired, hacquired,
      Nat.add_sub_cancel_left]

theorem sound (h : Intake max p t r m vs) : Sound max p t r m vs := by
  induction h with
  | start h => exact ⟨.start h, nofun, rfl, rfl, rfl, nofun⟩
  | @offer p t r m vs _ ih =>
    have hsame := prepare_of_private (heldBy_of_tracks ih.run.tracks) ih.isPrivate
    have ht : t.after m m = t := by simp [Taken.after]
    rw [hsame, ht]
    exact ih
  | call _ piece n hp hn ih => exact ih.call hp hn
  | elsewhere _ hk h' hprivate ih =>
    refine ⟨ih.run.elsewhere hk h', hprivate, ih.arrays, ih.created, ih.acquired, fun v hv => ?_⟩
    rw [hk v hv]
    exact ih.last v hv

/-- What a receiver with a maximum has taken of the memory, and what it will take by the next
call. -/
structure Accounts (max : Nat) (p : Progress) (t : Taken) (r : Receiver) (m : Memory) : Prop where
  /-- the lengths that are accepted are below the maximum -/
  below : ∀ n ∈ acceptedLengths (some max) p.stream, n < max
  /-- there is an array for each of them and no other, by all counts -/
  arrays : t.arrays.length = (acceptedLengths (some max) p.stream).length
  created : t.created = (acceptedLengths (some max) p.stream).length
  acquired : t.acquired = (acceptedLengths (some max) p.stream).length
  /-- it was handed out with its body, or it is that of the body that comes in -/
  accepted_eq : acceptedLengths (some max) p.stream =
    p.bodies.map List.length ++ r.views.map View.length
  /-- of these there is at most one; it has one handle, and the block that it was made with -/
  one : r.views.length ≤ 1
  held : ∀ v ∈ r.views, v.handles m = 1 ∧
    t.arrays.getLast? = some (v.array, (m.block v.array).length)
  /-- the next call asks for the length that is accepted by it, if there is one -/
  next : ∀ piece n, piece.length ≤ r.targetLength → (p.error = none → n = piece.length) →
    Asks max p r m piece n
  /-- which gives an array of that length or of a block of the pool -/
  block : ∀ n, n ≤ ((m.create n).2.block m.arrays).length ∧
    (((m.create n).2.block m.arrays).length = n ∨ ∃ c ∈ m.cache.pool.classes,
      ((m.create n).2.block m.arrays).length = c.blockSize ∨
        (m.create n).2.block m.arrays ∈ c.blocks.items)

/-- **A peer cannot make a receiver take more memory than its maximum allows**, in all runs: an
array is taken for a header that is accepted, of the length that it declares, and for nothing
else. -/
theorem takes_accepted (h : Intake max p t r m vs) : Accounts max p t r m where
  below _ := lt_of_mem_acceptedLengths
  arrays := h.sound.arrays
  created := h.sound.created
  acquired := h.sound.acquired
  accepted_eq := acceptedLengths_eq h.sound.run.tracks
  one := length_views_le r
  held v hv := by
    have hheld := heldBy_of_tracks h.sound.run.tracks
    have hprivate := h.sound.isPrivate
    refine ⟨?_, h.sound.last v hv⟩
    obtain ⟨phase, max'⟩ := r
    cases phase with
    | header => cases hv
    | body w filled =>
      obtain rfl := List.mem_singleton.1 hv
      exact handles_of_private hheld (hprivate v hv)
  next _ _ hp hn := asks_of_tracks h.sound.run.tracks h.sound.isPrivate hp hn
  block n := by
    have hblock : (m.create n).2.block m.arrays = (m.cache.pool.acquire n).1 := by
      simp [Memory.block, Memory.cells_create]
    refine ⟨(heldBy_of_tracks h.sound.run.tracks).wellFormed.le_length_create n, ?_⟩
    rw [hblock]
    exact m.cache.pool.length_acquire n

/-- A body of two bytes, an empty one that takes the block of the first, which was let go of, and a
length of nine, which is refused. -/
theorem takes_accepted_twice :
    ∃ p t r m vs, Intake 9 p t r m vs ∧ p.error = some (.bodyTooLong 9 9) ∧
      acceptedLengths (some 9) p.stream = [2, 0] ∧ t = ⟨[(0, 16), (1, 16)], 2, 2⟩ ∧
      m.cache.pool.stats.allocated = 1 ∧ Accounts 9 p t r m := by
  have h₀ : Intake 9 .start .start (.create (some 9)) .initial [] :=
    .start Memory.wellFormed_initial.heldBy_nil
  have h₁ := h₀.call [0, 0] 2 (by decide) (fun _ => rfl)
  have h₂ := h₁.call [0, 2] 2 (by decide) (fun _ => rfl)
  have h₃ := h₂.offer.call [7] 1 (by decide) (fun _ => rfl)
  have h₄ := h₃.call [8] 1 (by decide) (fun _ => rfl)
  have hheld := heldBy_of_tracks h₄.sound.run.tracks
  have h₅ : Intake 9 _ _ _ _ [] := h₄.elsewhere nofun (View.held_drop hheld).1 nofun
  have h₆ := h₅.call [0, 0, 0, 0] 4 (by decide) (fun _ => rfl)
  have h₇ := h₆.call [0, 0, 0, 9] 4 (by decide) (fun _ => rfl)
  exact ⟨_, _, _, _, _, h₇, by decide, by decide, by decide, by decide, h₇.takes_accepted⟩

end Intake

end Receiver

end Frame

end Tandem
