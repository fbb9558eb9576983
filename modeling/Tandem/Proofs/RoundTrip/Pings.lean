import Tandem.RoundTrip.Basic
import Mathlib.Data.List.DropRight
import Mathlib.Data.List.Nodup
import Mathlib.Tactic.SplitIfs

/-!
# Pings that wait

Round trips are measured by a list of the pings that wait for their acknowledgement, oldest first
(`Ledger`).  A backlog keeps this list as an order of codes and a table of times.  Both hold the
same codes, each of them once, whatever is sent and acknowledged (`Backlog.Lists`): a code that is
sent again, one that is acknowledged and one that is forgotten leave both.  So every acknowledgement
is answered as by the list (`RoundTrip.measures_remembered`).
-/

namespace Tandem

/-- A ping that waits for its acknowledgement. -/
structure Ping where
  code : UInt16
  /-- when it was sent, in nanoseconds -/
  time : Nat
  deriving DecidableEq, Repr

/-- Round trips by the list of the pings that wait. -/
structure Ledger where
  /-- the pings that wait, oldest first -/
  waiting : List Ping
  /-- the round trips that were measured, oldest first -/
  trips : List Nat
  deriving DecidableEq, Repr

/-- What can happen to round trips. -/
inductive RoundTrip.Event where
  | sent (code : UInt16) (time : Nat)
  | acknowledged (code : UInt16) (time : Nat)
  deriving DecidableEq, Repr

/-- The code of the ping that an event is about. -/
def RoundTrip.Event.code : Event → UInt16
  | sent code _ | acknowledged code _ => code

namespace Ledger

def empty : Ledger := ⟨[], []⟩

/-- A ping is sent.  An older one of its code is struck off, and of too many the oldest ones are. -/
def sent (l : Ledger) (capacity : Nat) (p : Ping) : Ledger :=
  { l with waiting := (l.waiting.filter (·.code ≠ p.code) ++ [p]).rtake capacity }

/-- An acknowledgement arrives.  It measures the time since the ping of its code was sent, if there
is one, which does not wait any more. -/
def acknowledged (l : Ledger) (code : UInt16) (time : Nat) : Option Nat × Ledger :=
  match l.waiting.find? (·.code = code) with
  | none => (none, l)
  | some p =>
    let trip := time - p.time
    (some trip, ⟨l.waiting.filter (·.code ≠ code), l.trips ++ [trip]⟩)

/-- The answer to an event and what becomes of the list. -/
def step (l : Ledger) (capacity : Nat) : RoundTrip.Event → Option Nat × Ledger
  | .sent code time => (none, l.sent capacity ⟨code, time⟩)
  | .acknowledged code time => l.acknowledged code time

/-- The answers to events, one after the other, and what becomes of the list. -/
def run (l : Ledger) (capacity : Nat) : List RoundTrip.Event → List (Option Nat) × Ledger
  | [] => ([], l)
  | e :: es =>
    let (answer, l) := l.step capacity e
    let (answers, l) := l.run capacity es
    (answer :: answers, l)

end Ledger

namespace RoundTrip

/-- The answer to an event and what becomes of the round trips. -/
def step (r : RoundTrip) : Event → Option Nat × RoundTrip
  | .sent code time => (none, r.sent code time)
  | .acknowledged code time => r.acknowledged code time

/-- The answers to events, one after the other, and what becomes of the round trips. -/
def run (r : RoundTrip) : List Event → List (Option Nat) × RoundTrip
  | [] => ([], r)
  | e :: es =>
    let (answer, r) := r.step e
    let (answers, r) := r.run es
    (answer :: answers, r)

end RoundTrip

/-! ### Finding pings by their code -/

section Find

variable {ps : List Ping} {p : Ping} {c code : UInt16}

theorem find?_code_eq_none_iff : ps.find? (·.code = code) = none ↔ code ∉ ps.map Ping.code := by
  simp only [List.find?_eq_none, decide_eq_true_eq, List.mem_map, not_exists, not_and]

theorem find?_code_eq_some (h : ps.find? (·.code = code) = some p) : p ∈ ps ∧ p.code = code :=
  ⟨List.mem_of_find?_eq_some h, by simpa using List.find?_some h⟩

theorem find?_code_of_mem (h : (ps.map Ping.code).Nodup) (hp : p ∈ ps) :
    ps.find? (·.code = p.code) = some p := by
  cases hfind : ps.find? (·.code = p.code) with
  | none => exact absurd (List.mem_map_of_mem hp) (find?_code_eq_none_iff.1 hfind)
  | some q =>
    obtain ⟨hq, hcode⟩ := find?_code_eq_some hfind
    rw [List.inj_on_of_nodup_map h hq hp hcode]

theorem find?_filter_code :
    (ps.filter (·.code ≠ code)).find? (·.code = c) =
      if c = code then none else ps.find? (·.code = c) := by
  rw [List.find?_filter]
  split_ifs with h
  · subst h
    simp
  · congr 1
    funext p
    by_cases hp : p.code = c
    · simp [hp, h]
    · simp [hp]

theorem find?_drop_code (h : (ps.map Ping.code).Nodup) (n : Nat) :
    (ps.drop n).find? (·.code = c) =
      if c ∈ (ps.take n).map Ping.code then none else ps.find? (·.code = c) := by
  rw [← List.take_append_drop n ps, List.map_append, List.nodup_append] at h
  split_ifs with hc
  · rw [find?_code_eq_none_iff]
    exact fun hdrop => h.2.2 c hc c hdrop rfl
  · conv_rhs => rw [← List.take_append_drop n ps]
    rw [List.find?_append, find?_code_eq_none_iff.2 hc, Option.none_or]

end Find

theorem Table.get?_foldl_erase {κ α : Type} [DecidableEq κ] (ks : List κ) (t : Table κ α) (k : κ) :
    (ks.foldl (fun t k => t.erase k) t).get? k = if k ∈ ks then none else t.get? k := by
  induction ks generalizing t with
  | nil => rfl
  | cons k' ks ih =>
    rw [List.foldl_cons, ih, Table.get?_erase]
    by_cases hmem : k ∈ ks
    · rw [if_pos hmem, if_pos (List.mem_cons_of_mem _ hmem)]
    · simp only [hmem, if_false, List.mem_cons, or_false]

namespace Backlog

variable {b : Backlog} {ps : List Ping} {code : UInt16} {time : Nat}

/-- The order and the table of a backlog are those of a list of pings with different codes, which
are not too many. -/
structure Lists (b : Backlog) (ps : List Ping) : Prop where
  order_eq : b.order = ps.map Ping.code
  get?_eq : ∀ code, b.times.get? code = (ps.find? (·.code = code)).map Ping.time
  nodup : (ps.map Ping.code).Nodup
  length_le : ps.length ≤ b.capacity

theorem lists_empty (capacity : Nat) : (empty capacity).Lists [] where
  order_eq := rfl
  get?_eq _ := rfl
  nodup := List.nodup_nil
  length_le := Nat.zero_le _

theorem Lists.contains_iff (h : b.Lists ps) :
    b.times.contains code = true ↔ code ∈ ps.map Ping.code := by
  rw [Table.contains, h.get?_eq, Option.isSome_map, ← Option.ne_none_iff_isSome, Ne,
    find?_code_eq_none_iff, not_not]

/-- **The table and the order** hold the same codes, each of them once. -/
theorem Lists.keys_perm (h : b.Lists ps) : b.times.keys.Perm b.order := by
  refine (List.perm_ext_iff_of_nodup b.times.nodup_keys (h.order_eq ▸ h.nodup)).2 fun code => ?_
  rw [h.order_eq, ← h.contains_iff]
  exact (b.times.contains_iff code).symm

/-- **Forgetting the oldest pings** leaves the last ones in the order and in the table. -/
theorem lists_evict (horder : b.order = ps.map Ping.code)
    (hget : ∀ code, b.times.get? code = (ps.find? (·.code = code)).map Ping.time)
    (hnodup : (ps.map Ping.code).Nodup) : b.evict.Lists (ps.rtake b.capacity) := by
  have hexcess : b.order.length - b.capacity = ps.length - b.capacity := by
    rw [horder, List.length_map]
  refine ⟨?_, fun code => ?_, ?_, ?_⟩
  · rw [evict, hexcess, horder, List.rtake, List.map_drop]
  · rw [evict, hexcess, horder, Table.get?_foldl_erase, hget, ← List.map_take, List.rtake,
      find?_drop_code hnodup]
    split_ifs <;> rfl
  · rw [List.rtake, List.map_drop]
    exact (List.drop_sublist _ _).nodup hnodup
  · rw [List.rtake, List.length_drop, show b.evict.capacity = b.capacity from rfl]
    omega

/-- **Remembering a ping** strikes off an older one of its code. -/
theorem Lists.insert (h : b.Lists ps) (p : Ping) :
    (b.insert p.code p.time).Lists ((ps.filter (·.code ≠ p.code) ++ [p]).rtake b.capacity) := by
  -- the order has the code to be taken out only where the table has it
  have horder : (if b.times.contains p.code then b.order.filter (· ≠ p.code) else b.order) =
      (ps.filter (·.code ≠ p.code)).map Ping.code := by
    have hfilter : b.order.filter (· ≠ p.code) = (ps.filter (·.code ≠ p.code)).map Ping.code := by
      rw [h.order_eq, List.filter_map]
      rfl
    rw [← hfilter]
    split_ifs with hc
    · rfl
    · refine (List.filter_eq_self.2 fun c hmem => ?_).symm
      rw [decide_eq_true_eq]
      rintro rfl
      exact hc (h.contains_iff.2 (h.order_eq ▸ hmem))
  refine lists_evict ?_ (fun c => ?_) ?_
  · rw [List.map_append]
    exact congrArg (· ++ [p.code]) horder
  · rw [Table.get?_set, h.get?_eq, List.find?_append, find?_filter_code]
    by_cases hc : c = p.code
    · simp [hc]
    · have hne : ¬ p.code = c := fun heq => hc heq.symm
      simp [hc, hne]
  · rw [List.map_append, List.nodup_append]
    refine ⟨(List.filter_sublist.map _).nodup h.nodup, List.nodup_singleton _, ?_⟩
    intro c hc c' hc' heq
    obtain ⟨q, hq, rfl⟩ := List.mem_map.1 hc
    obtain rfl := List.mem_singleton.1 hc'
    exact of_decide_eq_true (List.mem_filter.1 hq).2 heq

theorem Lists.remove (h : b.Lists ps) (code : UInt16) :
    (b.remove code).1 = (ps.find? (·.code = code)).map Ping.time ∧
      (b.remove code).2.Lists (ps.filter (·.code ≠ code)) := by
  unfold Backlog.remove
  rw [h.get?_eq]
  cases hfind : ps.find? (·.code = code) with
  | none =>
    have hsame : ps.filter (·.code ≠ code) = ps := by
      refine List.filter_eq_self.2 fun p hp => ?_
      rw [decide_eq_true_eq]
      rintro rfl
      exact find?_code_eq_none_iff.1 hfind (List.mem_map_of_mem hp)
    rw [hsame]
    exact ⟨rfl, h⟩
  | some p =>
    refine ⟨rfl, ?_, fun c => ?_, (List.filter_sublist.map _).nodup h.nodup, ?_⟩
    · simp only [Option.map_some, h.order_eq, List.filter_map]
      rfl
    · simp only [Option.map_some, Table.get?_erase, h.get?_eq, find?_filter_code]
      split_ifs <;> rfl
    · exact (List.length_filter_le _ _).trans h.length_le

end Backlog

/-! ### The last event about a code -/

namespace RoundTrip

/-- The last of some events that is about a code. -/
def lastAbout (code : UInt16) (es : List Event) : Option Event := es.reverse.find? (·.code = code)

theorem lastAbout_concat (code : UInt16) (es : List Event) (e : Event) :
    lastAbout code (es ++ [e]) = if e.code = code then some e else lastAbout code es := by
  rw [lastAbout, List.reverse_concat, List.find?_cons]
  split_ifs with h
  · simp only [h, decide_true]
  · simp only [h, decide_false]
    rfl

/-- What comes last comes behind any other event about the code. -/
theorem mem_of_lastAbout {code : UInt16} {es es' : List Event} {e e' : Event} (he : e.code = code)
    (h : lastAbout code (es ++ e :: es') = some e') : e' = e ∨ e' ∈ es' := by
  rw [lastAbout, List.reverse_append, List.reverse_cons, List.append_assoc, List.find?_append,
    List.singleton_append, List.find?_cons] at h
  simp only [he, decide_true] at h
  cases hlast : es'.reverse.find? (·.code = code) with
  | none =>
    rw [hlast, Option.none_or] at h
    exact .inl (Option.some.inj h).symm
  | some e'' =>
    rw [hlast, Option.some_or] at h
    obtain rfl := Option.some.inj h
    exact .inr (List.mem_reverse.1 (List.mem_of_find?_eq_some hlast))

end RoundTrip

namespace Ledger

variable {l : Ledger} {capacity : Nat} {es : List RoundTrip.Event}

/-- For each ping that waits, sending it is the last of the events about its code. -/
def IsRecent (l : Ledger) (es : List RoundTrip.Event) : Prop :=
  ∀ p ∈ l.waiting, RoundTrip.lastAbout p.code es = some (.sent p.code p.time)

/-- **Neither sending nor acknowledging** leaves a ping of the same code waiting. -/
theorem IsRecent.step (h : l.IsRecent es) (e : RoundTrip.Event) :
    (l.step capacity e).2.IsRecent (es ++ [e]) := by
  -- a ping of another code has waited before
  have hother : ∀ p ∈ l.waiting.filter (·.code ≠ e.code),
      RoundTrip.lastAbout p.code (es ++ [e]) = some (.sent p.code p.time) := by
    intro p hp
    obtain ⟨hmem, hne⟩ := List.mem_filter.1 hp
    rw [RoundTrip.lastAbout_concat, if_neg fun heq => of_decide_eq_true hne heq.symm]
    exact h p hmem
  intro p hp
  cases e with
  | sent code time =>
    rcases List.mem_append.1 (List.mem_of_mem_drop hp) with hp | hp
    · exact hother p hp
    · obtain rfl := List.mem_singleton.1 hp
      rw [RoundTrip.lastAbout_concat]
      exact if_pos rfl
  | acknowledged code time =>
    simp only [Ledger.step, Ledger.acknowledged] at hp
    cases hfind : l.waiting.find? (·.code = code) with
    | none =>
      rw [hfind] at hp
      refine hother p (List.mem_filter.2 ⟨hp, decide_eq_true fun hcode => ?_⟩)
      exact find?_code_eq_none_iff.1 hfind (List.mem_map.2 ⟨p, hp, hcode⟩)
    | some q =>
      rw [hfind] at hp
      exact hother p hp

theorem IsRecent.run (h : l.IsRecent es) (es' : List RoundTrip.Event) :
    (l.run capacity es').2.IsRecent (es ++ es') := by
  induction es' generalizing l es with
  | nil => rwa [List.append_nil]
  | cons e es' ih =>
    rw [List.append_cons]
    exact ih (h.step e)

theorem trips_run (l : Ledger) (es : List RoundTrip.Event) :
    (l.run capacity es).2.trips = l.trips ++ (l.run capacity es).1.filterMap id := by
  induction es generalizing l with
  | nil => exact (List.append_nil _).symm
  | cons e es ih =>
    have hstep : (l.step capacity e).2.trips = l.trips ++ (l.step capacity e).1.toList := by
      cases e with
      | sent code time => exact (List.append_nil _).symm
      | acknowledged code time =>
        simp only [Ledger.step, Ledger.acknowledged]
        split
        · exact (List.append_nil _).symm
        · rfl
    simp only [Ledger.run, ih, hstep, List.append_assoc]
    cases (l.step capacity e).1 <;> rfl

end Ledger

/-! ### Round trips -/

namespace RoundTrip

variable {r : RoundTrip} {l : Ledger} {sampleCount capacity : Nat} {es : List Event}

/-- Round trips are what a list says: the same pings wait, and the round trips that were measured
are the last one and the samples. -/
structure Follows (r : RoundTrip) (sampleCount capacity : Nat) (l : Ledger) : Prop where
  lists : r.backlog.Lists l.waiting
  capacity_eq : r.backlog.capacity = capacity
  latest_eq : r.latest = l.trips.getLast?
  samples_eq : r.samples =
    (l.trips.map Duration.toSeconds).foldl RollingMean.add (.empty sampleCount)

theorem follows_create (sampleCount capacity : Nat) :
    (create sampleCount capacity).Follows sampleCount capacity .empty where
  lists := Backlog.lists_empty capacity
  capacity_eq := rfl
  latest_eq := rfl
  samples_eq := rfl

theorem Follows.acknowledged_of_none (h : r.Follows sampleCount capacity l) {code : UInt16}
    (hnone : l.waiting.find? (·.code = code) = none) (time : Nat) :
    r.acknowledged code time = (none, r) := by
  have htime := h.lists.get?_eq code
  rw [hnone] at htime
  simp only [acknowledged, Backlog.remove, htime, Option.map_none]

/-- An acknowledgement of a ping that waits measures the time since it was sent. -/
theorem Follows.acknowledged_of_some (h : r.Follows sampleCount capacity l) {code : UInt16}
    {p : Ping}
    (hsome : l.waiting.find? (·.code = code) = some p) (time : Nat) :
    (r.acknowledged code time).1 = some (time - p.time) ∧
      (r.acknowledged code time).2.Follows sampleCount capacity
        ⟨l.waiting.filter (·.code ≠ code), l.trips ++ [time - p.time]⟩ := by
  have htime := h.lists.get?_eq code
  rw [hsome] at htime
  have hlists := (h.lists.remove code).2
  simp only [Backlog.remove, htime, Option.map_some] at hlists
  simp only [acknowledged, Backlog.remove, htime, Option.map_some]
  refine ⟨trivial, hlists, h.capacity_eq, List.getLast?_concat.symm, ?_⟩
  rw [List.map_append, List.foldl_append, ← h.samples_eq]
  rfl

/-- **Every event** is answered as by the list, and followed by it. -/
theorem Follows.step (h : r.Follows sampleCount capacity l) (e : Event) :
    (r.step e).1 = (l.step capacity e).1 ∧
      (r.step e).2.Follows sampleCount capacity (l.step capacity e).2 := by
  cases e with
  | sent code time =>
    refine ⟨rfl, ?_, h.capacity_eq, h.latest_eq, h.samples_eq⟩
    have hlists := h.lists.insert ⟨code, time⟩
    rwa [h.capacity_eq] at hlists
  | acknowledged code time =>
    simp only [RoundTrip.step, Ledger.step, Ledger.acknowledged]
    cases hfind : l.waiting.find? (·.code = code) with
    | none =>
      rw [h.acknowledged_of_none hfind]
      exact ⟨rfl, h⟩
    | some p => exact h.acknowledged_of_some hfind time

theorem Follows.run (h : r.Follows sampleCount capacity l) (es : List Event) :
    (r.run es).1 = (l.run capacity es).1 ∧
      (r.run es).2.Follows sampleCount capacity (l.run capacity es).2 := by
  induction es generalizing r l with
  | nil => exact ⟨rfl, h⟩
  | cons e es ih =>
    obtain ⟨hanswer, hstep⟩ := h.step e
    obtain ⟨hanswers, hrun⟩ := ih hstep
    refine ⟨?_, hrun⟩
    simp only [RoundTrip.run, Ledger.run, hanswer, hanswers]

theorem run_append (r : RoundTrip) (es es' : List Event) :
    (r.run (es ++ es')).2 = ((r.run es).2.run es').2 := by
  induction es generalizing r with
  | nil => rfl
  | cons e es ih => exact ih (r.step e).2

/-- What is measured is the time since the last sending, which is the last event about the code. -/
theorem lastAbout_of_acknowledged (sampleCount capacity : Nat) (es : List Event) {code : UInt16}
    {time trip : Nat}
    (h : (((create sampleCount capacity).run es).2.acknowledged code time).1 = some trip) :
    ∃ start, lastAbout code es = some (.sent code start) ∧ trip = time - start := by
  obtain ⟨-, hfollows⟩ := (follows_create sampleCount capacity).run es
  have hempty : Ledger.empty.IsRecent [] := fun _ hp => (List.not_mem_nil hp).elim
  have hrecent : (Ledger.empty.run capacity es).2.IsRecent es := hempty.run es
  cases hfind : (Ledger.empty.run capacity es).2.waiting.find? (·.code = code) with
  | none =>
    rw [hfollows.acknowledged_of_none hfind] at h
    cases h
  | some p =>
    rw [(hfollows.acknowledged_of_some hfind time).1] at h
    obtain ⟨hmem, rfl⟩ := find?_code_eq_some hfind
    exact ⟨p.time, hrecent p hmem, (Option.some.inj h).symm⟩

/-- What round trips have come to by events, by the list of the pings that wait. -/
structure Measures (sampleCount capacity : Nat) (es : List Event) (r : RoundTrip) (l : Ledger) :
    Prop where
  /-- the order has the codes of the pings that wait, oldest first, each of them once -/
  order_eq : r.backlog.order = l.waiting.map Ping.code
  nodup : r.backlog.order.Nodup
  length_le : r.backlog.order.length ≤ capacity
  /-- the table has the same codes, each of them once, with the times -/
  keys_perm : r.backlog.times.keys.Perm r.backlog.order
  get?_eq : ∀ code,
    r.backlog.times.get? code = (l.waiting.find? (·.code = code)).map Ping.time
  /-- a ping that waits is measured, which is the last round trip then -/
  measured : ∀ p ∈ l.waiting, ∀ time,
    (r.acknowledged p.code time).1 = some (time - p.time) ∧
      (r.acknowledged p.code time).2.latest = some (time - p.time)
  /-- nothing else is measured or has an effect -/
  unchanged : ∀ code time, code ∉ l.waiting.map Ping.code → r.acknowledged code time = (none, r)
  /-- it is the last sending of a code that is measured, if nothing about the code came behind it -/
  lastSent : ∀ code time trip, (r.acknowledged code time).1 = some trip →
    ∃ start, lastAbout code es = some (.sent code start) ∧ trip = time - start
  /-- so that after an acknowledgement nothing is measured until the code is sent again -/
  once : ∀ code time es' time', (∀ start, .sent code start ∉ es') →
    (((r.acknowledged code time).2.run es').2.acknowledged code time').1 = none

/-- **Round trips are measured for the pings that wait**, whatever is sent and acknowledged.  The
answers are those of the list, and the round trips among them are the samples, the last one being
the last of them; and the backlog is what the list says. -/
theorem measures_remembered (sampleCount capacity : Nat) (es : List Event) :
    let r := (create sampleCount capacity).run es
    let l := Ledger.empty.run capacity es
    r.1 = l.1 ∧
      r.2.latest = (r.1.filterMap id).getLast? ∧
      r.2.samples = ((r.1.filterMap id).map Duration.toSeconds).foldl RollingMean.add
        (.empty sampleCount) ∧
      Measures sampleCount capacity es r.2 l.2 := by
  intro r l
  obtain ⟨hanswers, hfollows⟩ : r.1 = l.1 ∧ r.2.Follows sampleCount capacity l.2 :=
    (follows_create sampleCount capacity).run es
  have htrips : l.2.trips = r.1.filterMap id := by
    rw [hanswers]
    exact Ledger.trips_run .empty es
  have hlists := hfollows.lists
  refine ⟨hanswers, htrips ▸ hfollows.latest_eq, htrips ▸ hfollows.samples_eq, ?_⟩
  refine ⟨hlists.order_eq, hlists.order_eq ▸ hlists.nodup, ?_, hlists.keys_perm, hlists.get?_eq,
    fun p hp time => ?_, fun code time hcode => ?_, fun code time trip h => ?_,
    fun code time es' time' hes' => ?_⟩
  · rw [hlists.order_eq, List.length_map, ← hfollows.capacity_eq]
    exact hlists.length_le
  · obtain ⟨hanswer, hnext⟩ :=
      hfollows.acknowledged_of_some (find?_code_of_mem hlists.nodup hp) time
    exact ⟨hanswer, hnext.latest_eq.trans List.getLast?_concat⟩
  · exact hfollows.acknowledged_of_none (find?_code_eq_none_iff.2 hcode) time
  · exact lastAbout_of_acknowledged sampleCount capacity es h
  · have hrun := run_append (create sampleCount capacity) es (.acknowledged code time :: es')
    cases hanswer : (((r.2.acknowledged code time).2.run es').2.acknowledged code time').1 with
    | none => rfl
    | some trip =>
      -- the acknowledgement is about the code, so the sending must be behind it
      have hlater : (((create sampleCount capacity).run
          (es ++ .acknowledged code time :: es')).2.acknowledged code time').1 = some trip := by
        rw [hrun]
        exact hanswer
      obtain ⟨start, hlast, -⟩ := lastAbout_of_acknowledged sampleCount capacity _ hlater
      rcases mem_of_lastAbout (e := .acknowledged code time) rfl hlast with heq | hmem
      · cases heq
      · exact absurd hmem (hes' start)

end RoundTrip

end Tandem
