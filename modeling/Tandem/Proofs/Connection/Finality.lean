import Tandem.Proofs.Connection.Teardown

/-!
# A connection ends once and for good

Calls that start a connection, send on it and end it may be made at any time, and the threads take
their steps in any order (`System.Leads`).  One of the calls that end the connection returns with
success, and the signal is given for its cause alone.  Once all such calls have returned, the tasks
that were ever started are aborted, none is started any more, and whoever calls later is turned away
at the first step (`Leads.ends_once`).  No call waits for another one: each returns after a number
of steps of its own (`Coherent.hasReturned_run`).
-/

namespace Tandem.Teardown

/-! ### Calls -/

/-- A call that has not taken a step. -/
inductive Thread.IsNew : Thread → Prop
  | disconnect (cause : Cause) : IsNew (.disconnect cause .load)
  | start : IsNew (.start .claim)
  | send (bs : Bytes) (outlet : Outlet) : IsNew (.send bs outlet .load)

theorem Thread.step_of_hasReturned {t : Thread} (h : t.hasReturned = true) (s : Shared) :
    t.step s = (t, s) := by
  cases t with
  | disconnect cause next =>
    cases next with
    | returned won => rfl
    | load | exchange _ | unlist | closeSocket | takeTasks | abort _ | store | signal => cases h
  | start next =>
    cases next with
    | returned => rfl
    | claim | register => cases h
  | send bs outlet next =>
    cases next with
    | returned accepted => cases outlet <;> rfl
    | load | pass => cases h

namespace System

variable {s s' : System} {taskCount : Nat} {i j : Nat} {t : Thread}

/-- How a system goes on: calls are made at any time, and any thread may take the next step. -/
inductive Leads (s : System) : System → Prop
  | refl : Leads s s
  | call {s' : System} {t : Thread} (h : Leads s s') (ht : t.IsNew) : Leads s (s'.call t)
  | step {s' : System} (h : Leads s s') (i : Nat) : Leads s (s'.step i)

theorem Leads.run (h : s.Leads s') (schedule : List Nat) : s.Leads (s'.run schedule) := by
  induction schedule generalizing s' with
  | nil => exact h
  | cons i schedule ih => exact ih (h.step i)

theorem threads_step (s : System) (i j : Nat) :
    (s.step j).threads[i]? =
      if j = i then s.threads[i]?.map fun t => (t.step s.shared).1 else s.threads[i]? := by
  cases ht : s.threads[j]? with
  | none =>
    rw [step_of_none ht]
    split_ifs with hij
    · subst hij
      rw [ht, Option.map_none]
    · rfl
  | some t =>
    simp only [step, ht, List.getElem?_set]
    split_ifs with hij hlen
    · subst hij
      rw [ht, Option.map_some]
    · subst hij
      exact absurd (List.getElem?_eq_some_iff.1 ht).1 hlen
    · rfl

theorem threads_call_of_isNew (ht : t.IsNew) {u : Thread} (hu : u ∈ (s.call t).threads) :
    u ∈ s.threads ∨ u.IsNew := by
  rcases List.mem_append.1 hu with hu | hu
  · exact .inl hu
  · exact .inr (List.mem_singleton.1 hu ▸ ht)

theorem Coherent.call (h : Coherent taskCount s) (ht : t.IsNew) :
    Coherent taskCount (s.call t) := by
  obtain ⟨w, hw, hstage⟩ := h.stage
  refine ⟨⟨w, ?_, hstage⟩, fun u hu => ?_, fun cause hu => ?_, h.taskCount_eq, ?_⟩
  · have hnone : t.winner? = none := by cases ht <;> rfl
    simp only [System.call, List.filterMap_append, hw, List.filterMap_cons, hnone,
      List.filterMap_nil, List.append_nil]
  · rcases threads_call_of_isNew ht hu with hu | hu
    · exact h.seen u hu
    · cases hu <;> exact fun cause seen heq => by cases heq
  · rcases threads_call_of_isNew ht hu with hu | hu
    · exact h.lost cause hu
    · cases hu
  · have hnone : t.isRegistering = false := by cases ht <;> rfl
    simpa [System.call, hnone] using h.spawned_le

theorem Leads.coherent (h : s.Leads s') (hs : Coherent taskCount s) : Coherent taskCount s' := by
  induction h with
  | refl => exact hs
  | call _ ht ih => exact ih.call ht
  | step _ i ih => exact ih.step i

theorem Leads.mem_of_hasReturned (h : s.Leads s') (ht : t.hasReturned = true)
    (hmem : t ∈ s.threads) : t ∈ s'.threads := by
  induction h with
  | refl => exact hmem
  | call _ _ ih => exact List.mem_append_left _ ih
  | @step s' _ i ih =>
    obtain ⟨j, hj⟩ := List.mem_iff_getElem?.1 ih
    refine List.mem_iff_getElem?.2 ⟨j, ?_⟩
    rw [threads_step, hj]
    split_ifs
    · rw [Option.map_some, Thread.step_of_hasReturned ht]
    · rfl

end System

/-! ### Calls return -/

/-- How many steps a call has left at most, where no more than so many tasks are started. -/
def Thread.remaining (taskCount : Nat) : Thread → Nat
  | send _ _ .load => taskCount + 10
  | send _ _ .pass => taskCount + 9
  | disconnect _ .load => taskCount + 8
  | disconnect _ (.exchange _) => taskCount + 7
  | disconnect _ .unlist => taskCount + 6
  | disconnect _ .closeSocket => taskCount + 5
  | disconnect _ .takeTasks => taskCount + 4
  | disconnect _ (.abort ts) => ts.length + 3
  | disconnect _ .store => 2
  | disconnect _ .signal => 1
  | start .claim => 2
  | start .register => 1
  | disconnect _ (.returned _) | start .returned | send _ _ (.returned _) => 0

namespace Thread

variable {s : Shared} {w : Option (Cause × Disconnecting)} {taskCount : Nat} {t : Thread}

theorem hasReturned_of_remaining (h : t.remaining taskCount = 0) : t.hasReturned = true := by
  cases t with
  | disconnect cause next =>
    cases next with
    | returned won => rfl
    | load | exchange _ | unlist | closeSocket | takeTasks | abort _ | store | signal => cases h
  | start next =>
    cases next with
    | returned => rfl
    | claim | register => cases h
  | send bs outlet next =>
    cases next with
    | returned accepted => rfl
    | load | pass => cases h

theorem remaining_le (h : s.Stage w) (t : Thread) (ht : t.winner? = none ∨ t.winner? = w)
    (hspawned : s.spawned ≤ taskCount) : t.remaining taskCount ≤ taskCount + 10 := by
  cases t with
  | disconnect cause next =>
    cases next with
    | abort left =>
      obtain rfl := ht.resolve_left (Option.some_ne_none _)
      cases h with
      | closing hnext => rcases hnext with h | h | h <;> cases h
      | aborting _ _ hleft =>
        have hlen := congrArg List.length hleft
        simp only [List.length_append, List.length_range] at hlen
        simp only [remaining]
        omega
    | load | exchange _ | unlist | closeSocket | takeTasks | store | signal | returned _ =>
      simp only [remaining]
      omega
  | start next => cases next <;> simp only [remaining] <;> omega
  | send bs outlet next => cases next <;> simp only [remaining] <;> omega

/-- **No step is taken in vain:** where a call has not returned, it is nearer to that than before.
An exchange that comes too late is not tried again, because the end has begun by then. -/
theorem remaining_step (h : s.Stage w) (t : Thread) (ht : t.winner? = none ∨ t.winner? = w)
    (hseen : t.GoesBy .connected) (hspawned : s.spawned ≤ taskCount) :
    (t.step s).1.remaining taskCount ≤ t.remaining taskCount - 1 := by
  cases t with
  | disconnect cause next =>
    cases next with
    | load =>
      simp only [step, Disconnecting.step]
      split_ifs <;> simp only [remaining] <;> omega
    | exchange seen =>
      obtain rfl := hseen cause seen rfl
      simp only [step, Disconnecting.step]
      split_ifs with hs he
      · simp only [remaining]
        omega
      · exact Nat.zero_le _
      · rcases h.state_eq_or_isEnding with ⟨hstate, -⟩ | ⟨hending, -⟩
        · exact absurd hstate hs
        · exact absurd hending he
    | takeTasks =>
      obtain rfl := ht.resolve_left (Option.some_ne_none _)
      cases h with
      | closing _ _ htasks =>
        simp only [step, Disconnecting.step, htasks.1, Option.getD_some, remaining,
          List.length_range]
        omega
    | abort left =>
      cases left with
      | nil => exact Nat.le_refl _
      | cons t ts =>
        simp only [step, Disconnecting.step, remaining, List.length_cons]
        omega
    | signal => exact Nat.zero_le _
    | unlist | closeSocket | store | returned _ =>
      simp only [step, Disconnecting.step, remaining]
      omega
  | start next =>
    cases next with
    | claim =>
      simp only [step, Starting.step]
      split_ifs <;> simp [remaining]
    | register =>
      simp only [step, Starting.step]
      split <;> exact Nat.zero_le _
    | returned => exact Nat.zero_le _
  | send bs outlet next =>
    cases next with
    | load =>
      by_cases hs : s.state = .connected
      · cases outlet <;> simp [step, Sending.step, hs, remaining]
      · cases outlet <;> simp [step, Sending.step, hs, remaining]
    | pass =>
      cases outlet with
      | stream taken => cases taken <;> exact Nat.zero_le _
      | datagram _ => exact Nat.zero_le _
      | failing _ => exact Nat.le_refl _
    | returned accepted => cases outlet <;> exact Nat.zero_le _

end Thread

namespace System

variable {s s' : System} {taskCount : Nat} {i j : Nat} {t : Thread}

theorem Coherent.spawned_le_taskCount (h : Coherent taskCount s) : s.shared.spawned ≤ taskCount :=
  Nat.le_trans (Nat.le_add_right _ _) h.spawned_le

theorem Coherent.remaining_step (h : Coherent taskCount s) (i j : Nat)
    (ht : (s.step j).threads[i]? = some t) :
    ∃ t₀, s.threads[i]? = some t₀ ∧
      t.remaining taskCount ≤ t₀.remaining taskCount - if j = i then 1 else 0 := by
  rw [threads_step] at ht
  by_cases hij : j = i
  · rw [if_pos hij] at ht ⊢
    obtain ⟨t₀, ht₀, rfl⟩ := Option.map_eq_some_iff.1 ht
    obtain ⟨w, hstage, hw, hseen⟩ := h.turn ht₀
    exact ⟨t₀, ht₀, t₀.remaining_step hstage hw hseen h.spawned_le_taskCount⟩
  · rw [if_neg hij] at ht ⊢
    exact ⟨t, ht, Nat.le_refl _⟩

theorem Coherent.remaining_run (h : Coherent taskCount s) (i : Nat) (schedule : List Nat)
    (ht : (s.run schedule).threads[i]? = some t) :
    ∃ t₀, s.threads[i]? = some t₀ ∧
      t.remaining taskCount ≤ t₀.remaining taskCount - schedule.count i := by
  -- over the schedule; only the steps of the call itself take it on
  induction schedule generalizing s with
  | nil => exact ⟨t, ht, Nat.le_refl _⟩
  | cons j schedule ih =>
    obtain ⟨t₁, ht₁, hle₁⟩ := ih (h.step j) ht
    obtain ⟨t₀, ht₀, hle₀⟩ := h.remaining_step i j ht₁
    refine ⟨t₀, ht₀, ?_⟩
    rw [List.count_cons]
    simp only [beq_iff_eq]
    omega

/-- **Nobody waits:** whatever the others do, a call returns after a number of steps of its own. -/
theorem Coherent.hasReturned_run (h : Coherent taskCount s) (i : Nat) (schedule : List Nat)
    (hcount : taskCount + 10 ≤ schedule.count i)
    (ht : (s.run schedule).threads[i]? = some t) : t.hasReturned = true := by
  obtain ⟨t₀, ht₀, hle⟩ := h.remaining_run i schedule ht
  obtain ⟨w, hstage, hw, -⟩ := h.turn ht₀
  have hmax := t₀.remaining_le hstage hw h.spawned_le_taskCount
  exact Thread.hasReturned_of_remaining (show t.remaining taskCount = 0 by omega)

end System

/-! ### The call that ended the connection -/

/-- The cause of a call that ended the connection and returned. -/
def Thread.success? : Thread → Option Cause
  | disconnect cause (.returned true) => some cause
  | _ => none

theorem Thread.success?_eq (t : Thread) :
    t.success? = t.winner?.bind fun (cause, next) =>
      if next = .returned true then some cause else none := by
  cases t with
  | disconnect cause next =>
    cases next with
    | returned won => cases won <;> rfl
    | load | exchange _ | unlist | closeSocket | takeTasks | abort _ | store | signal => rfl
  | start _ | send _ _ _ => rfl

namespace System

variable {s s' : System} {taskCount : Nat} {i j : Nat} {t : Thread} {cause : Cause}

/-- The causes of the calls that ended the connection and returned. -/
def successes (s : System) : List Cause := s.threads.filterMap Thread.success?

/-- **One call at most** returns with success, and the signal is given for its cause and no
other. -/
theorem Coherent.signalled_eq (h : Coherent taskCount s) :
    s.shared.signalled = s.successes ∧ s.successes.length ≤ 1 := by
  obtain ⟨w, hw, hstage⟩ := h.stage
  have hsuccesses : s.successes = w.toList.filterMap fun (cause, next) =>
      if next = Disconnecting.returned true then some cause else none := by
    rw [successes, funext Thread.success?_eq, ← hw, List.filterMap_filterMap]
  rw [hsuccesses]
  cases hstage with
  | connected _ _ hsignal => exact ⟨hsignal.2, Nat.zero_le _⟩
  | closing hnext _ _ hsignal =>
    rcases hnext with rfl | rfl | rfl <;> exact ⟨hsignal.2, Nat.zero_le _⟩
  | aborting _ _ _ hsignal | storing _ _ hsignal | signalling _ _ hsignal =>
    exact ⟨hsignal.2, Nat.zero_le _⟩
  | ended _ _ hsignal => exact ⟨hsignal.2, Nat.le_refl _⟩

/-- A connection was ended, and no call that ends it is under way. -/
structure Ended (s : System) : Prop where
  called : ∃ cause next, .disconnect cause next ∈ s.threads
  returned : ∀ cause next, .disconnect cause next ∈ s.threads → ∃ won, next = .returned won

/-- A connection that has ended for a cause. -/
structure Closed (cause : Cause) (s : System) : Prop where
  state_eq : s.shared.state = .disconnected
  successes_eq : s.successes = [cause]
  signalled_eq : s.shared.signalled = [cause]
  alive_eq : s.alive = []

/-- **The end is complete** once a call returns with success. -/
theorem Coherent.closed (h : Coherent taskCount s)
    (hmem : .disconnect cause (.returned true) ∈ s.threads) : Closed cause s := by
  obtain ⟨i, hi⟩ := List.mem_iff_getElem?.1 hmem
  obtain ⟨w, hstage, hw, -⟩ := h.turn hi
  obtain rfl := hw.resolve_left (Option.some_ne_none _)
  -- the call has returned, so it is past all stages but the last
  cases hstage with
  | closing hnext => rcases hnext with h | h | h <;> cases h
  | ended hstate htasks hsignal =>
    refine ⟨hstate, ?_, hsignal.2, ?_⟩
    · rw [← h.signalled_eq.1]
      exact hsignal.2
    · rw [alive, List.filter_eq_nil_iff, htasks.2]
      intro t ht
      simpa using ht

theorem Coherent.exists_success (h : Coherent taskCount s) (hended : s.Ended) :
    ∃ cause, .disconnect cause (.returned true) ∈ s.threads := by
  obtain ⟨cause, next, hmem⟩ := hended.called
  obtain ⟨won, rfl⟩ := hended.returned cause next hmem
  cases won with
  | true => exact ⟨cause, hmem⟩
  | false =>
    -- this one found that the end had begun, so another one got past the exchange
    obtain ⟨w, hw, hstage⟩ := h.stage
    rcases hstage.state_eq_or_isEnding with ⟨hstate, -⟩ | ⟨-, hsome⟩
    · exact absurd (h.lost cause hmem) (by rw [hstate]; decide)
    · obtain ⟨⟨cause', next'⟩, rfl⟩ := Option.isSome_iff_exists.1 hsome
      obtain ⟨t, ht, hwinner⟩ := List.mem_filterMap.1
        (show (cause', next') ∈ s.threads.filterMap Thread.winner? by rw [hw]; simp)
      cases t with
      | disconnect cause'' next'' =>
        obtain ⟨won, rfl⟩ := hended.returned cause'' next'' ht
        cases won with
        | true => exact ⟨cause'', ht⟩
        | false => cases hwinner
      | start _ | send _ _ _ => cases hwinner

end System

/-! ### Calls that come too late -/

/-- The next step of a call is to return without success, and nothing changes by it. -/
def Thread.IsRefused (s : Shared) : Thread → Prop
  | disconnect cause next =>
    (disconnect cause next).step s = (disconnect cause (.returned false), s)
  | start _ => True
  | send bs outlet next => (send bs outlet next).step s = (send bs outlet (.returned false), s)

/-- A call that was made after the end. -/
inductive Thread.IsLate : Thread → Prop
  | new {t : Thread} (h : t.IsNew) : IsLate t
  | start (next : Starting) : IsLate (.start next)
  | lost (cause : Cause) : IsLate (.disconnect cause (.returned false))
  | unsent (bs : Bytes) (outlet : Outlet) : IsLate (.send bs outlet (.returned false))

theorem Thread.IsLate.step {s : Shared} {t : Thread} (h : t.IsLate) (hs : s.state = .disconnected) :
    t.IsRefused s ∧ (t.step s).1.IsLate := by
  cases h with
  | new h =>
    cases h with
    | disconnect cause =>
      have hstep : (Thread.disconnect cause .load).step s =
          (.disconnect cause (.returned false), s) := by
        simp [Thread.step, Disconnecting.step, hs, ConnectionState.isEnding]
      exact ⟨hstep, hstep ▸ .lost cause⟩
    | start => exact ⟨trivial, .start _⟩
    | send bs outlet =>
      have hstep : (Thread.send bs outlet .load).step s =
          (.send bs outlet (.returned false), s) := by
        cases outlet <;> simp [Thread.step, Sending.step, hs]
      exact ⟨hstep, hstep ▸ .unsent bs outlet⟩
  | start next => exact ⟨trivial, .start _⟩
  | lost cause => exact ⟨rfl, .lost cause⟩
  | unsent bs outlet => cases outlet <;> exact ⟨rfl, .unsent bs _⟩

namespace System

variable {s s' : System} {taskCount : Nat} {i : Nat} {t : Thread} {cause : Cause}

/-- Once a call has ended the connection, all calls made from then on come too late. -/
theorem Leads.isLate (h : s.Leads s') (hs : Coherent taskCount s)
    (hmem : .disconnect cause (.returned true) ∈ s.threads) (hi : s.threads.length ≤ i)
    (ht : s'.threads[i]? = some t) : t.IsLate := by
  -- over what has happened since the end; a call is late by its place among the threads
  induction h generalizing t with
  | refl => exact absurd (List.getElem?_eq_some_iff.1 ht).1 (Nat.not_lt.2 hi)
  | @call s' u h hnew ih =>
    rcases Nat.lt_or_ge i s'.threads.length with hlt | hge
    · rw [System.call, List.getElem?_append_left hlt] at ht
      exact ih ht
    · rw [System.call, List.getElem?_append_right hge, List.getElem?_singleton] at ht
      split_ifs at ht
      exact .new (Option.some.inj ht ▸ hnew)
  | @step s' h j ih =>
    have hclosed := (h.coherent hs).closed (h.mem_of_hasReturned rfl hmem)
    rw [threads_step] at ht
    split_ifs at ht with hij
    · obtain ⟨t₀, ht₀, rfl⟩ := Option.map_eq_some_iff.1 ht
      exact ((ih ht₀).step hclosed.state_eq).2
    · exact ih ht

/-- **A connection ends once and for good.**  Whatever calls are made on a connection and however
their steps come in between one another, the signal is given for the one call that returns with
success, the state goes on from one to the next, and every call returns after so many steps of its
own.  Once a connection was ended and all calls that end it have returned, one of them has returned
with success and no task is left that was not aborted; from then on nothing of this changes, and
calls that send or end the connection return without success at their first step, which leaves
everything as it is. -/
theorem Leads.ends_once (h : (idle taskCount).Leads s) :
    s.shared.signalled = s.successes ∧ s.successes.length ≤ 1 ∧
      (∀ i, (s.step i).shared.state = s.shared.state ∨
        s.shared.state.Moves (s.step i).shared.state) ∧
      (∀ i schedule t, taskCount + 10 ≤ schedule.count i → (s.run schedule).threads[i]? = some t →
        t.hasReturned = true) ∧
      (s.Ended → ∃ cause, ∀ s', s.Leads s' → Closed cause s' ∧
        ∀ i t, s.threads.length ≤ i → s'.threads[i]? = some t → t.IsRefused s'.shared) := by
  have hs : Coherent taskCount s := h.coherent (coherent_idle taskCount)
  obtain ⟨hsignalled, honce⟩ := hs.signalled_eq
  refine ⟨hsignalled, honce, hs.state_step,
    fun i schedule t hcount ht => hs.hasReturned_run i schedule hcount ht, fun hended => ?_⟩
  obtain ⟨cause, hmem⟩ := hs.exists_success hended
  refine ⟨cause, fun s' h' => ?_⟩
  have hclosed := (h'.coherent hs).closed (h'.mem_of_hasReturned rfl hmem)
  exact ⟨hclosed, fun i t hi ht => ((h'.isLate hs hmem hi ht).step hclosed.state_eq).1⟩

/-- Two calls race to end a connection while it is started, and the one that looked first loses. -/
def raced : System :=
  ((((idle 2).call (.start .claim)).call (.disconnect ⟨.success, none⟩ .load)).call
    (.disconnect ⟨.timedOut, some .timedOut⟩ .load)).run
      [1, 0, 2, 2, 1, 2, 2, 0, 2, 2, 2, 2, 2, 2]

theorem raced_ends_once :
    (idle 2).Leads raced ∧ raced.Ended ∧ raced.shared.spawned = 2 ∧
      ∃ cause, ∀ s', raced.Leads s' → Closed cause s' ∧
        ∀ i t, raced.threads.length ≤ i → s'.threads[i]? = some t → t.IsRefused s'.shared := by
  have hleads : (idle 2).Leads raced :=
    (((Leads.refl.call .start).call (.disconnect _)).call (.disconnect _)).run _
  have hthreads : raced.threads = [.start .returned,
      .disconnect ⟨.success, none⟩ (.returned false),
      .disconnect ⟨.timedOut, some .timedOut⟩ (.returned true)] := by decide
  have hended : raced.Ended := by
    constructor
    · exact ⟨_, _, hthreads ▸ List.mem_cons_of_mem _ List.mem_cons_self⟩
    · intro cause next hmem
      rw [hthreads] at hmem
      simp only [List.mem_cons, Thread.disconnect.injEq, reduceCtorEq, List.not_mem_nil, or_false,
        false_or] at hmem
      rcases hmem with ⟨-, rfl⟩ | ⟨-, rfl⟩
      · exact ⟨_, rfl⟩
      · exact ⟨_, rfl⟩
  obtain ⟨-, -, -, -, hends⟩ := hleads.ends_once
  exact ⟨hleads, hended, by decide, hends hended⟩

end System

end Tandem.Teardown
