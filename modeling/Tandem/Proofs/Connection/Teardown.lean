import Tandem.Connection.Teardown
import Mathlib.Data.List.Basic
import Mathlib.Tactic.SplitIfs

/-!
# Where a call that ends a connection has come to

At most one of the calls that end a connection gets past exchanging the state (`Thread.winner?`).
How far that call has come says everything about the state, the tasks and the signal of the
connection (`Shared.Stage`).  This is kept by every step of every thread (`Coherent.step`), because
only the call that is past the exchange touches what the stage speaks of; all others go by the state
alone.  A call that starts the connection may add tasks to the list, but only while there is one.
-/

namespace Tandem

/-- The two moves in the life of a connection. -/
inductive ConnectionState.Moves : ConnectionState → ConnectionState → Prop
  | begins : Moves .connected .disconnecting
  | finishes : Moves .disconnecting .disconnected

theorem ConnectionState.Moves.isEnding {a b : ConnectionState} (h : a.Moves b) :
    b.isEnding = true := by
  cases h <;> rfl

namespace Teardown

/-! ### Stages -/

/-- The call has exchanged the state. -/
def Disconnecting.hasWon : Disconnecting → Bool
  | load | exchange _ | returned false => false
  | _ => true

theorem Disconnecting.hasWon_step {cause : Cause} {s : Shared} {next : Disconnecting}
    (h : next.hasWon = true) : (next.step cause s).1.hasWon = true := by
  cases next with
  | load | exchange _ => cases h
  | unlist | closeSocket | takeTasks | store | signal => rfl
  | abort left => cases left <;> rfl
  | returned won => exact h

theorem Disconnecting.step_tasks (cause : Cause) (s : Shared) (next : Disconnecting) :
    (next.step cause s).2.taskCount = s.taskCount ∧
      (next.step cause s).2.spawned = s.spawned ∧
      (next.step cause s).2.startable = s.startable := by
  cases next with
  | exchange seen =>
    simp only [step]
    split_ifs <;> exact ⟨rfl, rfl, rfl⟩
  | abort left => cases left <;> exact ⟨rfl, rfl, rfl⟩
  | signal =>
    simp only [step]
    split_ifs <;> exact ⟨rfl, rfl, rfl⟩
  | load | unlist | closeSocket | takeTasks | store | returned _ => exact ⟨rfl, rfl, rfl⟩

theorem Sending.step_frame (bs : Bytes) (outlet : Outlet) (s : Shared) (next : Sending) :
    ∃ queued datagrams, (next.step bs outlet s).2 = { s with queued, datagrams } := by
  cases next with
  | pass =>
    cases outlet with
    | stream taken => cases taken <;> exact ⟨_, _, rfl⟩
    | datagram _ | failing _ => exact ⟨_, _, rfl⟩
  | load | returned _ => exact ⟨_, _, rfl⟩

theorem Starting.step_frame (s : Shared) (next : Starting) :
    ∃ startable tasks spawned, (next.step s).2 = { s with startable, tasks, spawned } ∧
      (s.startable = false → startable = false) := by
  cases next with
  | claim =>
    simp only [step]
    split_ifs with h
    · exact ⟨false, _, _, rfl, fun _ => rfl⟩
    · exact ⟨_, _, _, rfl, id⟩
  | register =>
    simp only [step]
    split <;> exact ⟨_, _, _, rfl, id⟩
  | returned => exact ⟨_, _, _, rfl, id⟩

/-- A call that has exchanged the state, and its next step. -/
def Thread.winner? : Thread → Option (Cause × Disconnecting)
  | disconnect cause next => if next.hasWon then some (cause, next) else none
  | _ => none

/-- The call is about to start the tasks. -/
def Thread.isRegistering : Thread → Bool
  | start .register => true
  | _ => false

namespace Shared

/-- All tasks are on the list, and none was aborted. -/
def Serving (s : Shared) : Prop := s.tasks = some (List.range s.spawned) ∧ s.aborted = []

/-- There is no list any more, and all tasks were aborted. -/
def Stopped (s : Shared) : Prop := s.tasks = none ∧ s.aborted = List.range s.spawned

/-- The signal was not given. -/
def Silent (s : Shared) : Prop := s.armed = true ∧ s.signalled = []

/-- What a connection is like, given the call that is past exchanging the state. -/
inductive Stage (s : Shared) : Option (Cause × Disconnecting) → Prop
  | connected (hstate : s.state = .connected) (htasks : s.Serving) (hsignal : s.Silent) :
      Stage s none
  | closing {cause : Cause} {next : Disconnecting}
      (hnext : next = .unlist ∨ next = .closeSocket ∨ next = .takeTasks)
      (hstate : s.state = .disconnecting) (htasks : s.Serving) (hsignal : s.Silent) :
      Stage s (some (cause, next))
  | aborting {cause : Cause} {left : List TaskId} (hstate : s.state = .disconnecting)
      (htasks : s.tasks = none) (hleft : s.aborted ++ left = List.range s.spawned)
      (hsignal : s.Silent) : Stage s (some (cause, .abort left))
  | storing {cause : Cause} (hstate : s.state = .disconnecting) (htasks : s.Stopped)
      (hsignal : s.Silent) : Stage s (some (cause, .store))
  | signalling {cause : Cause} (hstate : s.state = .disconnected) (htasks : s.Stopped)
      (hsignal : s.Silent) : Stage s (some (cause, .signal))
  | ended {cause : Cause} (hstate : s.state = .disconnected) (htasks : s.Stopped)
      (hsignal : s.armed = false ∧ s.signalled = [cause]) : Stage s (some (cause, .returned true))

variable {s s' : Shared} {w : Option (Cause × Disconnecting)}

/-- A stage speaks of the state, the tasks and the signal only, and while there is a list of tasks,
it does not matter how many are on it. -/
theorem Stage.congr (h : s.Stage w) (hstate : s'.state = s.state)
    (hsignal : s'.armed = s.armed ∧ s'.signalled = s.signalled)
    (hserving : s.Serving → s'.Serving)
    (hgone : s.tasks = none → s'.tasks = none ∧ s'.aborted = s.aborted ∧ s'.spawned = s.spawned) :
    s'.Stage w := by
  have hsilent : s.Silent → s'.Silent := fun ⟨ha, hs⟩ =>
    ⟨hsignal.1.trans ha, hsignal.2.trans hs⟩
  have hstopped : s.Stopped → s'.Stopped := fun ⟨ht, ha⟩ => by
    obtain ⟨ht', ha', hs'⟩ := hgone ht
    exact ⟨ht', by rw [ha', hs', ha]⟩
  cases h with
  | connected hs ht hq => exact .connected (hstate.trans hs) (hserving ht) (hsilent hq)
  | closing hn hs ht hq => exact .closing hn (hstate.trans hs) (hserving ht) (hsilent hq)
  | aborting hs ht hl hq =>
    obtain ⟨ht', ha', hs'⟩ := hgone ht
    exact .aborting (hstate.trans hs) ht' (by rw [ha', hs', hl]) (hsilent hq)
  | storing hs ht hq => exact .storing (hstate.trans hs) (hstopped ht) (hsilent hq)
  | signalling hs ht hq => exact .signalling (hstate.trans hs) (hstopped ht) (hsilent hq)
  | ended hs ht hq =>
    exact .ended (hstate.trans hs) (hstopped ht) ⟨hsignal.1.trans hq.1, hsignal.2.trans hq.2⟩

/-- As long as nobody has exchanged the state, it is what it was in the beginning; afterwards no
call sees anything but that the end has begun. -/
theorem Stage.state_eq_or_isEnding (h : s.Stage w) :
    s.state = .connected ∧ w = none ∨ s.state.isEnding = true ∧ w.isSome := by
  cases h with
  | connected hs _ _ => exact .inl ⟨hs, rfl⟩
  | closing _ hs _ _ | aborting hs _ _ _ | storing hs _ _ | signalling hs _ _ | ended hs _ _ =>
    exact .inr ⟨by rw [hs]; rfl, rfl⟩

/-- **Steps of the call that is past the exchange** go from one stage to the next. -/
theorem Stage.step {cause : Cause} {next : Disconnecting} (h : s.Stage (some (cause, next))) :
    (next.step cause s).2.Stage (some (cause, (next.step cause s).1)) := by
  cases h with
  | closing hn hs ht hq =>
    -- the last of these steps takes the list of tasks, on which they all are
    rcases hn with rfl | rfl | rfl
    · exact .closing (.inr (.inl rfl)) hs ht hq
    · exact .closing (.inr (.inr rfl)) hs ht hq
    · simp only [Disconnecting.step, ht.1, Option.getD_some]
      exact .aborting hs rfl (by rw [ht.2]; rfl) hq
  | @aborting _ left hs ht hl hq =>
    cases left with
    | nil =>
      rw [List.append_nil] at hl
      exact .storing hs ⟨ht, hl⟩ hq
    | cons t ts =>
      refine .aborting hs ht ?_ hq
      rw [List.append_cons] at hl
      exact hl
  | storing hs ht hq => exact .signalling rfl ht hq
  | signalling hs ht hq =>
    simp only [Disconnecting.step, hq.1, if_true]
    exact .ended hs ht ⟨rfl, by rw [hq.2]; rfl⟩
  | ended hs ht hq => exact .ended hs ht hq

end Shared

/-! ### Steps of any call -/

/-- How the call that is past the exchange, if there is one, and what a thread has of it go on
together. -/
inductive Passes {α : Type} : Option α → Option α → Option α → Option α → Prop
  /-- the thread is not the one -/
  | bystander (w : Option α) : Passes none none w w
  | wins (x : α) : Passes none (some x) none (some x)
  | advances (x y : α) : Passes (some x) (some y) (some x) (some y)

theorem Passes.append_eq {α : Type} {a a' w w' : Option α} (h : Passes a a' w w') {l r : List α}
    (hw : l ++ (a.toList ++ r) = w.toList) : l ++ (a'.toList ++ r) = w'.toList := by
  cases h with
  | bystander => exact hw
  | wins x =>
    obtain ⟨rfl, hr⟩ := List.append_eq_nil_iff.1 hw
    obtain ⟨-, rfl⟩ := List.append_eq_nil_iff.1 hr
    rfl
  | advances x y =>
    -- the entry of the thread is the only one, so there is none in front of it or behind it
    have hlen := congrArg List.length hw
    simp only [List.length_append, Option.length_toList, Option.isSome_some, if_true] at hlen
    obtain rfl := List.length_eq_zero_iff.1 (show l.length = 0 by omega)
    obtain rfl := List.length_eq_zero_iff.1 (show r.length = 0 by omega)
    rfl

theorem eq_none_or_eq_of_append {α : Type} {a w : Option α} {l r : List α}
    (hw : l ++ (a.toList ++ r) = w.toList) : a = none ∨ a = w := by
  cases a with
  | none => exact .inl rfl
  | some x =>
    have hx : x ∈ w.toList := by
      rw [← hw]
      simp
    exact .inr (Option.mem_toList.1 hx).symm

namespace Thread

variable {s : Shared} {w : Option (Cause × Disconnecting)}

/-- Where the call is about to exchange the state, it goes by the given one. -/
def GoesBy (state : ConnectionState) (t : Thread) : Prop :=
  ∀ cause seen, t = .disconnect cause (.exchange seen) → seen = state

/-- **Exchanging the state** that everybody saw in the beginning.  A call that comes too late
returns. -/
theorem stage_step_exchange (h : s.Stage w) (cause : Cause) :
    ∃ w', Passes none
        (disconnect cause ((Disconnecting.exchange .connected).step cause s).1).winner? w w' ∧
      ((Disconnecting.exchange .connected).step cause s).2.Stage w' := by
  rcases h.state_eq_or_isEnding with ⟨hstate, rfl⟩ | ⟨hending, -⟩
  · cases h with
    | connected _ htasks hsignal =>
      simp only [Disconnecting.step, hstate, if_true]
      exact ⟨_, .wins (cause, Disconnecting.unlist), .closing (.inl rfl) rfl htasks hsignal⟩
  · have hne : s.state ≠ .connected := fun heq => by rw [heq] at hending; cases hending
    simp only [Disconnecting.step, hne, hending, if_false, if_true]
    exact ⟨w, .bystander w, h⟩

/-- **Starting tasks** keeps the list complete; where there is none any more, none is started. -/
theorem stage_step_start (h : s.Stage w) (next : Starting) : (next.step s).2.Stage w := by
  cases next with
  | claim =>
    simp only [Starting.step]
    split_ifs
    · exact h.congr rfl ⟨rfl, rfl⟩ id fun ht => ⟨ht, rfl, rfl⟩
    · exact h
  | register =>
    cases ht : s.tasks with
    | none =>
      simp only [Starting.step, ht]
      exact h
    | some ts =>
      simp only [Starting.step, ht]
      refine h.congr rfl ⟨rfl, rfl⟩ (fun hs => ⟨?_, hs.2⟩) fun hgone => ?_
      · obtain rfl : ts = List.range s.spawned := Option.some.inj (ht.symm.trans hs.1)
        simp only [List.range_eq_range', Option.some.injEq]
        have happ := List.range'_append_1 (s := 0) (m := s.spawned) (n := s.taskCount)
        rwa [Nat.zero_add] at happ
      · rw [ht] at hgone
        cases hgone
  | returned => exact h

theorem stage_step_send (h : s.Stage w) (bs : Bytes) (outlet : Outlet) (next : Sending) :
    (next.step bs outlet s).2.Stage w := by
  obtain ⟨queued, datagrams, heq⟩ := next.step_frame bs outlet s
  rw [heq]
  exact h.congr rfl ⟨rfl, rfl⟩ id fun ht => ⟨ht, rfl, rfl⟩

theorem step_send (s : Shared) (bs : Bytes) (outlet : Outlet) (next : Sending) :
    ∃ t, (t = send bs outlet (next.step bs outlet s).1 ∨ ∃ cause, t = disconnect cause .load) ∧
      (send bs outlet next).step s = (t, (next.step bs outlet s).2) := by
  cases next with
  | pass =>
    cases outlet with
    | failing cause => exact ⟨_, .inr ⟨cause, rfl⟩, rfl⟩
    | stream _ | datagram _ => exact ⟨_, .inl rfl, rfl⟩
  | load | returned _ => cases outlet <;> exact ⟨_, .inl rfl, rfl⟩

theorem stage_step (h : s.Stage w) (t : Thread) (ht : t.winner? = none ∨ t.winner? = w)
    (hseen : t.GoesBy .connected) :
    ∃ w', Passes t.winner? (t.step s).1.winner? w w' ∧ (t.step s).2.Stage w' := by
  cases t with
  | disconnect cause next =>
    by_cases hwon : next.hasWon = true
    · -- it is the one, and stays it
      have hself : winner? (.disconnect cause next) = some (cause, next) := if_pos hwon
      have hnext : winner? (.disconnect cause (next.step cause s).1) =
          some (cause, (next.step cause s).1) := if_pos (Disconnecting.hasWon_step hwon)
      rw [hself] at ht ⊢
      obtain rfl := ht.resolve_left (Option.some_ne_none _)
      refine ⟨some (cause, (next.step cause s).1), ?_, h.step⟩
      rw [show winner? ((disconnect cause next).step s).1 = _ from hnext]
      exact .advances _ _
    · cases next with
      | load =>
        simp only [Thread.step, Disconnecting.step]
        split_ifs <;> exact ⟨w, .bystander w, h⟩
      | exchange seen =>
        obtain rfl := hseen cause seen rfl
        exact stage_step_exchange h cause
      | returned won =>
        cases won with
        | false => exact ⟨w, .bystander w, h⟩
        | true => exact absurd rfl hwon
      | unlist | closeSocket | takeTasks | abort _ | store | signal => exact absurd rfl hwon
  | start next => exact ⟨w, .bystander w, stage_step_start h next⟩
  | send bs outlet next =>
    obtain ⟨t, ht', heq⟩ := step_send s bs outlet next
    rw [heq]
    refine ⟨w, ?_, stage_step_send h bs outlet next⟩
    obtain rfl | ⟨cause, rfl⟩ := ht' <;> exact .bystander w

theorem goesBy_step (h : s.Stage w) {t : Thread} (ht : t.GoesBy .connected) :
    (t.step s).1.GoesBy .connected := by
  intro cause seen heq
  cases t with
  | disconnect cause next =>
    -- a call that sees that the end has begun returns, so the others have not seen it
    have hstate : ¬ s.state.isEnding = true → s.state = .connected := fun hn => by
      rcases h.state_eq_or_isEnding with ⟨hs, -⟩ | ⟨he, -⟩
      · exact hs
      · exact absurd he hn
    cases next with
    | load =>
      simp only [Thread.step, Disconnecting.step] at heq
      split_ifs at heq with he
      · cases heq
      · cases heq
        exact hstate he
    | exchange seen =>
      simp only [Thread.step, Disconnecting.step] at heq
      split_ifs at heq with hs he
      · cases heq
      · cases heq
      · cases heq
        exact hstate he
    | abort left => cases left <;> cases heq
    | unlist | closeSocket | takeTasks | store | signal | returned _ => cases heq
  | start _ => cases heq
  | send bs outlet next =>
    obtain ⟨t, ht', hstep⟩ := step_send s bs outlet next
    rw [hstep] at heq
    obtain rfl | ⟨cause, rfl⟩ := ht' <;> cases heq

/-- **The state goes on** from one to the next, or stays. -/
theorem state_step (h : s.Stage w) (t : Thread) (ht : t.winner? = none ∨ t.winner? = w)
    (hseen : t.GoesBy .connected) :
    (t.step s).2.state = s.state ∨ s.state.Moves (t.step s).2.state := by
  cases t with
  | disconnect cause next =>
    cases next with
    | exchange seen =>
      obtain rfl := hseen cause seen rfl
      simp only [Thread.step, Disconnecting.step]
      split_ifs with hs
      · exact .inr (hs ▸ .begins)
      · exact .inl rfl
      · exact .inl rfl
    | store =>
      obtain rfl := ht.resolve_left (Option.some_ne_none _)
      cases h with
      | closing hnext => rcases hnext with h | h | h <;> cases h
      | storing hstate => exact .inr (hstate ▸ .finishes)
    | abort left => cases left <;> exact .inl rfl
    | signal =>
      simp only [Thread.step, Disconnecting.step]
      split_ifs <;> exact .inl rfl
    | load | unlist | closeSocket | takeTasks | returned _ => exact .inl rfl
  | start next =>
    obtain ⟨startable, tasks, spawned, heq, -⟩ := next.step_frame s
    rw [show ((start next).step s).2 = _ from heq]
    exact .inl rfl
  | send bs outlet next =>
    obtain ⟨t, -, hstep⟩ := step_send s bs outlet next
    obtain ⟨queued, datagrams, heq⟩ := next.step_frame bs outlet s
    rw [hstep, heq]
    exact .inl rfl

theorem isEnding_of_returned {t : Thread} {cause : Cause}
    (hlost : t = disconnect cause (.returned false) → s.state.isEnding = true)
    (h : (t.step s).1 = disconnect cause (.returned false)) :
    (t.step s).2.state.isEnding = true := by
  cases t with
  | disconnect cause next =>
    cases next with
    | load =>
      simp only [Thread.step, Disconnecting.step] at h ⊢
      split_ifs at h with he
      · exact he
      · cases h
    | exchange seen =>
      simp only [Thread.step, Disconnecting.step] at h ⊢
      split_ifs at h ⊢ with hs he
      · cases h
      · exact he
      · cases h
    | abort left => cases left <;> cases h
    | returned won =>
      obtain ⟨rfl, rfl⟩ : cause = _ ∧ won = false := by
        cases h
        exact ⟨rfl, rfl⟩
      exact hlost rfl
    | unlist | closeSocket | takeTasks | store | signal => cases h
  | start next => cases h
  | send bs outlet next =>
    obtain ⟨t, ht, hstep⟩ := step_send s bs outlet next
    rw [hstep] at h
    obtain rfl | ⟨cause, rfl⟩ := ht <;> cases h

/-- Only calls that start the connection have to do with the number of tasks: the tasks that were
started and those that may still be are not more than before. -/
theorem spawned_step (t : Thread) :
    (t.step s).2.taskCount = s.taskCount ∧
      (t.step s).2.spawned +
          ((t.step s).2.startable.toNat + (t.step s).1.isRegistering.toNat) * s.taskCount ≤
        s.spawned + (s.startable.toNat + t.isRegistering.toNat) * s.taskCount := by
  cases t with
  | disconnect cause next =>
    obtain ⟨hcount, hspawned, hstartable⟩ := next.step_tasks cause s
    refine ⟨hcount, Nat.le_of_eq ?_⟩
    simp only [Thread.step, hspawned, hstartable]
    rfl
  | start next =>
    cases next with
    | claim =>
      by_cases hs : s.startable = true
      · simp [Thread.step, Starting.step, hs, isRegistering]
      · simp [Thread.step, Starting.step, hs, isRegistering]
    | register =>
      cases ht : s.tasks with
      | none => simp [Thread.step, Starting.step, ht, isRegistering, Nat.add_mul]
      | some ts =>
        simp only [Thread.step, Starting.step, ht, isRegistering, Nat.add_mul, true_and,
          Bool.toNat_true, Bool.toNat_false]
        omega
    | returned => exact ⟨rfl, Nat.le_refl _⟩
  | send bs outlet next =>
    obtain ⟨t, ht, hstep⟩ := step_send s bs outlet next
    obtain ⟨queued, datagrams, heq⟩ := next.step_frame bs outlet s
    rw [hstep, heq]
    refine ⟨rfl, Nat.le_of_eq ?_⟩
    obtain rfl | ⟨cause, rfl⟩ := ht <;> rfl

end Thread

/-! ### One thread among others -/

namespace System

variable {s : System} {i : Nat} {t : Thread}

theorem exists_threads_eq (h : s.threads[i]? = some t) :
    ∃ before after, s.threads = before ++ t :: after ∧
      (s.step i).threads = before ++ (t.step s.shared).1 :: after ∧
      (s.step i).shared = (t.step s.shared).2 := by
  obtain ⟨hi, ht⟩ := List.getElem?_eq_some_iff.1 h
  refine ⟨s.threads.take i, s.threads.drop (i + 1), ?_, ?_, ?_⟩
  · rw [← ht, List.getElem_cons_drop, List.take_append_drop]
  · simp only [step, h, List.set_eq_take_append_cons_drop, hi, if_true]
  · simp only [step, h]

theorem step_of_none (h : s.threads[i]? = none) : s.step i = s := by
  simp only [step, h]

theorem mem_threads_step (h : s.threads[i]? = some t) {u : Thread} (hu : u ∈ (s.step i).threads) :
    u ∈ s.threads ∨ u = (t.step s.shared).1 := by
  obtain ⟨before, after, hthreads, hthreads', -⟩ := exists_threads_eq h
  rw [hthreads] at *
  rw [hthreads'] at hu
  rcases List.mem_append.1 hu with hb | ha
  · exact .inl (List.mem_append_left _ hb)
  · rcases List.mem_cons.1 ha with heq | ha
    · exact .inr heq
    · exact .inl (List.mem_append_right _ (List.mem_cons_of_mem _ ha))

/-! ### What is kept -/

/-- The shared part is at the stage of the one call that is past the exchange, the others go by a
state that was not ending yet or returned because the end had begun, and no more tasks can be
started than there are. -/
structure Coherent (taskCount : Nat) (s : System) : Prop where
  stage : ∃ w : Option (Cause × Disconnecting),
    s.threads.filterMap Thread.winner? = w.toList ∧ s.shared.Stage w
  seen : ∀ t ∈ s.threads, t.GoesBy .connected
  lost : ∀ cause, .disconnect cause (.returned false) ∈ s.threads → s.shared.state.isEnding = true
  taskCount_eq : s.shared.taskCount = taskCount
  spawned_le : s.shared.spawned +
    (s.shared.startable.toNat + s.threads.countP Thread.isRegistering) * taskCount ≤ taskCount

/-- A connection that nobody has called. -/
def idle (taskCount : Nat) : System := ⟨.initial taskCount, []⟩

variable {taskCount : Nat}

theorem coherent_idle (taskCount : Nat) : Coherent taskCount (idle taskCount) where
  stage := ⟨none, rfl, .connected rfl ⟨rfl, rfl⟩ ⟨rfl, rfl⟩⟩
  seen t h := by cases h
  lost cause h := by cases h
  taskCount_eq := rfl
  spawned_le := by simp [idle, Shared.initial]

namespace Coherent

theorem turn (h : Coherent taskCount s) (ht : s.threads[i]? = some t) :
    ∃ w, s.shared.Stage w ∧ (t.winner? = none ∨ t.winner? = w) ∧ t.GoesBy .connected := by
  obtain ⟨before, after, hthreads, -⟩ := exists_threads_eq ht
  obtain ⟨w, hw, hstage⟩ := h.stage
  rw [hthreads, List.filterMap_eq_flatMap_toList, List.flatMap_append, List.flatMap_cons] at hw
  exact ⟨w, hstage, eq_none_or_eq_of_append hw, h.seen t (List.mem_of_getElem? ht)⟩

theorem state_step (h : Coherent taskCount s) (i : Nat) :
    (s.step i).shared.state = s.shared.state ∨
      s.shared.state.Moves (s.step i).shared.state := by
  cases ht : s.threads[i]? with
  | none => exact .inl (by rw [step_of_none ht])
  | some t =>
    obtain ⟨-, -, -, -, hshared⟩ := exists_threads_eq ht
    obtain ⟨w, hstage, hw, hseen⟩ := h.turn ht
    rw [hshared]
    exact t.state_step hstage hw hseen

theorem isEnding_step (h : Coherent taskCount s) (hs : s.shared.state.isEnding = true) (i : Nat) :
    (s.step i).shared.state.isEnding = true := by
  rcases h.state_step i with heq | hmoves
  · rwa [heq]
  · exact hmoves.isEnding

/-- **Every step of any thread** keeps a system coherent. -/
theorem step (h : Coherent taskCount s) (i : Nat) : Coherent taskCount (s.step i) := by
  cases ht : s.threads[i]? with
  | none => rwa [step_of_none ht]
  | some t =>
    obtain ⟨before, after, hthreads, hthreads', hshared⟩ := exists_threads_eq ht
    have hmem : t ∈ s.threads := List.mem_of_getElem? ht
    obtain ⟨w, hw, hstage⟩ := h.stage
    have hseen : t.GoesBy .connected := h.seen t hmem
    rw [hthreads, List.filterMap_eq_flatMap_toList, List.flatMap_append, List.flatMap_cons] at hw
    obtain ⟨w', hpasses, hstage'⟩ := t.stage_step hstage (eq_none_or_eq_of_append hw) hseen
    refine ⟨⟨w', ?_, hshared ▸ hstage'⟩, ?_, ?_, ?_, ?_⟩
    · rw [hthreads', List.filterMap_eq_flatMap_toList, List.flatMap_append, List.flatMap_cons]
      exact hpasses.append_eq hw
    · intro u hu
      rcases mem_threads_step ht hu with hu | rfl
      · exact h.seen u hu
      · exact Thread.goesBy_step hstage hseen
    · intro cause hu
      rcases mem_threads_step ht hu with hu | heq
      · exact h.isEnding_step (h.lost cause hu) i
      · rw [hshared]
        exact Thread.isEnding_of_returned (fun heq => h.lost cause (heq ▸ hmem)) heq.symm
    · rw [hshared, t.spawned_step.1, h.taskCount_eq]
    -- of the calls that may still start tasks, only this one has changed
    · have hb := h.spawned_le
      have hs := (t.spawned_step (s := s.shared)).2
      rw [h.taskCount_eq] at hs
      rw [hthreads] at hb
      rw [hshared, hthreads']
      have hcons (u : Thread) : (u :: after).countP Thread.isRegistering =
          after.countP Thread.isRegistering + u.isRegistering.toNat := by
        cases hu : u.isRegistering <;> simp [hu]
      simp only [List.countP_append, hcons, Nat.add_mul] at hb hs ⊢
      omega

end Coherent

end System

end Teardown

end Tandem
