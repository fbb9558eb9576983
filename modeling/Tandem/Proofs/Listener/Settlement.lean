import Tandem.Listener.Settlement
import Tandem.Proofs.Listener.Pending
import Mathlib.Data.List.Perm.Basic
import Mathlib.Tactic.SplitIfs

/-!
# Every pending handshake is settled once

What the calls on a table of pending handshakes have registered is in the table or has left it by
one of them, and what was given up is closed or will be by the call that took it
(`System.Balanced`).  A step of a call moves streams from one of these places to another
(`Call.registered_step`, `Call.closed_step`), so that the books stay balanced whatever the calls are
and however their steps come in between one another.
-/

namespace Tandem.Settlement

/-! ### What a call has done -/

/-- What the call took out of the table. -/
def Dismissing.taken : Dismissing → List Ticket
  | take => []
  | count taken | close taken _ => taken

namespace Call

/-- What the call has registered. -/
def registered : Call → List Ticket
  | register e _ (some t) => [(t, e)]
  | _ => []

/-- What the call has completed and handed over. -/
def completed : Call → List Ticket
  | complete t (some e) => e.toList.map (t, ·)
  | _ => []

/-- What the call has given up. -/
def dismissed : Call → List (Manner × Ticket)
  | dismiss d next => next.taken.map (d.manner, ·)
  | _ => []

/-- What the call has given up and not closed yet. -/
def unclosed : Call → List (Manner × StreamId)
  | dismiss d (.count taken) => taken.map fun k => (d.manner, k.2.stream)
  | dismiss d (.close _ left) => left.map (d.manner, ·)
  | _ => []

/-- Whether the call has taken an expired stream and not counted it yet. -/
def isCounting : Call → Bool
  | dismiss _ (.count _) => true
  | _ => false

/-- What has left the table by the call. -/
def left (c : Call) : List Ticket := c.completed ++ c.dismissed.map Prod.snd

/-- What the call has to close. -/
def toClose (c : Call) : List (Manner × StreamId) :=
  c.dismissed.map fun k => (k.1, k.2.2.stream)

theorem left_complete (t : Token) (answer : Option Pending.Entry) :
    (complete t (some answer)).left = answer.toList.map (t, ·) := List.append_nil _

theorem left_dismiss (d : Dismissal) (next : Dismissing) : (dismiss d next).left = next.taken := by
  simp only [left, completed, dismissed, List.map_map, List.nil_append]
  exact List.map_id _

theorem toClose_dismiss (d : Dismissal) (next : Dismissing) :
    (dismiss d next).toClose = next.taken.map fun k => (d.manner, k.2.stream) := List.map_map

theorem step_register (s : Shared) (e : Pending.Entry) (draws : List Token) :
    (s.pending.fresh? draws = none ∧ (register e draws none).step s = (register e draws none, s)) ∨
      ∃ t, s.pending.fresh? draws = some t ∧ (register e draws none).step s =
        (register e draws (some t),
          { s with pending := { s.pending with entries := s.pending.entries.set t e } }) := by
  simp only [step, Pending.register]
  cases hfresh : s.pending.fresh? draws with
  | none => exact .inl ⟨rfl, rfl⟩
  | some t => exact .inr ⟨t, rfl, rfl⟩

end Call

theorem Dismissal.entries_take (d : Dismissal) (p : Pending) :
    p.entries.entries.Perm ((d.take p).1 ++ (d.take p).2.entries.entries) := by
  have hcomplete (t : Token) : p.entries.entries.Perm
      ((p.complete t).1.toList.map (t, ·) ++ (p.complete t).2.entries.entries) := by
    rw [Pending.complete_eq]
    cases hget : p.entries.get? t with
    | none => rw [Table.erase_of_get?_none hget]; rfl
    | some e => exact Table.entries_perm hget
  cases d with
  | abandon t | expire t => exact hcomplete t
  | clear => exact List.Perm.of_eq (List.append_nil _).symm

theorem Dismissal.taken_next (d : Dismissal) (taken : List Ticket) :
    (d.next taken).taken = taken := by
  cases d <;> cases taken <;> rfl

theorem Dismissal.unclosed_next (d : Dismissal) (taken : List Ticket) :
    (Call.dismiss d (d.next taken)).unclosed =
      taken.map fun k => (d.manner, k.2.stream) := by
  cases d <;> cases taken <;>
    simp only [next, Call.unclosed, List.map_map, List.map_nil, Function.comp_def]

namespace Call

theorem step_complete (s : Shared) (t : Token) : (complete t none).step s =
    (complete t (some (s.pending.complete t).1), { s with pending := (s.pending.complete t).2 }) :=
  rfl

theorem step_take (s : Shared) (d : Dismissal) : (dismiss d .take).step s =
    (dismiss d (d.next (d.take s.pending).1), { s with pending := (d.take s.pending).2 }) := rfl

/-- **What is registered** is in the table or has left it. -/
theorem registered_step (c : Call) (s : Shared) :
    ((c.step s).1.registered ++ (s.pending.entries.entries ++ c.left)).Perm
      (c.registered ++ ((c.step s).2.pending.entries.entries ++ (c.step s).1.left)) := by
  cases c with
  | register e draws answer =>
    cases answer with
    | none =>
      rcases step_register s e draws with ⟨-, hstep⟩ | ⟨t, hfresh, hstep⟩
      · rw [hstep]
      · rw [hstep]
        have hset : (s.pending.entries.set t e).entries = (t, e) :: s.pending.entries.entries := by
          simp only [Table.set, Table.erase_of_get?_none (Pending.fresh?_eq_some hfresh).2]
        exact List.Perm.of_eq (congrArg (· ++ []) hset).symm
    | some t => exact List.Perm.refl _
  | complete t answer =>
    cases answer with
    | none =>
      have hentries := (Dismissal.abandon t).entries_take s.pending
      rw [step_complete, left_complete]
      exact (List.Perm.of_eq (List.append_nil _)).trans (hentries.trans List.perm_append_comm)
    | some e => exact List.Perm.refl _
  | dismiss d next =>
    cases next with
    | take =>
      have hentries := d.entries_take s.pending
      rw [step_take, left_dismiss, left_dismiss, Dismissal.taken_next]
      exact (List.Perm.of_eq (List.append_nil _)).trans (hentries.trans List.perm_append_comm)
    | count taken => exact List.Perm.refl _
    | close taken left => cases left <;> exact List.Perm.refl _

/-- **What is given up** is closed or will be. -/
theorem closed_step (c : Call) (s : Shared) :
    ((c.step s).2.closed ++ (c.step s).1.unclosed ++ c.toClose).Perm
      (s.closed ++ c.unclosed ++ (c.step s).1.toClose) := by
  cases c with
  | register e draws answer =>
    cases answer with
    | none =>
      rcases step_register s e draws with ⟨-, hstep⟩ | ⟨t, -, hstep⟩ <;>
        exact hstep ▸ List.Perm.refl _
    | some t => exact List.Perm.refl _
  | complete t answer => cases answer <;> exact List.Perm.refl _
  | dismiss d next =>
    cases next with
    | take =>
      rw [step_take, Dismissal.unclosed_next, toClose_dismiss, toClose_dismiss,
        Dismissal.taken_next]
      refine List.Perm.of_eq ?_
      simp only [Dismissing.taken, unclosed, List.map_nil, List.append_nil]
    | count taken =>
      have hunclosed : (dismiss d (.close taken (taken.map fun k => k.2.stream))).unclosed =
          (dismiss d (.count taken)).unclosed := List.map_map
      exact List.Perm.of_eq (congrArg (fun l => s.closed ++ l ++ _) hunclosed)
    | close taken left =>
      cases left with
      | nil => exact List.Perm.refl _
      | cons x left =>
        exact List.Perm.of_eq (congrArg (· ++ _) (List.append_cons s.closed _ _).symm)

theorem timeouts_take (d : Dismissal) (p : Pending) : (d.take p).2.timeouts = p.timeouts := by
  cases d with
  | abandon t | expire t => simp only [Dismissal.take, Pending.complete_eq]
  | clear => rfl

theorem countP_expired (d : Dismissal) (next : Dismissing) :
    (dismiss d next).dismissed.countP (fun k => k.1 = .expired) =
      if d.manner = .expired then next.taken.length else 0 := by
  simp only [dismissed, List.countP_map]
  split_ifs with hd <;> simp [hd, Function.comp_def]

theorem isCounting_next (d : Dismissal) (p : Pending) :
    (dismiss d (d.next (d.take p).1)).isCounting.toNat =
      if d.manner = .expired then (d.take p).1.length else 0 := by
  cases d with
  | abandon t | clear => rfl
  | expire t =>
    simp only [Dismissal.take]
    cases (p.complete t).1 <;> rfl

/-- **Timeouts** are the expired streams that were counted. -/
theorem timeouts_step (c : Call) (s : Shared) :
    (c.step s).2.pending.timeouts + (c.step s).1.isCounting.toNat +
        c.dismissed.countP (fun k => k.1 = .expired) =
      s.pending.timeouts + c.isCounting.toNat +
        (c.step s).1.dismissed.countP (fun k => k.1 = .expired) := by
  cases c with
  | register e draws answer =>
    cases answer with
    | none =>
      rcases step_register s e draws with ⟨-, hstep⟩ | ⟨t, -, hstep⟩ <;> exact hstep ▸ rfl
    | some t => rfl
  | complete t answer =>
    cases answer with
    | none => exact congrArg (· + 0 + 0) (timeouts_take (.abandon t) s.pending)
    | some e => rfl
  | dismiss d next =>
    cases next with
    | take =>
      rw [step_take, timeouts_take, isCounting_next, countP_expired, countP_expired,
        Dismissal.taken_next]
      simp only [Dismissing.taken, List.length_nil, ite_self, isCounting, Bool.toNat_false,
        Nat.add_zero]
    | count taken =>
      simp only [step, Dismissing.step, isCounting, dismissed, Dismissing.taken]
      rfl
    | close taken left => cases left <;> rfl

end Call

/-! ### One call among others -/

theorem perm_exchange {α : Type} [DecidableEq α] {a a' b b' r l : List α}
    (hstep : (a' ++ b).Perm (a ++ b')) (h : (a ++ r).Perm (b ++ l)) :
    (a' ++ r).Perm (b' ++ l) := by
  rw [List.perm_iff_count] at *
  intro x
  have hx := h x
  have hstepx := hstep x
  simp only [List.count_append] at *
  omega

namespace System

variable {s s' : System} {i : Nat} {c : Call}

theorem exists_calls_perm (h : s.calls[i]? = some c) :
    ∃ others, s.calls.Perm (c :: others) ∧
      (s.step i).calls.Perm ((c.step s.shared).1 :: others) ∧
      (s.step i).shared = (c.step s.shared).2 := by
  obtain ⟨hi, rfl⟩ := List.getElem?_eq_some_iff.1 h
  refine ⟨s.calls.eraseIdx i, (List.getElem_cons_eraseIdx_perm hi).symm, ?_, ?_⟩
  · simp only [step, h]
    exact List.set_perm_cons_eraseIdx hi _
  · simp only [step, h]

theorem step_of_none (h : s.calls[i]? = none) : s.step i = s := by
  simp only [step, h]

/-! ### The books -/

/-- What was registered. -/
def registered (s : System) : List Ticket := s.calls.flatMap Call.registered

/-- What was completed and handed over. -/
def completed (s : System) : List Ticket := s.calls.flatMap Call.completed

/-- What was given up, and how. -/
def dismissed (s : System) : List (Manner × Ticket) := s.calls.flatMap Call.dismissed

/-- What was given up and not closed yet. -/
def unclosed (s : System) : List (Manner × StreamId) := s.calls.flatMap Call.unclosed

/-- The number of expired streams that were not counted yet. -/
def uncounted (s : System) : Nat := s.calls.countP Call.isCounting

/-- Nothing is lost, and nothing is there twice. -/
structure Balanced (s : System) : Prop where
  registered : s.registered.Perm (s.shared.pending.entries.entries ++ s.calls.flatMap Call.left)
  closed : (s.shared.closed ++ s.unclosed).Perm (s.calls.flatMap Call.toClose)
  timeouts : s.shared.pending.timeouts + s.uncounted = s.dismissed.countP fun k => k.1 = .expired

theorem balanced_idle : idle.Balanced := ⟨List.Perm.refl _, List.Perm.refl _, rfl⟩

/-- **Every step of any call** keeps the books balanced. -/
theorem Balanced.step (h : s.Balanced) (i : Nat) : (s.step i).Balanced := by
  cases hc : s.calls[i]? with
  | none => rwa [step_of_none hc]
  | some c =>
    obtain ⟨others, hcalls, hcalls', hshared⟩ := exists_calls_perm hc
    refine ⟨?_, ?_, ?_⟩
    · have hbooks : (c.registered ++ others.flatMap Call.registered).Perm
          ((s.shared.pending.entries.entries ++ c.left) ++ others.flatMap Call.left) := by
        rw [List.append_assoc]
        exact ((hcalls.flatMap_right _).symm.trans h.registered).trans
          ((hcalls.flatMap_right _).append_left _)
      rw [hshared]
      refine (hcalls'.flatMap_right _).trans
        ((perm_exchange (c.registered_step s.shared) hbooks).trans ?_)
      rw [List.append_assoc]
      exact ((hcalls'.flatMap_right _).append_left _).symm
    · have hbooks : ((s.shared.closed ++ c.unclosed) ++ others.flatMap Call.unclosed).Perm
          (c.toClose ++ others.flatMap Call.toClose) := by
        rw [List.append_assoc]
        exact (((hcalls.flatMap_right _).append_left _).symm.trans h.closed).trans
          (hcalls.flatMap_right _)
      rw [hshared]
      refine List.Perm.trans ?_ ((perm_exchange (c.closed_step s.shared) hbooks).trans
        (hcalls'.flatMap_right _).symm)
      rw [List.append_assoc]
      exact (hcalls'.flatMap_right _).append_left _
    · have hstep := c.timeouts_step s.shared
      have hbooks := h.timeouts
      have hcons (c : Call) : (c :: others).countP Call.isCounting =
          others.countP Call.isCounting + c.isCounting.toNat := by
        cases hcounting : c.isCounting <;> simp [hcounting]
      rw [hshared]
      simp only [uncounted, dismissed, hcalls.countP_eq, (hcalls.flatMap_right _).countP_eq,
        hcalls'.countP_eq, (hcalls'.flatMap_right _).countP_eq, hcons, List.flatMap_cons,
        List.countP_append] at hbooks ⊢
      omega

end System

/-! ### Every course of calls -/

/-- A call that has not taken a step. -/
inductive Call.IsNew : Call → Prop
  | register (e : Pending.Entry) (draws : List Token) : IsNew (.register e draws none)
  | complete (t : Token) : IsNew (.complete t none)
  | dismiss (d : Dismissal) : IsNew (.dismiss d .take)

namespace System

variable {s s' : System} {i : Nat} {c : Call}

/-- How a system goes on: calls are made at any time, and any call may take the next step. -/
inductive Leads (s : System) : System → Prop
  | refl : Leads s s
  | call {s' : System} {c : Call} (h : Leads s s') (hc : c.IsNew) : Leads s (s'.call c)
  | step {s' : System} (h : Leads s s') (i : Nat) : Leads s (s'.step i)

theorem Leads.run (h : s.Leads s') (schedule : List Nat) : s.Leads (s'.run schedule) := by
  induction schedule generalizing s' with
  | nil => exact h
  | cons i schedule ih => exact ih (h.step i)

theorem Balanced.call (h : s.Balanced) (hc : c.IsNew) : (s.call c).Balanced := by
  -- a new call has not done anything
  have hnothing {α : Type} (f : Call → List α) (hf : f c = []) :
      (s.call c).calls.flatMap f = s.calls.flatMap f := by
    simp [System.call, hf]
  have hregistered : c.registered = [] := by cases hc <;> rfl
  have hleft : c.left = [] := by cases hc <;> rfl
  have hunclosed : c.unclosed = [] := by cases hc <;> rfl
  have htoClose : c.toClose = [] := by cases hc <;> rfl
  have hdismissed : c.dismissed = [] := by cases hc <;> rfl
  have hcounting : c.isCounting = false := by cases hc <;> rfl
  refine ⟨?_, ?_, ?_⟩
  · rw [System.registered, hnothing _ hregistered, hnothing _ hleft]
    exact h.registered
  · rw [System.unclosed, hnothing _ hunclosed, hnothing _ htoClose]
    exact h.closed
  · have huncounted : (s.call c).uncounted = s.uncounted := by
      simp [System.uncounted, System.call, hcounting]
    rw [System.dismissed, hnothing _ hdismissed, huncounted]
    exact h.timeouts

theorem Leads.balanced (h : s.Leads s') (hs : s.Balanced) : s'.Balanced := by
  induction h with
  | refl => exact hs
  | call _ hc ih => exact ih.call hc
  | step _ i ih => exact ih.step i

/-! ### How streams are settled -/

/-- The streams that were given up in this manner. -/
def givenUp (s : System) (m : Manner) : List Ticket :=
  (s.dismissed.filter fun k => k.1 = m).map Prod.snd

/-- The streams that were closed in this manner. -/
def closedBy (s : System) (m : Manner) : List StreamId :=
  (s.shared.closed.filter fun k => k.1 = m).map Prod.snd

/-- The streams that were given up in this manner and not closed yet. -/
def unclosedBy (s : System) (m : Manner) : List StreamId :=
  (s.unclosed.filter fun k => k.1 = m).map Prod.snd

/-- Whatever is given up is given up in one of three manners. -/
theorem perm_manners {α : Type} (l : List (Manner × α)) :
    (l.map Prod.snd).Perm ((l.filter fun k => k.1 = .abandoned).map Prod.snd ++
      ((l.filter fun k => k.1 = .expired).map Prod.snd ++
        (l.filter fun k => k.1 = .cleared).map Prod.snd)) := by
  induction l with
  | nil => exact List.Perm.refl _
  | cons k l ih =>
    obtain ⟨m, a⟩ := k
    cases m with
    | abandoned => exact ih.cons a
    | expired => exact (ih.cons a).trans List.perm_middle.symm
    | cleared =>
      refine (ih.cons a).trans ?_
      exact List.perm_middle.symm.trans (List.perm_middle.symm.append_left _)

/-- No call that gives streams up is half done. -/
def AtRest (s : System) : Prop :=
  ∀ d next, .dismiss d next ∈ s.calls → next = .take ∨ ∃ taken, next = .close taken []

theorem AtRest.unclosed_eq (h : s.AtRest) : s.unclosed = [] ∧ s.uncounted = 0 := by
  constructor
  · refine List.flatMap_eq_nil_iff.2 fun c hc => ?_
    cases c with
    | dismiss d next =>
      obtain rfl | ⟨taken, rfl⟩ := h d next hc <;> rfl
    | register _ _ _ | complete _ _ => rfl
  · refine List.countP_eq_zero.2 fun c hc => ?_
    cases c with
    | dismiss d next =>
      obtain rfl | ⟨taken, rfl⟩ := h d next hc <;> exact Bool.false_ne_true
    | register _ _ _ | complete _ _ => exact Bool.false_ne_true

/-- Every stream that was registered is settled once, or waits. -/
structure Settled (s : System) : Prop where
  /-- no two streams wait under one token -/
  distinct : s.shared.pending.entries.keys.Nodup
  /-- what was registered waits, with the token and the address that it was registered with, or has
  left the table in one of four ways -/
  balance : s.registered.Perm (s.shared.pending.entries.entries ++ (s.completed ++
    (s.givenUp .abandoned ++ (s.givenUp .expired ++ s.givenUp .cleared))))
  /-- what was given up is closed or will be by the call that took it, and nothing else is closed -/
  closed : ∀ m, (s.closedBy m ++ s.unclosedBy m).Perm ((s.givenUp m).map fun k => k.2.stream)
  /-- what was completed is not closed -/
  spared : (s.registered.map fun k => k.2.stream).Nodup →
    ∀ k ∈ s.completed, ∀ m, k.2.stream ∉ s.closedBy m
  /-- timeouts are the expired streams, each counted by the call that took it -/
  counted : s.shared.pending.timeouts + s.uncounted = (s.givenUp .expired).length
  total : s.registered.length = s.shared.pending.size + s.completed.length +
    (s.shared.pending.timeouts + s.uncounted) + (s.givenUp .abandoned).length +
      (s.givenUp .cleared).length
  /-- where no call is half done, whatever expired is counted and whatever was given up is closed -/
  rest : s.AtRest → s.registered.length = s.shared.pending.size + s.completed.length +
      s.shared.pending.timeouts + (s.givenUp .abandoned).length + (s.givenUp .cleared).length ∧
    s.shared.pending.timeouts = (s.closedBy .expired).length ∧
    ∀ m, (s.closedBy m).Perm ((s.givenUp m).map fun k => k.2.stream)

theorem Balanced.balance (h : s.Balanced) :
    s.registered.Perm (s.shared.pending.entries.entries ++ (s.completed ++
      (s.givenUp .abandoned ++ (s.givenUp .expired ++ s.givenUp .cleared)))) := by
  have hleft : (s.calls.flatMap Call.left).Perm (s.completed ++ s.dismissed.map Prod.snd) := by
    rw [dismissed, List.map_flatMap]
    exact (List.flatMap_append_perm _ _ _).symm
  exact h.registered.trans ((hleft.trans ((perm_manners _).append_left _)).append_left _)

theorem Balanced.closedBy (h : s.Balanced) (m : Manner) :
    (s.closedBy m ++ s.unclosedBy m).Perm ((s.givenUp m).map fun k => k.2.stream) := by
  have htoClose : s.calls.flatMap Call.toClose =
      s.dismissed.map fun k => (k.1, k.2.2.stream) := (List.map_flatMap ..).symm
  have hclosed := h.closed
  rw [htoClose] at hclosed
  have hmanner := (hclosed.filter fun k => k.1 = m).map Prod.snd
  rw [List.filter_append, List.map_append, List.filter_map, List.map_map] at hmanner
  rw [givenUp, List.map_map]
  exact hmanner

theorem Balanced.settled (h : s.Balanced) : s.Settled := by
  have hcounted : s.shared.pending.timeouts + s.uncounted = (s.givenUp .expired).length := by
    rw [h.timeouts, givenUp, List.length_map, List.countP_eq_length_filter]
  have htotal : s.registered.length = s.shared.pending.size + s.completed.length +
      (s.shared.pending.timeouts + s.uncounted) + (s.givenUp .abandoned).length +
        (s.givenUp .cleared).length := by
    rw [hcounted, h.balance.length_eq]
    simp only [List.length_append, Pending.size, Table.size]
    omega
  refine ⟨s.shared.pending.entries.nodup_keys, h.balance, h.closedBy, fun hnodup k hk m hm => ?_,
    hcounted, htotal, fun hrest => ?_⟩
  · -- the stream would be completed and given up
    obtain ⟨k', hk', hstream⟩ := List.mem_map.1 ((h.closedBy m).subset (List.mem_append_left _ hm))
    have hdismissed : k' ∈ s.givenUp .abandoned ++ (s.givenUp .expired ++ s.givenUp .cleared) := by
      cases m <;> simp only [List.mem_append, hk', true_or, or_true]
    have hstreams := (h.balance.map fun k => k.2.stream).nodup_iff.1 hnodup
    rw [List.map_append, List.map_append, List.nodup_append, List.nodup_append] at hstreams
    exact hstreams.2.1.2.2 _ (List.mem_map_of_mem hk) _ (List.mem_map_of_mem hdismissed)
      hstream.symm
  · obtain ⟨hunclosed, huncounted⟩ := hrest.unclosed_eq
    have hall (m : Manner) : (s.closedBy m).Perm ((s.givenUp m).map fun k => k.2.stream) := by
      have hm := h.closedBy m
      rwa [unclosedBy, hunclosed, List.filter_nil, List.map_nil, List.append_nil] at hm
    rw [huncounted, Nat.add_zero] at hcounted htotal
    refine ⟨htotal, ?_, hall⟩
    rw [hcounted, (hall _).length_eq, List.length_map]

end System

/-! ### Calls that nobody interrupts -/

/-- What a call that gives streams up comes to: the streams to be closed, and the table. -/
def Dismissal.perform (d : Dismissal) (p : Pending) : List StreamId × Pending :=
  match d with
  | abandon t => ((p.abandon t).1.toList, (p.abandon t).2)
  | expire t => ((p.expire t).1.toList, (p.expire t).2)
  | clear => p.clear

theorem Dismissal.perform_eq (d : Dismissal) (p : Pending) :
    (d.perform p).1 = (d.take p).1.map (fun k => k.2.stream) ∧
      (d.next (d.take p).1 = .close (d.take p).1 ((d.take p).1.map fun k => k.2.stream) ∧
          (d.perform p).2 = (d.take p).2 ∨
        d.next (d.take p).1 = .count (d.take p).1 ∧
          (d.perform p).2 = { (d.take p).2 with timeouts := (d.take p).2.timeouts + 1 }) := by
  cases d with
  | abandon t =>
    refine ⟨?_, .inl ⟨rfl, rfl⟩⟩
    simp only [perform, take, Pending.abandon]
    cases (p.complete t).1 <;> rfl
  | expire t =>
    simp only [perform, take, next, Pending.expire, Pending.complete]
    cases p.entries.get? t with
    | none => exact ⟨rfl, .inl ⟨rfl, rfl⟩⟩
    | some e => exact ⟨rfl, .inr ⟨rfl, rfl⟩⟩
  | clear => exact ⟨List.map_map, .inl ⟨rfl, rfl⟩⟩

namespace System

variable {s s' : System} {i : Nat} {c : Call}

theorem step_last (shared : Shared) (cs : List Call) (c : Call) :
    step ⟨shared, cs ++ [c]⟩ cs.length = ⟨(c.step shared).2, cs ++ [(c.step shared).1]⟩ := by
  simp only [step, List.getElem?_concat_length, List.set_append_right _ _ (Nat.le_refl _),
    Nat.sub_self, List.set_cons_zero]

theorem run_close (shared : Shared) (cs : List Call) (d : Dismissal) (taken : List Ticket)
    (left : List StreamId) :
    run ⟨shared, cs ++ [.dismiss d (.close taken left)]⟩ (List.replicate left.length cs.length) =
      ⟨{ shared with closed := shared.closed ++ left.map (d.manner, ·) },
        cs ++ [.dismiss d (.close taken [])]⟩ := by
  induction left generalizing shared with
  | nil => simp only [List.length_nil, List.replicate_zero, List.map_nil, List.append_nil]; rfl
  | cons x left ih =>
    rw [List.length_cons, List.replicate_succ, run, List.foldl_cons, step_last]
    refine (ih _).trans ?_
    rw [List.map_cons, List.append_cons shared.closed]
    rfl

/-- **A call that nobody interrupts** takes its streams out, counts and closes them like one
step. -/
theorem run_dismiss (s : System) (d : Dismissal) : ∃ n,
    (s.call (.dismiss d .take)).run (List.replicate n s.calls.length) =
      ⟨⟨(d.perform s.shared.pending).2,
          s.shared.closed ++ (d.perform s.shared.pending).1.map (d.manner, ·)⟩,
        s.calls ++ [.dismiss d (.close (d.take s.shared.pending).1 [])]⟩ := by
  obtain ⟨⟨p, closed⟩, cs⟩ := s
  have hfirst (shared : Shared) (c : Call) (n : Nat) :
      run ⟨shared, cs ++ [c]⟩ (List.replicate (n + 1) cs.length) =
        run ⟨(c.step shared).2, cs ++ [(c.step shared).1]⟩ (List.replicate n cs.length) := by
    rw [List.replicate_succ, run, List.foldl_cons, step_last]
    rfl
  obtain ⟨hstreams, ⟨hnext, hpending⟩ | ⟨hnext, hpending⟩⟩ := d.perform_eq p
  · refine ⟨(d.perform p).1.length + 1, (hfirst _ _ _).trans ?_⟩
    rw [Call.step_take, hnext, hstreams, hpending]
    exact run_close ..
  · refine ⟨(d.perform p).1.length + 1 + 1, (hfirst _ _ _).trans ?_⟩
    rw [Call.step_take, hnext, hfirst, hstreams, hpending]
    exact run_close ..

/-! ### What a call does to the table -/

/-- A call takes from the table what it asks for and nothing else, or leaves everything as it is. -/
structure Orderly (s : System) : Prop where
  /-- registering goes on drawing as long as all tokens drawn are in use, or takes one that is
  not -/
  registers : ∀ i e draws, s.calls[i]? = some (.register e draws none) →
    (∀ t ∈ draws, t ∈ s.shared.pending.entries.keys) ∧ s.step i = s ∨
      ∃ t ∈ draws, t ∉ s.shared.pending.entries.keys ∧ s.step i =
        ⟨{ s.shared with pending :=
            { s.shared.pending with entries := s.shared.pending.entries.set t e } },
          s.calls.set i (.register e draws (some t))⟩
  /-- who finds a stream under its token takes it -/
  takes : ∀ i t e, s.shared.pending.entries.get? t = some e →
    (s.calls[i]? = some (.complete t none) → s.step i =
      ⟨{ s.shared with pending :=
          { s.shared.pending with entries := s.shared.pending.entries.erase t } },
        s.calls.set i (.complete t (some (some e)))⟩) ∧
    ∀ d, d = .abandon t ∨ d = .expire t → s.calls[i]? = some (.dismiss d .take) → s.step i =
      ⟨{ s.shared with pending :=
          { s.shared.pending with entries := s.shared.pending.entries.erase t } },
        s.calls.set i (.dismiss d (d.next [(t, e)]))⟩
  /-- who finds its token gone changes nothing -/
  misses : ∀ i t, t ∉ s.shared.pending.entries.keys →
    (s.calls[i]? = some (.complete t none) →
      s.step i = { s with calls := s.calls.set i (.complete t (some none)) }) ∧
    ∀ d, d = .abandon t ∨ d = .expire t → s.calls[i]? = some (.dismiss d .take) →
      s.step i = { s with calls := s.calls.set i (.dismiss d (.close [] [])) }
  /-- a call that gives streams up, if nobody interrupts it, does the same as the operation of the
  table and closes the streams that this gives -/
  uninterrupted : ∀ d : Dismissal, ∃ n,
    (s.call (.dismiss d .take)).run (List.replicate n s.calls.length) =
      ⟨⟨(d.perform s.shared.pending).2,
          s.shared.closed ++ (d.perform s.shared.pending).1.map (d.manner, ·)⟩,
        s.calls ++ [.dismiss d (.close (d.take s.shared.pending).1 [])]⟩

theorem step_register {e : Pending.Entry} {draws : List Token}
    (h : s.calls[i]? = some (.register e draws none)) :
    (∀ t ∈ draws, t ∈ s.shared.pending.entries.keys) ∧ s.step i = s ∨
      ∃ t ∈ draws, t ∉ s.shared.pending.entries.keys ∧ s.step i =
        ⟨{ s.shared with pending :=
            { s.shared.pending with entries := s.shared.pending.entries.set t e } },
          s.calls.set i (.register e draws (some t))⟩ := by
  rcases Call.step_register s.shared e draws with ⟨hfresh, hstep⟩ | ⟨t, hfresh, hstep⟩
  · refine .inl ⟨fun t => Pending.fresh?_eq_none hfresh, ?_⟩
    obtain ⟨hi, hc⟩ := List.getElem?_eq_some_iff.1 h
    simp only [step, h, hstep]
    rw [← hc, List.set_getElem_self]
  · obtain ⟨ht, hunused⟩ := Pending.fresh?_eq_some hfresh
    refine .inr ⟨t, ht, ?_, ?_⟩
    · rw [Table.mem_keys_iff, hunused]
      rintro ⟨_, he⟩
      cases he
    · simp only [step, h, hstep]

theorem step_token (s : System) (i : Nat) (t : Token) :
    (s.calls[i]? = some (.complete t none) → s.step i =
      ⟨{ s.shared with pending :=
          { s.shared.pending with entries := s.shared.pending.entries.erase t } },
        s.calls.set i (.complete t (some (s.shared.pending.entries.get? t)))⟩) ∧
    ∀ d, d = .abandon t ∨ d = .expire t → s.calls[i]? = some (.dismiss d .take) → s.step i =
      ⟨{ s.shared with pending :=
          { s.shared.pending with entries := s.shared.pending.entries.erase t } },
        s.calls.set i (.dismiss d
          (d.next ((s.shared.pending.entries.get? t).toList.map (t, ·))))⟩ := by
  refine ⟨fun h => ?_, fun d hd h => ?_⟩
  · simp only [step, h, Call.step, Pending.complete_eq]
  · have htake : d.take s.shared.pending = ((s.shared.pending.entries.get? t).toList.map (t, ·),
        { s.shared.pending with entries := s.shared.pending.entries.erase t }) := by
      rcases hd with rfl | rfl <;> simp only [Dismissal.take, Pending.complete_eq]
    simp only [step, h, Call.step, Dismissing.step, htake]

theorem orderly (s : System) : s.Orderly where
  registers _ _ _ := step_register
  takes i t e hget := by
    have htoken := s.step_token i t
    rw [hget] at htoken
    exact htoken
  misses i t hgone := by
    have hget : s.shared.pending.entries.get? t = none := by
      rw [Table.mem_keys_iff, not_exists] at hgone
      exact Option.eq_none_iff_forall_ne_some.2 hgone
    have htoken := s.step_token i t
    rw [hget, Table.erase_of_get?_none hget] at htoken
    refine ⟨htoken.1, fun d hd h => (htoken.2 d hd h).trans ?_⟩
    rcases hd with rfl | rfl <;> rfl
  uninterrupted := s.run_dismiss

/-- **Every pending handshake is settled once**, whatever tokens are drawn, whatever calls are made
and however their steps come in between one another.  What was registered waits under a token of its
own, or was completed, abandoned, expired or cleared, each once (`Settled`).  A call that registers
never takes a token that a stream waits under, a call that finds its token gone changes nothing, and
one that nobody interrupts does the same as the operation of the table (`Orderly`). -/
theorem Leads.settles_once (h : idle.Leads s) : s.Settled ∧ s.Orderly :=
  ⟨(h.balanced balanced_idle).settled, s.orderly⟩

/-- A second stream draws the token of the first one and is given another; the first one is
completed, and its timer, which was on its way by then, meets a third stream under the token. -/
def overtaken : System :=
  ((((((idle.call (.register ⟨0, ⟨[10, 0, 0, 1], 4000⟩, 5⟩ [1] none)).call
    (.register ⟨1, ⟨[10, 0, 0, 1], 4001⟩, 6⟩ [1, 2] none)).call (.complete 1 none)).call
      (.dismiss (.expire 1) .take)).call (.dismiss (.abandon 2) .take)).call
        (.register ⟨2, ⟨[10, 0, 0, 1], 4002⟩, 7⟩ [1] none)).run [0, 1, 2, 5, 3, 4, 3, 4, 3]

theorem overtaken_settles_once :
    idle.Leads overtaken ∧ overtaken.AtRest ∧
      overtaken.shared.closed = [(.abandoned, 1), (.expired, 2)] ∧
      overtaken.Settled ∧ overtaken.Orderly := by
  have hleads : idle.Leads overtaken :=
    ((((((Leads.refl.call (.register _ _)).call (.register _ _)).call (.complete _)).call
      (.dismiss _)).call (.dismiss _)).call (.register _ _)).run _
  have hrest : overtaken.AtRest := by
    have hcalls : overtaken.calls = [.register ⟨0, ⟨[10, 0, 0, 1], 4000⟩, 5⟩ [1] (some 1),
        .register ⟨1, ⟨[10, 0, 0, 1], 4001⟩, 6⟩ [1, 2] (some 2),
        .complete 1 (some (some ⟨0, ⟨[10, 0, 0, 1], 4000⟩, 5⟩)),
        .dismiss (.expire 1) (.close [(1, ⟨2, ⟨[10, 0, 0, 1], 4002⟩, 7⟩)] []),
        .dismiss (.abandon 2) (.close [(2, ⟨1, ⟨[10, 0, 0, 1], 4001⟩, 6⟩)] []),
        .register ⟨2, ⟨[10, 0, 0, 1], 4002⟩, 7⟩ [1] (some 1)] := by decide
    intro d next hmem
    rw [hcalls] at hmem
    simp only [List.mem_cons, Call.dismiss.injEq, reduceCtorEq, List.not_mem_nil, or_false,
      false_or] at hmem
    rcases hmem with ⟨-, rfl⟩ | ⟨-, rfl⟩ <;> exact .inr ⟨_, rfl⟩
  exact ⟨hleads, hrest, by decide, hleads.settles_once⟩

end System

end Tandem.Settlement
