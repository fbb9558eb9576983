import Tandem.Proofs.Connection.Inbox

/-!
# What becomes of received messages

The messages that a run of a connection lets in (`Connection.collect`) are handed over to the
handler or wait, until the dispatcher has found none and then sees the end
(`Connection.handed_run`).  What counts is its last look for a message (`Connection.LooksInVain`):
all that was let in before is handed over, and nothing that came after it is.  As long as the
dispatcher has not seen the end, what was let in is handed over after enough turns
(`Connection.handed_of_turns`), and when the end was reported nothing is left
(`Connection.shut_run`).
-/

namespace Tandem

namespace Connection

variable {c : Connection} {e : Event} {es : List Event}

/-! ### Runs -/

/-- What the events of a run give, one after the other. -/
def collect {α : Type} (f : Connection → Event → List α) (c : Connection) : List Event → List α
  | [] => []
  | e :: es => f c e ++ collect f (c.step e) es

theorem collect_append {α : Type} (f : Connection → Event → List α) (c : Connection)
    (es fs : List Event) : c.collect f (es ++ fs) = c.collect f es ++ (c.run es).collect f fs := by
  induction es generalizing c with
  | nil => rfl
  | cons e es ih =>
    rw [List.cons_append, collect, ih, collect, List.append_assoc]
    rfl

theorem collect_concat {α : Type} (f : Connection → Event → List α) (c : Connection)
    (es : List Event) (e : Event) :
    c.collect f (es ++ [e]) = c.collect f es ++ f (c.run es) e := by
  rw [collect_append]
  exact congrArg _ (List.append_nil _)

/-- The course of a connection is its run, and what has been let in was let in by its events. -/
theorem course_run (s : Course) (es : List Event) :
    (Course.host.run s es).connection = s.connection.run es ∧
      (Course.host.run s es).accepted = s.accepted ++ s.connection.collect Course.accepts es := by
  induction es generalizing s with
  | nil => exact ⟨rfl, (List.append_nil _).symm⟩
  | cons e es ih =>
    obtain ⟨hconnection, haccepted⟩ := ih (s.step e)
    refine ⟨hconnection, haccepted.trans ?_⟩
    rw [collect, ← List.append_assoc]
    rfl

/-! ### Looking for a message in vain -/

theorem phase_step (h : ∀ x, e.IsInner x → c.dispatcher.phase.awaited ≠ some x)
    (hstarted : c.dispatcher.phase ≠ .unstarted) :
    (c.step e).dispatcher.phase = c.dispatcher.phase := by
  rw [dispatcher_step]
  refine Dispatcher.phase_run_of_not_awaited (fun x hx => ?_) hstarted
  rcases isQuiet_or_isInner hx with hquiet | hinner
  · exact Dispatcher.awaited_ne_of_quiet hquiet _
  · exact h x hinner

theorem exists_poll (h : c.dispatcher.phase = .idle) (h' : (c.step e).dispatcher.phase ≠ .idle) :
    ∃ now, e = .poll now := by
  by_contra hpoll
  refine h' ((phase_step (fun x hinner ha => ?_) (by rw [h]; exact nofun)).trans h)
  rw [h] at ha
  cases ha
  cases hinner with
  | poll now => exact hpoll ⟨now, rfl⟩

theorem eq_check (h : c.dispatcher.phase = .checking)
    (h' : (c.step e).dispatcher.phase ≠ .checking) : e = .check := by
  by_contra hcheck
  refine h' ((phase_step (fun x hinner ha => ?_) (by rw [h]; exact nofun)).trans h)
  rw [h] at ha
  cases ha
  cases hinner with
  | check => exact hcheck rfl

/-- The dispatcher has looked for a message when there was none, and has not looked again since. -/
structure LooksInVain (c : Connection) (before : List Event) (now : Nat)
    (meanwhile : List Event) : Prop where
  idle : (c.run before).dispatcher.phase = .idle
  items : (c.run before).dispatcher.inbox.items = []
  checking : ∀ first, first <+: meanwhile →
    (c.run (before ++ .poll now :: first)).dispatcher.phase = .checking

theorem looksInVain_nil {now : Nat} (hidle : (c.run es).dispatcher.phase = .idle)
    (hitems : (c.run es).dispatcher.inbox.items = [])
    (hchecking : ((c.run es).step (.poll now)).dispatcher.phase = .checking) :
    c.LooksInVain es now [] := by
  refine ⟨hidle, hitems, fun first hfirst => ?_⟩
  obtain rfl := List.prefix_nil.1 hfirst
  rwa [run_concat]

theorem LooksInVain.concat {before meanwhile : List Event} {now : Nat}
    (h : c.LooksInVain before now meanwhile)
    (hchecking : (c.run (before ++ .poll now :: (meanwhile ++ [e]))).dispatcher.phase =
      .checking) : c.LooksInVain before now (meanwhile ++ [e]) := by
  refine ⟨h.idle, h.items, fun first hfirst => ?_⟩
  rcases List.prefix_concat_iff.1 hfirst with rfl | hfirst
  · exact hchecking
  · exact h.checking first hfirst

/-! ### What the handler is called with -/

theorem hands_step (c : Connection) (e : Event) :
    c.dispatcher.Hands (Course.accepts c e) (c.step e).dispatcher := by
  cases htrigger : c.trigger? e with
  | some cause =>
    obtain ⟨assembly, traffic, heq⟩ := step_of_trigger htrigger
    rw [heq, (disconnectWith_eq _ cause).2.2, Course.accepts_of_trigger htrigger]
    split_ifs <;> exact Dispatcher.hands_of_quiet rfl rfl id (List.append_nil _).symm
  | none =>
    have hgoes := goes_step htrigger
    generalize c.step e = c' at hgoes
    cases hgoes with
    | stays _ houter =>
      rw [Course.accepts_of_outer houter]
      exact Dispatcher.hands_of_quiet rfl rfl id (List.append_nil _).symm
    | starts => exact c.dispatcher.hands_step .start
    | queues | sends | writes => exact Dispatcher.hands_of_quiet rfl rfl id (List.append_nil _).symm
    | @reads _ body =>
      cases body <;> exact Dispatcher.hands_of_quiet rfl rfl id (List.append_nil _).symm
    | serves trips traffic hinner =>
      rw [(Course.accepts_of_inner hinner).1]
      exact c.dispatcher.hands_step _

/-- What has become of the messages that were let in during a run. -/
inductive Handed (c : Connection) (es : List Event) : Prop
  /-- they were handed over, in order, or wait; none is handed over between the two looks -/
  | going (hleaving : (c.run es).dispatcher.isLeaving = false)
      (hall : c.collect Course.accepts es =
        (c.run es).dispatcher.handed ++ (c.run es).dispatcher.inbox.items)
      (hlooked : (c.run es).dispatcher.phase = .checking →
        ∃ before now meanwhile, es = before ++ .poll now :: meanwhile ∧
          c.LooksInVain before now meanwhile ∧
          (c.run es).dispatcher.handed = c.collect Course.accepts before)
  /-- they were handed over up to the dispatcher's last look, after which it has seen the end -/
  | leaving {before meanwhile after : List Event} {now : Nat}
      (hes : es = before ++ .poll now :: meanwhile ++ .check :: after)
      (hleaving : (c.run es).dispatcher.isLeaving = true)
      (hlooked : c.LooksInVain before now meanwhile)
      (hsignal : (c.run (before ++ .poll now :: meanwhile)).dispatcher.signal.isSome)
      (hall : (c.run es).dispatcher.handed = c.collect Course.accepts before)

theorem Handed.step (h : c.Handed es) (e : Event) : c.Handed (es ++ [e]) := by
  have hstep := (c.run es).hands_step e
  cases h with
  | going hleaving hall hlooked =>
    cases hstep with
    | goes _ hafter hchecking hmore =>
      rw [← run_concat] at hafter hchecking hmore
      refine .going hafter ?_ fun hphase => ?_
      · rw [hmore, collect_concat, hall]
      · obtain ⟨hwas, hhanded⟩ := hchecking hphase
        obtain ⟨before, now, meanwhile, rfl, hvain, hbefore⟩ := hlooked hwas
        rw [List.append_assoc, List.cons_append] at hphase hhanded ⊢
        exact ⟨before, now, meanwhile ++ [e], rfl, hvain.concat hphase, hhanded.trans hbefore⟩
    | misses hidle hafter hitems hnew =>
      have hphase : ((c.run es).step e).dispatcher.phase = .checking := by rw [hafter]
      have hhanded : ((c.run es).step e).dispatcher.handed = c.collect Course.accepts es := by
        rw [hall, hitems, List.append_nil, hafter]
        rfl
      obtain ⟨now, rfl⟩ := exists_poll hidle (by rw [hphase]; exact nofun)
      refine .going ?_ ?_ fun _ => ⟨es, now, [], rfl, looksInVain_nil hidle hitems hphase, ?_⟩
      · rw [run_concat, hafter]
        rfl
      · rw [collect_concat, hnew, run_concat, hhanded, hafter, hitems]
      · rw [run_concat, hhanded]
    | turns hchecking hafter hsignal hhanded =>
      obtain rfl := eq_check hchecking fun hphase => by
        rw [Dispatcher.isLeaving, hphase] at hafter
        cases hafter
      obtain ⟨before, now, meanwhile, rfl, hvain, hbefore⟩ := hlooked hchecking
      have hafter' : (c.run (before ++ .poll now :: meanwhile ++ [.check])).dispatcher.isLeaving =
          true := by rwa [run_concat]
      refine .leaving rfl hafter' hvain hsignal ?_
      rw [run_concat, hhanded, hbefore]
    | leaves hbefore => exact absurd (hleaving.symm.trans hbefore) Bool.false_ne_true
  | @leaving before meanwhile after now hes hleaving hvain hsignal hall =>
    cases hstep with
    | goes hgoing => exact absurd (hgoing.symm.trans hleaving) Bool.false_ne_true
    | misses hidle | turns hidle =>
      rw [Dispatcher.isLeaving, hidle] at hleaving
      cases hleaving
    | leaves _ hafter hhanded =>
      rw [← run_concat] at hafter hhanded
      have hes' : es ++ [e] = before ++ .poll now :: meanwhile ++ .check :: (after ++ [e]) := by
        rw [hes]
        simp only [List.append_assoc, List.cons_append]
      exact .leaving hes' hafter hvain hsignal (hhanded.trans hall)

/-- **All that was let in before the last look** is handed over, and nothing that came after it. -/
theorem handed_run (config : EndpointConfig) (maxBody : Option Nat) (token : Token)
    (es : List Event) : (create config maxBody token).Handed es := by
  induction es using List.reverseRecOn with
  | nil => exact .going rfl rfl nofun
  | append_singleton es e ih => exact ih.step e

/-- **When the end was reported**, nothing is left in the inbox and nothing gets into it. -/
theorem shut_run (config : EndpointConfig) (maxBody : Option Nat) (token : Token)
    (es : List Event) (h : ((create config maxBody token).run es).dispatcher.phase = .ended) :
    ((create config maxBody token).run es).dispatcher.inbox.Shut := by
  induction es using List.reverseRecOn with
  | nil => cases h
  | append_singleton es e ih =>
    rw [run_concat, dispatcher_step] at h ⊢
    exact Dispatcher.shut_run _ ih h

/-- **What was let in is handed over** after enough turns, whether the connection is ended meanwhile
or not, unless the dispatcher has just found no message and sees the end instead. -/
theorem handed_of_turns (config : EndpointConfig) (maxBody : Option Nat) (token : Token)
    (es : List Event) (turns : List (List Event))
    (hstarted : ((create config maxBody token).run es).dispatcher.phase ≠ .unstarted)
    (hgoing : ((create config maxBody token).run es).dispatcher.isLeaving = false)
    (hchecking : ((create config maxBody token).run es).dispatcher.phase = .checking →
      ((create config maxBody token).run (es ++ turns.flatten)).isConnected = true)
    (hturns : ∀ turn ∈ turns, Course.host.IsTurn turn)
    (hlen : 2 * ((create config maxBody token).run es).dispatcher.inbox.items.length ≤
      turns.length) :
    (create config maxBody token).collect Course.accepts es <+:
      ((create config maxBody token).run (es ++ turns.flatten)).dispatcher.handed := by
  have hconnection : ∀ fs, (Course.host.run (.opening config maxBody token) fs).connection =
      (create config maxBody token).run fs := fun fs => (course_run _ fs).1
  have harrives := (Dispatcher.Host.tells (H := Course.host) (s := .opening config maxBody token)
    (Dispatcher.History.faithful_opening _)).arrives es turns
  simp only [show ∀ s : Course, (Course.host.history s).dispatcher = s.connection.dispatcher from
    fun _ => rfl, hconnection] at harrives
  rw [show (create config maxBody token).collect Course.accepts es = _ from
    (course_run (.opening config maxBody token) es).2.symm]
  refine harrives hstarted hgoing (fun hphase => ?_) hturns hlen
  -- a connection that is connected was not ended
  rcases Course.won_iff (.opening config maxBody token) (es ++ turns.flatten)
    (.inl ⟨rfl, rfl⟩) with ⟨hnone, -⟩ | ⟨-, hover⟩
  · exact hnone
  · rw [hconnection] at hover
    exact absurd hover (of_decide_eq_true (hchecking hphase) ▸ nofun)

end Connection

end Tandem
