import Tandem.Proofs.Connection.Receiving

/-!
# Places in the inbox

The messages of a stream and datagrams share one inbox with a limited number of places.  There are
never more messages in it (`Inbox.Fits`, `Dispatcher.fits_step`): a datagram that finds no place is
lost, and a body of the stream waits only as long as all places are taken.  What got a place is
handed over to the handler in order, until the dispatcher finds none left and sees the end
(`Dispatcher.hands_step`).
-/

namespace Tandem

/-- The body of a message that came in a datagram. -/
def Delivery.unreliable? (d : Delivery) : Option Bytes :=
  match d.channel with
  | .reliable => none
  | .unreliable => some d.body

/-- The bodies of the messages that came in datagrams. -/
def unreliables (ds : List Delivery) : List Bytes := ds.filterMap Delivery.unreliable?

theorem unreliables_append (ds ds' : List Delivery) :
    unreliables (ds ++ ds') = unreliables ds ++ unreliables ds' := List.filterMap_append

theorem unreliables_isPrefix {ds ds' : List Delivery} (h : ds <+: ds') :
    unreliables ds <+: unreliables ds' := h.filterMap _

/-! ### Places -/

namespace Inbox

/-- What is true of an inbox at any time. -/
structure Fits (i : Inbox) : Prop where
  used_le : i.used ≤ i.capacity
  /-- a body waits only for an inbox that is full -/
  full : ∀ body, i.held = .waiting body → i.items.length = i.capacity

variable {i i' : Inbox} {d : Delivery}

theorem length_le_used (i : Inbox) : i.items.length ≤ i.used := by
  unfold used
  split <;> omega

theorem isFull_eq_false_iff : i.isFull = false ↔ i.used < i.capacity := by
  rw [isFull, decide_eq_false_iff_not, Nat.not_le]

/-- **Which datagrams find a place.** -/
theorem offer_iff {bs : Bytes} :
    (i.offer bs).1 = true ↔ bs ≠ [] ∧ i.closed = false ∧ i.used < i.capacity := by
  rw [← isFull_eq_false_iff]
  unfold offer
  cases bs <;> cases i.closed <;> cases i.isFull <;> simp

theorem offer_of_queued {bs : Bytes} (h : (i.offer bs).1 = true) :
    (i.offer bs).2 = { i with items := i.items ++ [⟨.unreliable, bs⟩] } := by
  unfold offer at h ⊢
  split_ifs at h ⊢
  rfl

theorem offer_of_dropped {bs : Bytes} (h : (i.offer bs).1 = false) : (i.offer bs).2 = i := by
  unfold offer at h ⊢
  split_ifs at h ⊢
  rfl

theorem fits_empty (capacity : Nat) : (empty capacity).Fits := ⟨Nat.zero_le _, nofun⟩

theorem fits_forget (h : i.Fits) : i.forget.Fits :=
  ⟨i.length_le_used.trans h.used_le, nofun⟩

theorem Fits.offer (h : i.Fits) (bs : Bytes) : (i.offer bs).2.Fits := by
  cases hoffer : (i.offer bs).1 with
  | false => rwa [offer_of_dropped hoffer]
  | true =>
    obtain ⟨-, -, hroom⟩ := offer_iff.1 hoffer
    rw [offer_of_queued hoffer]
    refine ⟨?_, fun body hbody => ?_⟩
    · simp only [used, List.length_append, List.length_singleton] at hroom ⊢
      split at hroom <;> omega
    · -- where a body waits, there is no room
      rw [← h.full body hbody, used, show i.held = _ from hbody] at hroom
      exact absurd hroom (Nat.lt_irrefl _)

theorem Fits.hold (h : i.Fits) (hheld : i.held = .nothing) (body : Bytes) : (i.hold body).Fits := by
  have hused : i.used = i.items.length := by rw [used, hheld]
  have hle := hused ▸ h.used_le
  unfold Inbox.hold
  cases i.closed with
  | true => exact ⟨hle, nofun⟩
  | false =>
    cases hfull : i.isFull with
    | true =>
      refine ⟨hle, fun _ _ => le_antisymm hle ?_⟩
      rw [isFull, decide_eq_true_eq, hused] at hfull
      exact hfull
    | false =>
      rw [isFull_eq_false_iff, hused] at hfull
      exact ⟨hfull, nofun⟩

theorem Fits.settle (h : i.Fits) : i.settle.Fits := by
  unfold Inbox.settle
  split
  · next body hheld =>
    have hle := h.used_le
    rw [used, hheld] at hle
    refine ⟨?_, nofun⟩
    simpa only [used, List.length_append, List.length_singleton] using hle
  · exact h

theorem Fits.take (h : i.Fits) (htake : i.take? = some (d, i')) :
    i'.Fits ∧ i'.capacity = i.capacity := by
  obtain ⟨capacity, items, held, closed⟩ := i
  cases items with
  | nil => cases htake
  | cons x items =>
    cases held with
    | nothing =>
      cases htake
      exact ⟨⟨Nat.le_of_succ_le h.used_le, nofun⟩, rfl⟩
    | waiting body =>
      cases htake
      exact ⟨⟨Nat.le_of_eq (h.full body rfl), nofun⟩, rfl⟩
    | admitted body =>
      cases htake
      exact ⟨⟨Nat.le_of_succ_le h.used_le, nofun⟩, rfl⟩

/-- Nothing is in an inbox or on its way, and nothing can get into it. -/
structure Shut (i : Inbox) : Prop where
  items : i.items = []
  held : i.held = .nothing
  closed : i.closed = true

theorem Shut.offer (h : i.Shut) (bs : Bytes) : (i.offer bs).2.Shut := by
  have hdropped : (i.offer bs).1 = false := by
    simp only [Inbox.offer, h.closed, Bool.or_true, Bool.true_or, if_true]
  rwa [offer_of_dropped hdropped]

theorem Shut.hold (h : i.Shut) (body : Bytes) : (i.hold body).Shut :=
  ⟨h.items, by simp only [Inbox.hold, h.closed, if_true], h.closed⟩

theorem Shut.settle (h : i.Shut) : i.settle.Shut := by
  simpa only [Inbox.settle, h.held] using h

end Inbox

namespace Dispatcher

variable {d d' : Dispatcher} {e : Event}

/-- **Every event** leaves an inbox in order, if no body of the stream is brought while another one
is on its way. -/
theorem fits_step (h : d.inbox.Fits) (hhold : ∀ body, e = .hold body → d.inbox.held = .nothing) :
    (d.step e).inbox.Fits ∧ (d.step e).inbox.capacity = d.inbox.capacity := by
  have hgoes := d.goes_step e
  generalize d.step e = d' at hgoes
  cases hgoes with
  | stays | starts | misses | resumes | sees | returns | announces => exact ⟨h, rfl⟩
  | message _ htake => exact h.take htake
  | reports => exact ⟨⟨Nat.zero_le _, nofun⟩, rfl⟩
  | offers bs =>
    refine ⟨h.offer bs, ?_⟩
    simp only [Inbox.offer]
    split_ifs <;> rfl
  | holds body => exact ⟨h.hold (hhold body rfl) body, rfl⟩
  | settles =>
    refine ⟨h.settle, ?_⟩
    simp only [Inbox.settle]
    split <;> rfl
  | forgets => exact ⟨Inbox.fits_forget h, rfl⟩

/-! ### Handing messages over -/

/-- What becomes of messages, the new ones included. -/
inductive Hands (d : Dispatcher) (new : List Delivery) (d' : Dispatcher) : Prop
  /-- they are handed over or wait, and those that were not there at the last look are not handed
  over before the next one -/
  | goes (hbefore : d.isLeaving = false) (hafter : d'.isLeaving = false)
      (hchecking : d'.phase = .checking → d.phase = .checking ∧ d'.handed = d.handed)
      (hall : d'.handed ++ d'.inbox.items = d.handed ++ d.inbox.items ++ new)
  /-- the dispatcher looks for one, and there is none -/
  | misses (hbefore : d.phase = .idle) (hafter : d' = { d with phase := .checking })
      (hitems : d.inbox.items = []) (hnew : new = [])
  /-- it looks for the end, and it was announced -/
  | turns (hbefore : d.phase = .checking) (hafter : d'.isLeaving = true)
      (hsignal : d.signal.isSome) (hhanded : d'.handed = d.handed)
  | leaves (hbefore : d.isLeaving = true) (hafter : d'.isLeaving = true)
      (hhanded : d'.handed = d.handed)

theorem hands_of_quiet {new : List Delivery} (hcalls : d'.calls = d.calls)
    (hleaving : d'.isLeaving = d.isLeaving)
    (hchecking : d'.phase = .checking → d.phase = .checking)
    (hitems : d'.inbox.items = d.inbox.items ++ new) : d.Hands new d' := by
  have hhanded : d'.handed = d.handed := by rw [handed, handed, hcalls]
  cases hbefore : d.isLeaving with
  | true => exact .leaves hbefore (hleaving.trans hbefore) hhanded
  | false =>
    refine .goes hbefore (hleaving.trans hbefore) (fun hc => ⟨hchecking hc, hhanded⟩) ?_
    rw [hhanded, hitems, List.append_assoc]

/-- **Messages are handed over** in the order in which they were let in, until there is none left
and the dispatcher sees the end. -/
theorem hands_step (d : Dispatcher) (e : Event) : d.Hands (d.accepts e) (d.step e) := by
  have hitems := items_step (d := d) (e := e)
  have hgoes := d.goes_step e
  generalize d.step e = d' at hgoes hitems
  cases hgoes with
  | stays hown =>
    rw [hown.accepts_eq]
    exact hands_of_quiet rfl rfl id (List.append_nil _).symm
  | starts hphase | resumes hphase | returns hphase =>
    refine hands_of_quiet rfl ?_ Phase.noConfusion (List.append_nil _).symm
    rw [isLeaving, isLeaving, hphase]
  | misses hphase hnone => exact .misses hphase rfl hnone rfl
  | sees hphase hsignal => exact .turns hphase rfl (by rw [hsignal]; rfl) rfl
  | message hphase _ hfirst =>
    refine .goes (by rw [isLeaving, hphase]) rfl Phase.noConfusion ?_
    rw [handed, List.filterMap_append, hfirst]
    simp [handed, accepts, Call.delivery?]
  | reports hphase =>
    refine .leaves (by rw [isLeaving, hphase]) rfl ?_
    rw [handed, List.filterMap_append]
    exact List.append_nil _
  | offers | holds | settles | forgets | announces =>
    exact hands_of_quiet rfl rfl id (hitems Event.noConfusion Event.noConfusion)

/-! ### After the end -/

/-- **When the end was reported**, nothing waits any more. -/
theorem shut_step (h : d.phase = .ended → d.inbox.Shut) (hended : (d.step e).phase = .ended) :
    (d.step e).inbox.Shut := by
  have hgoes := d.goes_step e
  generalize d.step e = d' at hgoes hended
  cases hgoes with
  | stays | announces => exact h hended
  | reports => exact ⟨rfl, rfl, rfl⟩
  | offers bs => exact (h hended).offer bs
  | holds body => exact (h hended).hold body
  | settles => exact (h hended).settle
  | forgets => exact ⟨(h hended).items, rfl, (h hended).closed⟩
  | starts | message | misses | resumes | sees | returns => cases hended

theorem shut_run (es : List Event) (h : d.phase = .ended → d.inbox.Shut)
    (hended : (d.run es).phase = .ended) : (d.run es).inbox.Shut := by
  induction es generalizing d with
  | nil => exact h hended
  | cons e es ih => exact ih (d := d.step e) (shut_step h) hended

theorem signal_inner {e : Connection.Event} {x : Event} (hinner : e.IsInner x) :
    (d.step x).signal = d.signal := by
  have hgoes := d.goes_step x
  generalize d.step x = d' at hgoes
  cases hgoes with
  | announces => cases hinner
  | _ => rfl

end Dispatcher

end Tandem
