import Tandem.Proofs.Sharing.Cursors
import Tandem.Proofs.Recycling.Twins

/-!
# What a writer writes does not depend on where

A writer takes room that is not filled yet: it makes more than is needed, moves what was written,
and leaves the rest for later.  That nothing of it is ever shown is due to the cursor, which is not
behind the end: each round of writing goes on within or right behind what was filled, and the length
grows by what was written only (`Writer.Same.fill`).  All ways of writing come down to that and to
making room.
-/

namespace Tandem

open Memory (Twins)

namespace Writer

/-- The same writer in twins, with its cursor not behind the end. -/
structure Same (gs : List Glimpse) (r r' : Writer × Memory) : Prop where
  value_eq : r'.1 = r.1
  twins : Twins (r.1.view.whole :: gs) r.2 r'.2
  position_le : r.1.position ≤ r.1.length

variable {gs : List Glimpse} {w : Writer} {m m' : Memory} {r r' : Writer × Memory} {bs : Bytes}
  {n : Nat}

theorem Same.sound (h : Same gs r r') : r.1.Sound (gs.map Glimpse.view) r.2 :=
  ⟨h.twins.holds, h.position_le⟩

theorem Same.capacity_eq (h : Same gs (w, m) (w, m')) : w.capacity m' = w.capacity m :=
  h.twins.alike.capacity_eq w.view

theorem Same.andThen (h : Same gs r r') {f : Writer → Memory → Writer × Memory}
    (hf : ∀ {w m m'}, Same gs (w, m) (w, m') → Same gs (f w m) (f w m')) :
    Same gs (f r.1 r.2) (f r'.1 r'.2) := by
  obtain ⟨w, m⟩ := r
  obtain ⟨w', m'⟩ := r'
  obtain rfl : w' = w := h.value_eq
  exact hf h

theorem Same.moved (h : Same gs (w, m) (w, m')) {s s' : View × Memory}
    (hs : Memory.Same gs s s') (hl : s.1.length = w.length) :
    Same gs ({ w with view := s.1 }, s.2) ({ w with view := s'.1 }, s'.2) where
  value_eq := by rw [hs.value_eq]
  twins := hs.twins
  position_le := by
    show w.position ≤ s.1.length
    rw [hl]
    exact h.position_le

/-! ### Making room and filling it -/

theorem Same.makeRoom (h : Same gs (w, m) (w, m')) (n : Nat) :
    Same gs (w.makeRoom n m) (w.makeRoom n m') := by
  unfold Writer.makeRoom
  simp only [h.capacity_eq]
  split_ifs
  · have hlen := (View.continues_ensure h.twins.holds
      (max (w.position + n) (2 * w.capacity m))).1.length_eq
    exact h.moved (h.twins.same_ensure _) hlen
  · exact h

/-- **Moving over** bytes, which were filled if they were not shown before. -/
theorem same_moveOver (h : Twins (⟨w.view, max w.length (w.position + n)⟩ :: gs) m m')
    (hn : w.position + n ≤ w.capacity m) : Same gs (w.moveOver n m) (w.moveOver n m') := by
  have hn' := hn
  rw [Writer.capacity, ← h.alike.capacity_eq] at hn'
  unfold moveOver
  simp only
  split_ifs with hlt
  · rw [View.setLength_of_le hn, View.setLength_of_le hn']
    exact ⟨rfl, h.withLength (Nat.le_max_right _ _) hn, Nat.le_refl _⟩
  · exact ⟨rfl, h.filled_le (Nat.le_max_left _ _), Nat.le_of_not_lt hlt⟩

/-- **Filling** the room behind the cursor: what comes to be shown was written just now. -/
theorem Same.fill (h : Same gs (w, m) (w, m')) (hn : w.position + bs.length ≤ w.capacity m) :
    Same gs (w.fill bs m) (w.fill bs m') := by
  have hwrite := h.twins.write (Nat.le_refl _) h.position_le hn
  have hlen : (w.view.write w.position bs m).1.length = w.length :=
    View.length_write h.twins.holds w.position bs
  have hcap := View.le_capacity_write h.twins.holds
    (Nat.le_trans hn (View.le_capacity_own h.twins.holds))
  unfold Writer.fill
  simp only [(h.twins.alike.write w.view w.position bs).1]
  refine same_moveOver ?_ (Nat.le_trans hn hcap)
  rw [Writer.length, hlen]
  exact hwrite

/-! ### Bytes one after the other -/

/-- **A round** of putting bytes leaves the same bytes to be put. -/
theorem Same.putRound (h : Same gs (w, m) (w, m')) (bs : Bytes) :
    (w.putRound bs m').1 = (w.putRound bs m).1 ∧
      Same gs (w.putRound bs m).2 (w.putRound bs m').2 := by
  have hroom : Same gs (if w.position = w.capacity m then w.makeRoom standardRoom m else (w, m))
      (if w.position = w.capacity m' then w.makeRoom standardRoom m' else (w, m')) := by
    rw [h.capacity_eq]
    split_ifs
    · exact h.makeRoom standardRoom
    · exact h
  unfold Writer.putRound
  generalize
    (if w.position = w.capacity m then w.makeRoom standardRoom m else (w, m)) = r at hroom ⊢
  generalize (if w.position = w.capacity m' then w.makeRoom standardRoom m' else (w, m')) = r'
    at hroom ⊢
  obtain ⟨w₁, m₁⟩ := r
  obtain ⟨w₁', m₁'⟩ := r'
  obtain rfl : w₁' = w₁ := hroom.value_eq
  have hown := hroom.twins.same_own
  have howned := hroom.moved hown (View.continues_own hroom.twins.holds).1.length_eq
  -- no more is filled than there is room for
  have hp := howned.position_le
  have hle := howned.sound.le_capacity
  obtain ⟨hv, htwins⟩ := hown
  simp only [hv] at howned ⊢
  rw [htwins.alike.capacity_eq]
  refine ⟨rfl, howned.fill ?_⟩
  simp only [Writer.capacity] at hp hle ⊢
  rw [List.length_take]
  omega

theorem Same.putRounds (h : Same gs (w, m) (w, m')) (n : Nat) (bs : Bytes) :
    Same gs (putRounds n w bs m) (putRounds n w bs m') := by
  induction n generalizing w bs m m' with
  | zero => exact h
  | succ n ih =>
    cases bs with
    | nil => exact h
    | cons b bs =>
      obtain ⟨hrest, hround⟩ := h.putRound (b :: bs)
      simp only [Writer.putRounds, hrest]
      exact hround.andThen fun h' => ih h' _

/-- **Putting bytes**, whatever room there is. -/
theorem Same.put (h : Same gs (w, m) (w, m')) (bs : Bytes) :
    Same gs (w.put bs m) (w.put bs m') := h.putRounds bs.length bs

theorem Same.append (h : Same gs (w, m) (w, m')) (bs : Bytes) :
    Same gs (w.append bs m) (w.append bs m') :=
  (h.makeRoom bs.length).andThen (f := fun w m => w.put bs m) fun h' => h'.put bs

theorem Same.appendAll (h : Same gs (w, m) (w, m')) (stretches : List Bytes) :
    Same gs (w.appendAll stretches m) (w.appendAll stretches m') := by
  induction stretches generalizing w m m' with
  | nil => exact h
  | cons bs rest ih =>
    exact (h.append bs).andThen (f := fun w m => w.appendAll rest m) fun h' => ih h'

/-- **Writing a value.** -/
theorem Same.write (h : Same gs (w, m) (w, m')) (k : Kind) (v : k.Value) :
    Same gs (w.write k v m) (w.write k v m') := h.appendAll _

theorem Same.reserve (h : Same gs (w, m) (w, m')) (n : Nat) :
    (w.reserve n m').1 = (w.reserve n m).1 ∧ Same gs (w.reserve n m).2 (w.reserve n m').2 := by
  obtain ⟨hw, hle⟩ := wrote_makeRoom h.sound n
  have hroom := h.makeRoom n
  have hfit : (w.makeRoom n m).1.position + (Bytes.zeros n).length ≤
      (w.makeRoom n m).1.capacity (w.makeRoom n m).2 := by
    rw [Bytes.length_zeros, hw.position_eq]
    exact hle
  refine ⟨rfl, ?_⟩
  unfold Writer.reserve
  generalize w.makeRoom n m = r at hroom hfit ⊢
  generalize w.makeRoom n m' = r' at hroom ⊢
  obtain ⟨w₁, m₁⟩ := r
  obtain ⟨w₁', m₁'⟩ := r'
  obtain rfl : w₁' = w₁ := hroom.value_eq
  exact hroom.fill hfit

/-! ### The start -/

theorem same_create (h : Twins gs m m') (room : Nat) (e : Encoding) :
    Same gs (create room e m) (create room e m') := by
  have hc := h.same_create room
  refine ⟨?_, hc.twins, Nat.le_refl _⟩
  simp only [create, hc.value_eq]

end Writer

end Tandem
