import Tandem.Serializable
import Tandem.Proofs.View

/-!
# What a writer writes

`Writer.Wrote` relates a writer to what it is after bytes were written at its cursor: they replace
what was there or go on behind it, the cursor is behind them, the room is at least what it was, and
nobody else sees anything of it.  Writing nothing includes making room, and writing twice in a row
is writing once (`Wrote.trans`), so that each of the ways of writing bytes, however it finds its
room, comes down to `wrote_makeRoom` and `wrote_fill`.
-/

namespace Tandem

open Memory (HeldBy Keeps)

namespace Writer

/-- A writer whose view is held beside the others and whose cursor is not behind the end. -/
structure Sound (others : List View) (w : Writer) (m : Memory) : Prop where
  held : m.HeldBy (w.view :: others)
  position_le : w.position ≤ w.length

/-- `w'` in `m'` is what became of `w` in `m` when `bs` was written. -/
structure Wrote (others : List View) (w : Writer) (m : Memory) (bs : Bytes) (w' : Writer)
    (m' : Memory) : Prop where
  held : m'.HeldBy (w'.view :: others)
  keeps : Keeps others m m'
  bytes_eq : w'.bytes m' = (w.bytes m).splice w.position bs
  position_eq : w'.position = w.position + bs.length
  encoding_eq : w'.encoding = w.encoding
  le_capacity : w.capacity m ≤ w'.capacity m'

variable {others : List View} {w w' w'' : Writer} {m m' m'' : Memory} {bs more : Bytes} {n p : Nat}

theorem Sound.length_bytes (h : w.Sound others m) : (w.bytes m).length = w.length :=
  h.held.length_bytes List.mem_cons_self

theorem Sound.le_capacity (h : w.Sound others m) : w.length ≤ w.capacity m :=
  h.held.le_capacity List.mem_cons_self

/-! ### Writing nothing, and writing in a row -/

theorem Wrote.refl (h : w.Sound others m) : Wrote others w m [] w m where
  held := h.held
  keeps := .refl others m
  bytes_eq := (Bytes.splice_nil _ _).symm
  position_eq := rfl
  encoding_eq := rfl
  le_capacity := Nat.le_refl _

theorem Wrote.sound (hw : Wrote others w m bs w' m') (h : w.Sound others m) :
    w'.Sound others m' where
  held := hw.held
  position_le := by
    have hlen : (w'.bytes m').length = w'.length := hw.held.length_bytes List.mem_cons_self
    have hle := h.position_le
    rw [← h.length_bytes] at hle
    rw [← hlen, hw.bytes_eq, hw.position_eq, Bytes.length_splice_eq_max hle]
    exact Nat.le_max_right _ _

theorem Wrote.trans (hw : Wrote others w m bs w' m') (h : w.Sound others m)
    (hw' : Wrote others w' m' more w'' m'') : Wrote others w m (bs ++ more) w'' m'' where
  held := hw'.held
  keeps := hw.keeps.trans hw'.keeps
  bytes_eq := by
    have hle := h.position_le
    rw [← h.length_bytes] at hle
    rw [hw'.bytes_eq, hw.bytes_eq, hw.position_eq, Bytes.splice_splice hle]
  position_eq := by
    rw [hw'.position_eq, hw.position_eq, List.length_append, Nat.add_assoc]
  encoding_eq := hw'.encoding_eq.trans hw.encoding_eq
  le_capacity := Nat.le_trans hw.le_capacity hw'.le_capacity

theorem Wrote.of_continues {v : View} (hc : View.Continues others w.view m v m') :
    Wrote others w m [] { w with view := v } m' where
  held := hc.held
  keeps := hc.keeps
  bytes_eq := hc.bytes_eq.trans (Bytes.splice_nil _ _).symm
  position_eq := rfl
  encoding_eq := rfl
  le_capacity := hc.le_capacity

/-! ### Making room and filling it -/

/-- **Making room** for bytes at the cursor. -/
theorem wrote_makeRoom (h : w.Sound others m) (n : Nat) :
    Wrote others w m [] (w.makeRoom n m).1 (w.makeRoom n m).2 ∧
      w.position + n ≤ (w.makeRoom n m).1.capacity (w.makeRoom n m).2 := by
  unfold makeRoom
  simp only
  split_ifs with hlt
  · obtain ⟨hc, hle⟩ :=
      View.continues_ensure h.held (max (w.position + n) (2 * w.capacity m))
    exact ⟨.of_continues hc, Nat.le_trans (Nat.le_max_left _ _) hle⟩
  · exact ⟨.refl h, Nat.le_of_not_lt hlt⟩

/-- **Filling** the room behind the cursor. -/
theorem wrote_fill (h : w.Sound others m) (hn : w.position + bs.length ≤ w.capacity m) :
    Wrote others w m bs (w.fill bs m).1 (w.fill bs m).2 := by
  obtain ⟨hh, hk⟩ := View.held_write h.held w.position bs
  have hlen := View.length_write h.held w.position bs
  have hown := Nat.le_trans hn (View.le_capacity_own h.held)
  have hroom := View.take_room_write h.held hown h.position_le
  have hcap := View.le_capacity_write h.held hown
  unfold fill moveOver
  simp only [length, hlen]
  split_ifs with hlt
  · -- the bytes go on behind the end
    have hfit : w.position + bs.length ≤
        (w.view.write w.position bs m).1.capacity (w.view.write w.position bs m).2 :=
      Nat.le_trans hn hcap
    obtain ⟨hs, ks⟩ := View.held_setLength hh (w.position + bs.length)
    rw [View.setLength_of_le hfit] at hs ks ⊢
    refine ⟨hs, hk.trans ks, ?_, rfl, rfl, hcap⟩
    rw [Nat.max_eq_right (Nat.le_of_lt hlt)] at hroom
    rw [bytes, View.bytes_eq_take_room]
    exact hroom
  · refine ⟨hh, hk, ?_, rfl, rfl, hcap⟩
    rw [Nat.max_eq_left (Nat.le_of_not_lt hlt)] at hroom
    rw [bytes, View.bytes_eq_take_room, hlen]
    exact hroom

/-! ### Bytes one after the other -/

theorem wrote_makeSomeRoom (h : w.Sound others m) {r : Writer × Memory}
    (hr : (if w.position = w.capacity m then w.makeRoom standardRoom m else (w, m)) = r) :
    Wrote others w m [] r.1 r.2 ∧ r.1.position < r.1.capacity r.2 := by
  subst hr
  split_ifs with hfull
  · obtain ⟨hw, hle⟩ := wrote_makeRoom h standardRoom
    refine ⟨hw, Nat.lt_of_lt_of_le ?_ hle⟩
    rw [hw.position_eq]
    exact Nat.lt_add_of_pos_right (by decide)
  · have hp := h.position_le
    have hl := h.le_capacity
    exact ⟨.refl h, by simp only; omega⟩

/-- **A round** of putting bytes writes at least the first of them. -/
theorem wrote_putRound (h : w.Sound others m) (hne : bs ≠ []) :
    ∃ first, first ≠ [] ∧ bs = first ++ (w.putRound bs m).1 ∧
      Wrote others w m first (w.putRound bs m).2.1 (w.putRound bs m).2.2 := by
  unfold putRound
  generalize hr : (if w.position = w.capacity m then w.makeRoom standardRoom m else (w, m)) = r
  obtain ⟨hw₁, hroom⟩ := wrote_makeSomeRoom h hr
  obtain ⟨w₁, m₁⟩ := r
  have h₁ := hw₁.sound h
  obtain ⟨hc, -⟩ := View.continues_own h₁.held
  have hw₂ := Wrote.of_continues hc
  have h₂ := hw₂.sound h₁
  -- moving to an array of its own does not take the room away
  have hlt : w₁.position < (w₁.view.own m₁).1.capacity (w₁.view.own m₁).2 :=
    Nat.lt_of_lt_of_le hroom hc.le_capacity
  simp only
  generalize hn : (w₁.view.own m₁).1.capacity (w₁.view.own m₁).2 - w₁.position = n
  have hfit : w₁.position + (bs.take n).length ≤
      (w₁.view.own m₁).1.capacity (w₁.view.own m₁).2 := by
    rw [List.length_take]
    omega
  have hfill := wrote_fill h₂ hfit
  refine ⟨bs.take n, ?_, (List.take_append_drop n bs).symm, ?_⟩
  · intro hnil
    rcases List.take_eq_nil_iff.1 hnil with h0 | h0
    · omega
    · exact hne h0
  · exact hw₁.trans h (hw₂.trans h₁ hfill)

theorem wrote_putRounds (h : w.Sound others m) (hn : bs.length ≤ n) :
    Wrote others w m bs (putRounds n w bs m).1 (putRounds n w bs m).2 := by
  induction n generalizing w bs m with
  | zero =>
    obtain rfl := List.length_eq_zero_iff.1 (Nat.le_zero.1 hn)
    exact .refl h
  | succ n ih =>
    cases bs with
    | nil => exact .refl h
    | cons b bs =>
      obtain ⟨first, hne, heq, hw⟩ := wrote_putRound h (List.cons_ne_nil b bs)
      have hlen := congrArg List.length heq
      have hpos := List.length_pos_iff.2 hne
      rw [List.length_append] at hlen
      have hrest := ih (hw.sound h) (show ((w.putRound (b :: bs) m).1).length ≤ n by omega)
      have hall := hw.trans h hrest
      rw [← heq] at hall
      exact hall

/-- **Putting bytes**, whatever room there is. -/
theorem wrote_put (h : w.Sound others m) (bs : Bytes) :
    Wrote others w m bs (w.put bs m).1 (w.put bs m).2 :=
  wrote_putRounds h (Nat.le_refl _)

/-- **Appending bytes**, for which room is made first. -/
theorem wrote_append (h : w.Sound others m) (bs : Bytes) :
    Wrote others w m bs (w.append bs m).1 (w.append bs m).2 := by
  obtain ⟨hw, -⟩ := wrote_makeRoom h bs.length
  exact hw.trans h (wrote_put (hw.sound h) bs)

theorem wrote_appendAll (h : w.Sound others m) (stretches : List Bytes) :
    Wrote others w m stretches.flatten (w.appendAll stretches m).1 (w.appendAll stretches m).2 := by
  induction stretches generalizing w m with
  | nil => exact .refl h
  | cons bs rest ih =>
    have hw := wrote_append h bs
    exact hw.trans h (ih (hw.sound h))

/-- **Writing a value** writes its encoding. -/
theorem wrote_write (h : w.Sound others m) (k : Kind) (v : k.Value) :
    Wrote others w m (k.encode w.encoding v) (w.write k v m).1 (w.write k v m).2 :=
  wrote_appendAll h _

/-- **Reserving** writes zero bytes. -/
theorem wrote_reserve (h : w.Sound others m) (n : Nat) :
    Wrote others w m (.zeros n) (w.reserve n m).2.1 (w.reserve n m).2.2 := by
  obtain ⟨hw, hle⟩ := wrote_makeRoom h n
  have hpos := hw.position_eq
  have hfit : (w.makeRoom n m).1.position + (Bytes.zeros n).length ≤
      (w.makeRoom n m).1.capacity (w.makeRoom n m).2 := by
    rw [Bytes.length_zeros, hpos]
    exact hle
  exact hw.trans h (wrote_fill (hw.sound h) hfit)

theorem writeRecords_eq {α : Type} [Serializable α] (w : Writer) (as : List α) (m : Memory) :
    w.writeRecords as m =
      (w.append (Kind.count as.length) m).1.writeEach as (w.append (Kind.count as.length) m).2 := by
  rw [writeRecords]

/-! ### The start -/

theorem sound_create (h : m.HeldBy others) (room : Nat) (e : Encoding) :
    (create room e m).1.Sound others (create room e m).2 ∧ Keeps others m (create room e m).2 := by
  obtain ⟨hh, hk⟩ := View.held_create h room
  exact ⟨⟨hh, Nat.le_refl _⟩, hk⟩

theorem bytes_create (room : Nat) (e : Encoding) (m : Memory) :
    (create room e m).1.bytes (create room e m).2 = [] :=
  View.bytes_create room m

end Writer

end Tandem
