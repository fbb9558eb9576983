import Tandem.Proofs.Frame.Segmentation
import Tandem.Proofs.Recycling.Twins

/-!
# Frames received in twins

The view of a body has its full length from the start, long before all of its bytes have come, so
that most of it is not filled yet.  A receiver looks at the bytes that have come and at nothing
else, and it hands out the view when there are as many as the view is long (`Receiver.same_call`).
-/

namespace Tandem.Frame.Receiver

open Memory (Twins)

/-- What has come of a body. -/
def glimpses (r : Receiver) : List Glimpse :=
  match r.phase with
  | .header .. => []
  | .body v filled => [⟨v, filled⟩]

/-- No more was counted than there is memory for. -/
def InOrder (r : Receiver) : Prop :=
  match r.phase with
  | .header .. => True
  | .body v filled => filled ≤ v.length

/-- What is handed out and what has come of the next body, before other glimpses. -/
def left (answer : Except FramingError (Option View) × Receiver × Memory) (gs : List Glimpse) :
    List Glimpse :=
  (handed answer.1).map View.whole ++ (answer.2.1.glimpses ++ gs)

/-- The same answer, and the same receiver in twins. -/
structure SameCall (gs : List Glimpse)
    (answer answer' : Except FramingError (Option View) × Receiver × Memory) : Prop where
  result_eq : answer'.1 = answer.1
  receiver_eq : answer'.2.1 = answer.2.1
  inOrder : answer.2.1.InOrder
  twins : Twins (left answer gs) answer.2.2 answer'.2.2

variable {gs : List Glimpse} {r : Receiver} {m m' : Memory} {piece : Bytes} {v : View}
  {filled n : Nat} {max : Option Nat}

theorem glimpses_view (r : Receiver) : r.glimpses.map Glimpse.view = r.views := by
  obtain ⟨phase, max⟩ := r
  cases phase <;> rfl

theorem inOrder_create (max : Option Nat) : (create max).InOrder := trivial

theorem twins_drop (h : Twins (r.glimpses ++ gs) m m') :
    Twins gs (r.views.foldl (fun m v => v.drop m) m) (r.views.foldl (fun m v => v.drop m) m') := by
  obtain ⟨phase, max⟩ := r
  cases phase with
  | header bs filled => exact h
  | body v filled => exact Twins.drop (g := ⟨v, filled⟩) h

theorem assembly_eq (h : Twins (r.glimpses ++ gs) m m') (hr : r.InOrder) :
    r.assembly m' = r.assembly m := by
  obtain ⟨phase, max⟩ := r
  cases phase with
  | header bs filled => rfl
  | body v filled =>
    have hroom := h.agree ⟨v, filled⟩ List.mem_cons_self
    have hle : filled ≤ v.length := hr
    have hb : (v.bytes m').take filled = (v.bytes m).take filled := by
      rw [View.bytes_eq_take_room, View.bytes_eq_take_room, List.take_take, List.take_take,
        Nat.min_eq_left hle]
      exact hroom
    simp only [assembly, hb]

/-! ### Headers -/

/-- **Counting** bytes of a header: memory is taken when it is complete, and nothing of it is
filled. -/
theorem same_report_header (h : Twins gs m m') (bs : Bytes) :
    SameCall gs (report ⟨.header bs filled, max⟩ n m) (report ⟨.header bs filled, max⟩ n m') := by
  simp only [report]
  split_ifs
  · exact ⟨rfl, rfl, trivial, h⟩
  · cases accept max (declared bs) with
    | error e => exact ⟨rfl, rfl, trivial, h⟩
    | ok length =>
      cases length with
      | zero =>
        have hc := h.same_create 0
        exact ⟨congrArg (fun v => Except.ok (some v)) hc.value_eq, rfl, trivial, hc.twins⟩
      | succ k =>
        have hc := h.same_create (k + 1)
        have htwins : Twins ((View.create (k + 1) m).1.whole :: gs) _ _ := hc.twins
        obtain ⟨hv, hs⟩ := htwins.setLength (k + 1)
        simp only [hc.value_eq]
        refine ⟨rfl, ?_, Nat.zero_le _, ?_⟩
        · exact congrArg (fun v => (⟨.body v 0, max⟩ : Receiver)) hv
        · exact hs.filled_le (Nat.zero_le _)

/-! ### Bodies -/

theorem same_report_body (h : Twins (⟨v, filled + n⟩ :: gs) m m') :
    SameCall gs (report ⟨.body v filled, max⟩ n m) (report ⟨.body v filled, max⟩ n m') := by
  simp only [report]
  split_ifs with hlt
  · exact ⟨rfl, rfl, Nat.le_of_lt hlt, h⟩
  · exact ⟨rfl, rfl, trivial, h.filled_le (Nat.le_of_not_lt hlt)⟩

/-- **A piece of a body** goes right behind what has come before. -/
theorem same_call_body (h : Twins (⟨v, filled⟩ :: gs) m m') (hf : filled ≤ v.length)
    (hp : piece.length ≤ v.length - filled) :
    SameCall gs (call ⟨.body v filled, max⟩ piece piece.length m)
      (call ⟨.body v filled, max⟩ piece piece.length m') := by
  have hown := h.own hf
  have hlen := (View.continues_own h.held).1.length_eq
  have hcap := hown.held.le_capacity List.mem_cons_self
  have hfit : filled + piece.length ≤ (v.own m).1.capacity (v.own m).2 := by
    simp only at hlen hcap
    omega
  have hwrite := hown.write (by simp only at hlen; omega) (Nat.le_refl _) hfit
  rw [Nat.max_eq_right (Nat.le_add_right _ _)] at hwrite
  rw [call_body, call_body, (h.alike.own v).1, (hown.alike.write (v.own m).1 filled piece).1]
  exact same_report_body hwrite

/-! ### All calls -/

/-- **A call** gives the same answer in twins, whatever is in the memory that it takes for a
body. -/
theorem same_call (h : Twins (r.glimpses ++ gs) m m') (hr : r.InOrder)
    (hp : piece.length ≤ r.targetLength) :
    SameCall gs (r.call piece piece.length m) (r.call piece piece.length m') := by
  obtain ⟨phase, max⟩ := r
  cases phase with
  | header bs filled => exact same_report_header h _
  | body v filled => exact same_call_body h hr hp

end Tandem.Frame.Receiver
