import Tandem.Listener.Pending

/-!
# The table of pending handshakes

A fresh token is one that was drawn and that no stream waits under (`fresh?_eq_some`).  Completing a
handshake, giving it up and letting it expire take out the same entry, if there is one
(`complete_eq`).
-/

namespace Tandem.Pending

variable {p : Pending} {draws : List Token} {t : Token}

theorem fresh?_eq_some (h : p.fresh? draws = some t) : t ∈ draws ∧ p.entries.get? t = none := by
  refine ⟨List.mem_of_find?_eq_some h, ?_⟩
  have hunused := List.find?_some h
  simpa [Table.contains] using hunused

theorem fresh?_eq_none (h : p.fresh? draws = none) (ht : t ∈ draws) : t ∈ p.entries.keys := by
  have hused := List.find?_eq_none.1 h t ht
  rwa [Bool.not_eq_true, Bool.not_eq_false', Table.contains_iff] at hused

theorem complete_eq (p : Pending) (t : Token) :
    p.complete t = (p.entries.get? t, { p with entries := p.entries.erase t }) := by
  unfold complete
  cases hget : p.entries.get? t with
  | none => simp only [Table.erase_of_get?_none hget]
  | some e => rfl

@[simp] theorem entries_abandon (p : Pending) (t : Token) :
    (p.abandon t).2.entries = p.entries.erase t := by
  rw [abandon, complete_eq]

@[simp] theorem entries_expire (p : Pending) (t : Token) :
    (p.expire t).2.entries = p.entries.erase t := by
  unfold expire
  rw [complete_eq]
  cases p.entries.get? t <;> rfl

end Tandem.Pending
