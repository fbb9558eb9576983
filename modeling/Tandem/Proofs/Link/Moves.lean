import Tandem.Link
import Tandem.Proofs.Connection.Receiving

/-!
# What an event does to a link

An event of a link is an event of the connection at one of its ends, or of neither (`Link.acts`).
The wire from that end takes what the connection writes, and the wire to it loses what the
connection reads (`Link.Moves`); the other end does not notice.
-/

namespace Tandem

@[simp] theorem Side.other_other (s : Side) : s.other.other = s := by cases s <;> rfl

theorem Side.ne_other (s : Side) : s ≠ s.other := by cases s <;> exact nofun

theorem Side.eq_other_of_ne {s t : Side} (h : t ≠ s) : t = s.other := by
  cases s <;> cases t <;> first | rfl | exact absurd rfl h

namespace Link

variable {l l' : Link} {s : Side} {e : Event} {x : Connection.Event}

/-- The end at which an event is one of the connection's, and which one it is there. -/
def acts (l : Link) : Event → Option (Side × Connection.Event)
  | .start s => some (s, .start)
  | .send s bs ch a => some (s, .send bs ch a)
  | .write s a => some (s, .write a)
  | .read s n =>
    if !(l.conn s).isReading then none
    else if (l.wires.get s.other).bytes.isEmpty then
      if (l.wires.get s.other).ended then some (s, .readEnd) else none
    else if min n (l.conn s).wanted = 0 then none
    else some (s, .read ((l.wires.get s.other).bytes.take (min n (l.conn s).wanted)))
  | .settle s => some (s, .settle)
  | .arrive s =>
    match l.air.get s.other with
    | [] => none
    | bs :: _ => if (l.conn s).isConnected then some (s, .datagram bs) else none
  | .lose _ => none
  | .poll s now => some (s, .poll now)
  | .check s => some (s, .check)
  | .finish s => some (s, .finish)
  | .conclude s => some (s, .conclude)
  | .disconnect s cause => some (s, .disconnect cause)

/-- An event of the connection at one end, with the wires that go from it and to it. -/
structure Moves (l l' : Link) (s : Side) (x : Connection.Event) : Prop where
  conn : l'.conn s = (l.conn s).step x
  other : l'.conn s.other = l.conn s.other
  written : (l'.wires.get s).bytes = (l.wires.get s).bytes ++ (l.conn s).takes x
  read : (l.wires.get s.other).bytes = (l.conn s).reads x ++ (l'.wires.get s.other).bytes
  /-- no piece of the stream is longer than wanted -/
  wanted : ∀ piece, x = .read piece → piece.length ≤ (l.conn s).wanted
  /-- a wire ends with the connection that it goes from -/
  ends : (l'.wires.get s).ended → (l.wires.get s).ended ∨ (l'.conn s).isConnected = false
  otherEnds : (l'.wires.get s.other).ended = (l.wires.get s.other).ended
  /-- the end of a wire is seen when there is one -/
  seesEnd : x = .readEnd → (l.wires.get s.other).ended

/-- Changing a connection ends the wire from it if it is not connected then. -/
theorem moves_modify {m : Link} {f : Connection → Connection} (heq : l' = m.modify s f)
    (hends : m.ends = l.ends)
    (hf : ∀ c, f c = c.step x)
    (hwritten : (m.wires.get s).bytes = (l.wires.get s).bytes ++ (l.conn s).takes x)
    (hread : (l.wires.get s.other).bytes = (l.conn s).reads x ++ (m.wires.get s.other).bytes)
    (hended : ∀ t, (m.wires.get t).ended = (l.wires.get t).ended)
    (hwanted : ∀ piece, x = .read piece → piece.length ≤ (l.conn s).wanted)
    (hseesEnd : x = .readEnd → (l.wires.get s.other).ended) : Moves l l' s x := by
  subst heq
  have hconn : m.conn s = l.conn s := by rw [Link.conn, Link.conn, hends]
  have hthis : (m.modify s f).conn s = (l.conn s).step x := by
    rw [← hf, ← hconn]
    exact Pair.get_set_self _ _ _
  have hother : (m.modify s f).conn s.other = l.conn s.other := by
    rw [Link.conn, Link.conn, ← hends]
    exact Pair.get_set_other _ _ _
  have hwires : (m.modify s f).wires =
      if (f (m.conn s)).isConnected then m.wires
      else m.wires.set s { m.wires.get s with ended := true } := rfl
  have hbytes : ∀ t, ((m.modify s f).wires.get t).bytes = (m.wires.get t).bytes := fun t => by
    rw [hwires]
    split_ifs
    · rfl
    · cases s <;> cases t <;> rfl
  refine ⟨hthis, hother, (hbytes s).trans hwritten, ?_, hwanted, fun h => ?_, ?_, hseesEnd⟩
  · rw [hbytes, hread]
  · by_cases hconnected : (f (m.conn s)).isConnected = true
    · rw [hwires, if_pos hconnected, hended] at h
      exact .inl h
    · rw [hthis, ← hf, ← hconn]
      exact .inr (Bool.eq_false_iff.2 hconnected)
  · rw [hwires, ← hended]
    split_ifs
    · rfl
    · rw [Pair.get_set_other]

theorem moves_modify_self {m : Link} {f : Connection → Connection} (heq : l' = m.modify s f)
    (hends : m.ends = l.ends) (hwires : m.wires = l.wires) (hf : ∀ c, f c = c.step x)
    (htakes : (l.conn s).takes x = []) (hreads : (l.conn s).reads x = [])
    (hwanted : ∀ piece, x = .read piece → piece.length ≤ (l.conn s).wanted)
    (hseesEnd : x = .readEnd → (l.wires.get s.other).ended) : Moves l l' s x :=
  moves_modify heq hends hf (by rw [hwires, htakes, List.append_nil])
    (by rw [hwires, hreads, List.nil_append]) (fun _ => by rw [hwires]) hwanted hseesEnd

/-- **An event at an end** is one of the connection's there. -/
theorem moves_step (h : l.acts e = some (s, x)) : Moves l (l.step e) s x := by
  cases e with
  | start _ | settle _ | poll _ _ | check _ | finish _ | conclude _ | disconnect _ _ =>
    cases h
    exact moves_modify_self rfl rfl rfl (fun _ => rfl) rfl rfl (by rintro _ ⟨⟩) (by rintro ⟨⟩)
  | lose _ => cases h
  | send _ bs ch a =>
    cases h
    have hstep : l.step (.send s bs ch a) =
        { l with air :=
          if ((l.conn s).sendBytes bs ch a).1 && ch = Channel.unreliable then
            l.air.set s (l.air.get s ++ [bs])
          else l.air }.modify s fun c => (c.sendBytes bs ch a).2 := rfl
    exact moves_modify_self hstep rfl rfl (fun _ => rfl) rfl rfl (by rintro _ ⟨⟩) (by rintro ⟨⟩)
  | write _ a =>
    cases h
    have hstep : l.step (.write s a) =
        { l with wires := l.wires.set s { l.wires.get s with
            bytes := (l.wires.get s).bytes ++ ((l.conn s).write a).1 } }.modify s
          fun c => (c.write a).2 := rfl
    refine moves_modify hstep rfl (fun _ => rfl) ?_ ?_ (fun t => ?_) (by rintro _ ⟨⟩) (by rintro ⟨⟩)
    · rw [Pair.get_set_self]
      rfl
    · rw [Pair.get_set_other]
      rfl
    · cases s <;> cases t <;> rfl
  | arrive t =>
    cases hair : l.air.get t.other with
    | nil =>
      simp only [acts, hair] at h
      cases h
    | cons bs rest =>
      simp only [acts, hair] at h
      split_ifs at h with hconnected
      cases h
      have hstep : l.step (.arrive s) =
          { l with air := l.air.set s.other rest }.modify s fun c => c.datagram bs := by
        simp only [step, arrive, hair]
        exact if_pos hconnected
      exact moves_modify_self hstep rfl rfl (fun _ => rfl) rfl rfl (by rintro _ ⟨⟩) (by rintro ⟨⟩)
  | read t n =>
    simp only [acts] at h
    -- the wire is at its end, or some of the bytes on it are wanted
    split_ifs at h with hreading hempty hended hzero
    · cases h
      have hstep : l.step (.read s n) = l.modify s Connection.readEnd := by
        simp only [step, read, hreading, hempty, hended, Bool.false_eq_true, if_false, if_true]
      exact moves_modify_self hstep rfl rfl (fun _ => rfl) rfl rfl (by rintro _ ⟨⟩) fun _ => hended
    · cases h
      have hstep : l.step (.read s n) =
          { l with wires := l.wires.set s.other { l.wires.get s.other with
              bytes := (l.wires.get s.other).bytes.drop (min n (l.conn s).wanted) } }.modify s
            fun c => c.read ((l.wires.get s.other).bytes.take (min n (l.conn s).wanted)) := by
        simp only [step, read, hreading, hempty, hzero, Bool.false_eq_true, if_false]
      refine moves_modify hstep rfl (fun _ => rfl) ?_ ?_ (fun t => ?_) ?_ (by rintro ⟨⟩)
      · rw [Pair.get_set_of_other]
        exact (List.append_nil _).symm
      · have hreading : (l.conn s).isReading = true := by
          rwa [Bool.not_eq_true', Bool.not_eq_false] at hreading
        rw [Pair.get_set_self, Connection.reads, if_pos hreading, List.take_append_drop]
      · cases s <;> cases t <;> rfl
      · rintro piece heq
        cases heq
        rw [List.length_take]
        omega

/-- **All other events** change neither a connection nor a wire. -/
theorem stays_step (h : l.acts e = none) :
    (l.step e).ends = l.ends ∧ (l.step e).wires = l.wires := by
  cases e with
  | start _ | send _ _ _ _ | settle _ | poll _ _ | check _ | finish _ | conclude _
  | disconnect _ _ | write _ _ => cases h
  | lose _ => exact ⟨rfl, rfl⟩
  | arrive s =>
    cases hair : l.air.get s.other with
    | nil =>
      have hstep : l.step (.arrive s) = l := by simp only [step, arrive, hair]
      rw [hstep]
      exact ⟨rfl, rfl⟩
    | cons bs rest =>
      simp only [acts, hair] at h
      split_ifs at h with hconnected
      have hstep : l.step (.arrive s) = { l with air := l.air.set s.other rest } := by
        simp only [step, arrive, hair]
        exact if_neg hconnected
      rw [hstep]
      exact ⟨rfl, rfl⟩
  | read s n =>
    simp only [acts] at h
    simp only [step, read]
    split_ifs at h ⊢ <;> exact ⟨rfl, rfl⟩

end Link

end Tandem
