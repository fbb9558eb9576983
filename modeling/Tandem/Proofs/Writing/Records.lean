import Tandem.Records
import Tandem.Proofs.Writing.Draft

/-!
# The application types write by operations

What a writer does by plain operations can be done one after the other (`Writer.Scripted.trans`).
The three types of `Tandem.Records` are written in this way, trees by recursion on them.
-/

namespace Tandem

namespace Writer

/-- What is done by plain operations, none of which hands out a view. -/
def Scripted (f : Writer → Memory → Writer × Memory) : Prop :=
  ∀ w m, ∃ ops, (∀ op ∈ ops, WriteOp.Plain op) ∧
    Draft.performAll ⟨w, m, []⟩ ops = (.ok (), ⟨(f w m).1, (f w m).2, []⟩)

variable {f g : Writer → Memory → Writer × Memory}

theorem performAll_append {d d' : Draft} {ops more : List WriteOp}
    (h : d.performAll ops = (.ok (), d')) : d.performAll (ops ++ more) = d'.performAll more := by
  induction ops generalizing d with
  | nil =>
    cases h
    rfl
  | cons op ops ih =>
    obtain ⟨hr, hall⟩ := Draft.performAll_cons_eq_ok h
    rw [List.cons_append, Draft.performAll]
    split
    · next e d₁ heq => exact (hr e (congrArg Prod.fst heq)).elim
    · next r d₁ _ heq =>
      rw [heq] at hall
      exact ih hall

theorem scripted_nothing : Scripted fun w m => (w, m) :=
  fun _ _ => ⟨[], fun _ hop => absurd hop List.not_mem_nil, rfl⟩

theorem scripted_write (k : Kind) (v : k.Value) : Scripted fun w m => w.write k v m := by
  intro w m
  refine ⟨[.value k v], ?_, by simp only [Draft.performAll, Draft.perform, Draft.resume]⟩
  intro op hop
  rw [List.mem_singleton.1 hop]
  exact trivial

/-- A count is a stretch of four bytes without a length. -/
theorem append_count_eq (n : Nat) (w : Writer) (m : Memory) :
    w.append (Kind.count n) m =
      w.write (.raw 4) ⟨Kind.count n, Bytes.length_bigEndian 4 n⟩ m := by
  simp only [write, Kind.layout, appendAll]

theorem scripted_count (n : Nat) : Scripted fun w m => w.append (Kind.count n) m := by
  simp only [append_count_eq]
  exact scripted_write (.raw 4) _

theorem Scripted.trans (hf : Scripted f) (hg : Scripted g) :
    Scripted fun w m => g (f w m).1 (f w m).2 := by
  intro w m
  obtain ⟨ops, hops, hall⟩ := hf w m
  obtain ⟨more, hmore, hall'⟩ := hg (f w m).1 (f w m).2
  refine ⟨ops ++ more, ?_, ?_⟩
  · intro op hop
    rcases List.mem_append.1 hop with hop | hop
    · exact hops op hop
    · exact hmore op hop
  · rw [performAll_append hall, hall']

end Writer

namespace Tree

mutual

theorem scripted_write : (t : Tree) → Writer.Scripted t.write
  | node v ts => by
    have h := ((Writer.scripted_write (.scalar .u8) v).trans
      (Writer.scripted_count ts.length)).trans (scripted_writeAll ts)
    intro w m
    have hw := h w m
    rw [write]
    with_reducible exact hw

theorem scripted_writeAll : (ts : List Tree) → Writer.Scripted (writeAll ts)
  | [] => by
    intro w m
    rw [writeAll]
    exact Writer.scripted_nothing w m
  | t :: ts => by
    have h := (scripted_write t).trans (scripted_writeAll ts)
    intro w m
    have hw := h w m
    rw [writeAll]
    with_reducible exact hw

end

end Tree

end Tandem
