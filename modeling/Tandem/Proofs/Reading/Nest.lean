import Tandem.Proofs.Reading.Inverse

/-!
# Types that hold arrays of themselves

A `Nest` is a value with an array of nests below it, to any depth.  If reading undoes writing for
every value in it, then it does so for the nest (`Nest.roundTrips`), by recursion on it.  A nest of
`n` values takes at least `n` bytes, because each of them has a count behind it; this is why a read
that goes no deeper than there are bytes goes deep enough.
-/

namespace Tandem

open Read (Undoes UndoesEach)

/-- A value of an application type with nests below it. -/
inductive Nest (α : Type) where
  | node (value : α) (below : List (Nest α))

namespace Nest

variable {α : Type}

section Coding

variable [Serializable α]

mutual

/-- Writes the value, then the nests below it as an array. -/
def write : Nest α → Writer → Memory → Writer × Memory
  | node a ts, w, m =>
    let (w, m) := w.writeRecord a m
    let (w, m) := w.append (Kind.count ts.length) m
    writeAll ts w m

/-- Writes nests one after the other. -/
def writeAll : List (Nest α) → Writer → Memory → Writer × Memory
  | [], w, m => (w, m)
  | t :: ts, w, m =>
    let (w, m) := t.write w m
    writeAll ts w m

end

/-- Reads a nest of at most the given depth. -/
def readUpTo : Nat → Read (Nest α)
  | 0 => .fail (.endOfData 1 0)
  | depth + 1 => do
    let a ← Read.record α
    let ts ← Read.arrayOf (readUpTo depth)
    pure (node a ts)

/-- Reads a nest.  Every level takes a byte of the data, so there is no need to go deeper than there
are bytes. -/
def read : Read (Nest α) := ⟨fun c => (readUpTo (c.rest.length + 1)).run c⟩

instance : Serializable (Nest α) where
  serialize := write
  deserialize := read

end Coding

mutual

/-- The number of values. -/
def size : Nest α → Nat
  | node _ ts => sizeAll ts + 1

def sizeAll : List (Nest α) → Nat
  | [] => 0
  | t :: ts => t.size + sizeAll ts

end

mutual

/-- Reading undoes writing for every value, and no array is too long for its count. -/
inductive Carries [Serializable α] : Encoding → Nest α → Encoding → Prop
  | node {e e₁ e₂ : Encoding} {a : α} {ts : List (Nest α)} (h : Serializable.RoundTrips e a e₁)
      (hn : ts.length ≤ Kind.maxCount) (hs : CarriesAll e₁ ts e₂) : Carries e (.node a ts) e₂

inductive CarriesAll [Serializable α] : Encoding → List (Nest α) → Encoding → Prop
  | nil (e : Encoding) : CarriesAll e [] e
  | cons {e e₁ e₂ : Encoding} {t : Nest α} {ts : List (Nest α)} (h : Carries e t e₁)
      (hs : CarriesAll e₁ ts e₂) : CarriesAll e (t :: ts) e₂

end

variable [Serializable α]

theorem each_write (ts : List (Nest α)) (w : Writer) (m : Memory) :
    Writer.each write ts w m = writeAll ts w m := by
  induction ts generalizing w m with
  | nil =>
    rw [Writer.each, writeAll]
  | cons t ts ih =>
    rw [Writer.each, writeAll]
    exact ih _ _

mutual

theorem undoes_write (t : Nest α) {depth : Nat} {e e' : Encoding} (hd : t.size ≤ depth)
    (h : t.Carries e e') : (readUpTo depth).Undoes t.write t.size e t e' := by
  match t, depth, h with
  | .node a ts, depth + 1, .node ha hn hs =>
    rw [size] at hd ⊢
    have hbelow := (undoesEach_write ts (Nat.le_of_succ_le_succ hd) hs).arrayOf hn
    have hvalue := Serializable.undoes_writeRecord ha
    have hnode := hvalue.bind
      (q := fun a => Read.arrayOf (readUpTo depth) >>= fun ts => pure (node a ts))
      (hbelow.bind_pure rfl)
    rw [Nat.zero_add] at hnode
    refine Read.Undoes.congr hnode ?_
    intro w m
    rw [write, each_write]

theorem undoesEach_write (ts : List (Nest α)) {depth : Nat} {e e' : Encoding}
    (hd : sizeAll ts ≤ depth) (h : CarriesAll e ts e') :
    UndoesEach (readUpTo depth) write (sizeAll ts) e ts e' := by
  match ts, h with
  | [], .nil e =>
    rw [sizeAll]
    exact .nil e
  | t :: ts, .cons ht hs =>
    rw [sizeAll] at hd ⊢
    have h₁ := undoes_write t (Nat.le_trans (Nat.le_add_right _ _) hd) ht
    have h₂ := undoesEach_write ts (Nat.le_trans (Nat.le_add_left _ _) hd) hs
    exact .cons h₁ h₂

end

/-- **Reading undoes writing for a nest** if it does so for every value in it. -/
theorem roundTrips {t : Nest α} {e e' : Encoding} (h : t.Carries e e') :
    Serializable.RoundTrips e t e' :=
  (Read.undoes_ofDepth fun _ hd => undoes_write t hd h).mono (Nat.zero_le _)

end Nest

end Tandem
