import Tandem.Proofs.Text.Utf16
import Tandem.Bytes
import Mathlib.Data.List.Induction
import Mathlib.Tactic.IntervalCases
import Mathlib.Tactic.SplitIfs

/-!
# UTF-8

The first byte of a character says how many tails follow it and holds the topmost bits of the
character's number; a tail holds six bits more.  Bytes of this shape spell a number (`Spells`), but
not every number that can be spelled is that of a character, and a number can be spelled in more
than one way.  A character is spelled with as few tails as its number needs
(`spells_encodeChar`, `encodeChar_of_spells`), so that bytes that start with no character are
ill-formed in one of five ways (`illFormed_or_char`, `not_illFormed_char`).
-/

namespace Tandem

namespace Utf8

variable {b : UInt8} {ts bs rest : Bytes} {k x v : Nat}

/-! ### Shape -/

/-- Tails are 0x80 to 0xBF. -/
def isTail (b : UInt8) : Bool := 0x80 ≤ b && b < 0xC0

/-- The number of tails that a first byte announces and the bits that it holds itself; `none` if
the byte is not a first one. -/
def lead? (b : UInt8) : Option (Nat × Nat) :=
  if b.toNat < 0x80 then some (0, b.toNat)
  else if b.toNat < 0xC0 then none
  else if b.toNat < 0xE0 then some (1, b.toNat - 0xC0)
  else if b.toNat < 0xF0 then some (2, b.toNat - 0xE0)
  else if b.toNat < 0xF8 then some (3, b.toNat - 0xF0)
  else none

/-- The number that tails make of the bits of a first byte. -/
def spell (x : Nat) (tails : Bytes) : Nat := tails.foldl (fun n t => n * 64 + (t.toNat - 0x80)) x

/-- The bytes spell a number: a first byte and as many tails as it announces. -/
inductive Spells : Bytes → Nat → Prop
  | intro {b : UInt8} {tails : Bytes} {x : Nat} (h : lead? b = some (tails.length, x))
      (ht : ∀ t ∈ tails, isTail t = true) : Spells (b :: tails) (spell x tails)

/-- The least number that needs `k` tails. -/
def least : Nat → Nat
  | 0 => 0
  | 1 => 0x80
  | 2 => 0x800
  | _ => 0x10000

/-- The least first byte that announces `k` tails. -/
def mark : Nat → Nat
  | 0 => 0
  | 1 => 0xC0
  | 2 => 0xE0
  | _ => 0xF0

/-- The number of first bytes that announce `k` tails. -/
def span : Nat → Nat
  | 0 => 0x80
  | 1 => 0x20
  | 2 => 0x10
  | _ => 0x08

/-- The last `6 * k` bits of a number, as tails. -/
def tails : Nat → Nat → Bytes
  | 0, _ => []
  | k + 1, v => tails k (v / 64) ++ [UInt8.ofNat (v % 64 + 0x80)]

/-! ### First bytes and tails -/

theorem isTail_iff : isTail b = true ↔ 0x80 ≤ b.toNat ∧ b.toNat < 0xC0 := by
  simp only [isTail, Bool.and_eq_true, decide_eq_true_iff, UInt8.le_iff_toNat_le,
    UInt8.lt_iff_toNat_lt]
  exact Iff.rfl

theorem lead?_eq_some_iff :
    lead? b = some (k, x) ↔ k ≤ 3 ∧ x < span k ∧ b.toNat = mark k + x := by
  have hb := b.toNat_lt
  unfold lead?
  constructor
  · intro h
    split_ifs at h <;> cases h <;> simp only [span, mark] <;> omega
  · rintro ⟨hk, hx, heq⟩
    interval_cases k <;> simp only [span, mark] at hx heq
    · rw [if_pos (by omega), heq, Nat.zero_add]
    · rw [if_neg (by omega), if_neg (by omega), if_pos (by omega), heq, Nat.add_sub_cancel_left]
    · rw [if_neg (by omega), if_neg (by omega), if_neg (by omega), if_pos (by omega), heq,
        Nat.add_sub_cancel_left]
    · rw [if_neg (by omega), if_neg (by omega), if_neg (by omega), if_neg (by omega),
        if_pos (by omega), heq, Nat.add_sub_cancel_left]

theorem length_tails (k v : Nat) : (tails k v).length = k := by
  induction k generalizing v with
  | zero => rfl
  | succ k ih => rw [tails, List.length_append, ih, List.length_singleton]

theorem toNat_tail (v : Nat) : (UInt8.ofNat (v % 64 + 0x80)).toNat = v % 64 + 0x80 := by
  rw [UInt8.toNat_ofNat']
  omega

theorem isTail_of_mem_tails {t : UInt8} (h : t ∈ tails k v) : isTail t = true := by
  induction k generalizing v with
  | zero => cases h
  | succ k ih =>
    rcases List.mem_append.1 h with h | h
    · exact ih h
    · rw [List.mem_singleton.1 h, isTail_iff, toNat_tail]
      omega

theorem spell_append_singleton (x : Nat) (ts : Bytes) (t : UInt8) :
    spell x (ts ++ [t]) = spell x ts * 64 + (t.toNat - 0x80) := by
  simp only [spell, List.foldl_append, List.foldl_cons, List.foldl_nil]

theorem spell_tails (k v : Nat) : spell (v / 64 ^ k) (tails k v) = v := by
  induction k generalizing v with
  | zero => exact Nat.div_one v
  | succ k ih =>
    rw [tails, spell_append_singleton, Nat.pow_succ', ← Nat.div_div_eq_div_mul, ih, toNat_tail]
    omega

theorem tails_spell (h : ∀ t ∈ ts, isTail t = true) (x : Nat) :
    tails ts.length (spell x ts) = ts ∧ spell x ts / 64 ^ ts.length = x := by
  induction ts using List.reverseRecOn with
  | nil => exact ⟨rfl, Nat.div_one x⟩
  | append_singleton ts t ih =>
    obtain ⟨hts, hx⟩ := ih fun u hu => h u (List.mem_append_left _ hu)
    have ht := isTail_iff.1 (h t (List.mem_append_right _ (List.mem_singleton_self t)))
    have hdiv : (spell x ts * 64 + (t.toNat - 0x80)) / 64 = spell x ts := by omega
    have hmod : (spell x ts * 64 + (t.toNat - 0x80)) % 64 + 0x80 = t.toNat := by omega
    rw [spell_append_singleton, List.length_append, List.length_singleton, tails, hdiv, hmod, hts,
      Nat.pow_succ', ← Nat.div_div_eq_div_mul, hdiv, UInt8.ofNat_toNat]
    exact ⟨rfl, hx⟩

/-! ### Spelling characters -/

/-- A number that is spelled with `k` tails and no fewer. -/
def Suits (k v : Nat) : Prop := k ≤ 3 ∧ least k ≤ v ∧ v / 64 ^ k < span k

theorem Suits.unique {k' : Nat} (h : Suits k v) (h' : Suits k' v) : k = k' := by
  obtain ⟨hk, hl, hs⟩ := h
  obtain ⟨hk', hl', hs'⟩ := h'
  interval_cases k <;> interval_cases k' <;> simp only [least, span] at * <;> omega

theorem encodeChar_eq (c : Char) : ∃ k, Suits k c.toNat ∧
    String.utf8EncodeChar c = UInt8.ofNat (mark k + c.toNat / 64 ^ k) :: tails k c.toNat := by
  have hc : c.toNat < 0x110000 := by
    have := Utf16.toNat_bounds c
    omega
  unfold String.utf8EncodeChar
  rw [show c.val.toNat = c.toNat from rfl]
  generalize c.toNat = v at hc
  dsimp only
  split_ifs with h1 h2 h3
  · refine ⟨0, ⟨by omega, by simp only [least]; omega, by simp only [span]; omega⟩, ?_⟩
    rw [mark, Nat.zero_add, Nat.pow_zero, Nat.div_one, tails]
  · refine ⟨1, ⟨by omega, by simp only [least]; omega, by simp only [span]; omega⟩, ?_⟩
    have hlead : v / 64 % 0x20 + 0xc0 = mark 1 + v / 64 ^ 1 := by simp only [mark]; omega
    simp only [hlead, tails, List.nil_append]
  · refine ⟨2, ⟨by omega, by simp only [least]; omega, by simp only [span]; omega⟩, ?_⟩
    have hlead : v / 4096 % 0x10 + 0xe0 = mark 2 + v / 64 ^ 2 := by simp only [mark]; omega
    simp only [hlead, tails, List.nil_append, List.cons_append]
  · refine ⟨3, ⟨by omega, by simp only [least]; omega, by simp only [span]; omega⟩, ?_⟩
    have hlead : v / 262144 % 0x08 + 0xf0 = mark 3 + v / 64 ^ 3 := by simp only [mark]; omega
    have htwo : v / 64 / 64 = v / 4096 := by omega
    simp only [hlead, htwo, tails, List.nil_append, List.cons_append]

/-- **A character is spelled** with no more tails than it needs. -/
theorem spells_encodeChar (c : Char) : Spells (String.utf8EncodeChar c) c.toNat ∧
    least ((String.utf8EncodeChar c).length - 1) ≤ c.toNat := by
  obtain ⟨k, ⟨hk, hl, hx⟩, heq⟩ := encodeChar_eq c
  have hbyte : mark k + c.toNat / 64 ^ k < 256 := by
    interval_cases k <;> simp only [span, mark] at hx ⊢ <;> omega
  have hlead : lead? (UInt8.ofNat (mark k + c.toNat / 64 ^ k)) =
      some ((tails k c.toNat).length, c.toNat / 64 ^ k) := by
    rw [lead?_eq_some_iff, length_tails]
    exact ⟨hk, hx, UInt8.toNat_ofNat_of_lt' hbyte⟩
  have hspells := Spells.intro hlead fun t ht => isTail_of_mem_tails ht
  rw [spell_tails] at hspells
  rw [heq, List.length_cons, length_tails]
  exact ⟨hspells, hl⟩

/-- **What spells a character** with no more tails than it needs is its encoding. -/
theorem encodeChar_of_spells (h : Spells bs v) (hl : least (bs.length - 1) ≤ v)
    (hv : v < 0xD800 ∨ 0xDFFF < v ∧ v < 0x110000) : String.utf8EncodeChar (Char.ofNat v) = bs := by
  obtain ⟨k', hs', heq⟩ := encodeChar_eq (Char.ofNat v)
  rw [Utf16.toNat_ofNat hv] at hs' heq
  obtain @⟨b, ts, x, hlead, htails⟩ := h
  obtain ⟨hk, hx, hb⟩ := lead?_eq_some_iff.1 hlead
  obtain ⟨hts, hdiv⟩ := tails_spell htails x
  have hs : Suits ts.length (spell x ts) := ⟨hk, hl, hdiv.symm ▸ hx⟩
  obtain rfl := hs'.unique hs
  rw [heq, hts, hdiv, ← hb, UInt8.ofNat_toNat]

/-- Only one number can be spelled by the first of some bytes. -/
theorem Spells.unique {bs' r r' : Bytes} {v' : Nat} (h : Spells bs v) (h' : Spells bs' v')
    (heq : bs ++ r = bs' ++ r') : bs = bs' ∧ v = v' ∧ r = r' := by
  obtain @⟨b, ts, x, hlead, htails⟩ := h
  obtain @⟨b', ts', x', hlead', htails'⟩ := h'
  rw [List.cons_append, List.cons_append] at heq
  obtain ⟨rfl, hrest⟩ := List.cons.inj heq
  rw [hlead] at hlead'
  obtain ⟨hlen, rfl⟩ := Prod.mk.inj (Option.some.inj hlead')
  obtain ⟨rfl, rfl⟩ := List.append_inj hrest hlen
  exact ⟨rfl, rfl, rfl⟩

/-- Nothing starts with two characters. -/
theorem encodeChar_append_inj {c c' : Char} {r r' : Bytes}
    (h : String.utf8EncodeChar c ++ r = String.utf8EncodeChar c' ++ r') : c = c' ∧ r = r' := by
  obtain ⟨-, hv, hr⟩ := (spells_encodeChar c).1.unique (spells_encodeChar c').1 h
  exact ⟨Char.toNat_inj.1 hv, hr⟩

/-! ### Ill-formed bytes -/

/-- What is wrong with bytes that do not start with a character. -/
inductive IllFormed : Bytes → Prop
  /-- a tail, or a byte that announces more than three tails -/
  | lead {b : UInt8} {rest : Bytes} (h : lead? b = none) : IllFormed (b :: rest)
  /-- fewer tails than announced -/
  | truncated {b : UInt8} {rest : Bytes} {k x : Nat} (h : lead? b = some (k, x))
      (hrest : ¬ ∃ ts more, rest = ts ++ more ∧ ts.length = k ∧ ∀ t ∈ ts, isTail t = true) :
      IllFormed (b :: rest)
  /-- more tails than needed -/
  | overlong {bs rest : Bytes} {v : Nat} (h : Spells bs v) (hv : v < least (bs.length - 1)) :
      IllFormed (bs ++ rest)
  | surrogate {bs rest : Bytes} {v : Nat} (h : Spells bs v) (hl : 0xD800 ≤ v) (hh : v ≤ 0xDFFF) :
      IllFormed (bs ++ rest)
  | tooLarge {bs rest : Bytes} {v : Nat} (h : Spells bs v) (hv : 0x10FFFF < v) :
      IllFormed (bs ++ rest)

/-- **Bytes that start with no character** are ill-formed. -/
theorem illFormed_or_char (h : bs ≠ []) :
    IllFormed bs ∨ ∃ c rest, bs = String.utf8EncodeChar c ++ rest := by
  obtain ⟨b, rest, rfl⟩ := List.exists_cons_of_ne_nil h
  cases hlead : lead? b with
  | none => exact .inl (.lead hlead)
  | some p =>
    obtain ⟨k, x⟩ := p
    by_cases hrest : ∃ ts more, rest = ts ++ more ∧ ts.length = k ∧ ∀ t ∈ ts, isTail t = true
    · obtain ⟨ts, more, rfl, rfl, htails⟩ := hrest
      have hs : Spells (b :: ts) (spell x ts) := .intro hlead htails
      by_cases hl : spell x ts < least ts.length
      · exact .inl (.overlong hs hl)
      by_cases hsur : 0xD800 ≤ spell x ts ∧ spell x ts ≤ 0xDFFF
      · exact .inl (.surrogate hs hsur.1 hsur.2)
      by_cases hbig : 0x10FFFF < spell x ts
      · exact .inl (.tooLarge hs hbig)
      refine .inr ⟨Char.ofNat (spell x ts), more, ?_⟩
      rw [encodeChar_of_spells hs (Nat.not_lt.1 hl) (by omega), List.cons_append]
    · exact .inl (.truncated hlead hrest)

theorem not_illFormed_char (c : Char) (rest : Bytes) :
    ¬ IllFormed (String.utf8EncodeChar c ++ rest) := by
  obtain ⟨hs, hl⟩ := spells_encodeChar c
  have hc := Utf16.toNat_bounds c
  intro h
  generalize hbs : String.utf8EncodeChar c ++ rest = bs at h
  generalize String.utf8EncodeChar c = cs, c.toNat = v at hs hl hc hbs
  cases h with
  | lead hlead =>
    obtain ⟨hlead', -⟩ := hs
    obtain ⟨rfl, -⟩ := List.cons.inj hbs
    rw [hlead] at hlead'
    cases hlead'
  | truncated hlead hrest =>
    obtain ⟨hlead', htails⟩ := hs
    obtain ⟨rfl, rfl⟩ := List.cons.inj hbs
    rw [hlead] at hlead'
    obtain ⟨rfl, rfl⟩ := Prod.mk.inj (Option.some.inj hlead')
    exact hrest ⟨_, _, rfl, rfl, htails⟩
  | overlong hs' hv =>
    obtain ⟨rfl, rfl, -⟩ := hs.unique hs' hbs
    omega
  | surrogate hs' hl hh =>
    obtain ⟨-, rfl, -⟩ := hs.unique hs' hbs
    omega
  | tooLarge hs' hv =>
    obtain ⟨-, rfl, -⟩ := hs.unique hs' hbs
    omega

end Utf8

end Tandem
