/-!
# Finite tables

A table maps finitely many keys to values.  It is an association list whose keys are pairwise
distinct, newest entry first; the order is never looked at.  Later modules use the lookup laws
`get?_set`, `get?_erase` and `mem_keys_iff`, and `entries_perm` for what one key adds to a table.
-/

namespace Tandem

universe u v

/-- A finite map with decidable keys. -/
structure Table (κ : Type u) (α : Type v) where
  /-- the entries, each key once -/
  entries : List (κ × α)
  nodup_keys : (entries.map Prod.fst).Nodup

namespace Table

variable {κ : Type u} {α : Type v}

/-- The keys that have an entry. -/
def keys (t : Table κ α) : List κ := t.entries.map Prod.fst

/-- The values of all entries. -/
def values (t : Table κ α) : List α := t.entries.map Prod.snd

/-- The number of entries. -/
def size (t : Table κ α) : Nat := t.entries.length

/-- The table without entries. -/
def empty : Table κ α := ⟨[], List.nodup_nil⟩

instance : Inhabited (Table κ α) := ⟨empty⟩

variable [DecidableEq κ]

/-- The value stored under `k`, if there is one. -/
def get? (t : Table κ α) (k : κ) : Option α :=
  (t.entries.find? (fun e => e.1 = k)).map Prod.snd

/-- Removes the entry of `k`, if there is one. -/
def erase (t : Table κ α) (k : κ) : Table κ α where
  entries := t.entries.filter (fun e => e.1 ≠ k)
  nodup_keys := (List.Sublist.map Prod.fst List.filter_sublist).nodup t.nodup_keys

/-- Stores `a` under `k`, in place of what was there. -/
def set (t : Table κ α) (k : κ) (a : α) : Table κ α where
  entries := (k, a) :: (t.erase k).entries
  nodup_keys := by
    refine List.nodup_cons.2 ⟨?_, (t.erase k).nodup_keys⟩
    simp [erase]

/-- Whether `k` has an entry. -/
def contains (t : Table κ α) (k : κ) : Bool := (t.get? k).isSome

/-! ### Lookup laws -/

@[simp] theorem get?_empty (k : κ) : (empty : Table κ α).get? k = none := rfl

theorem get?_set_self (t : Table κ α) (k : κ) (a : α) : (t.set k a).get? k = some a := by
  simp [get?, set]

theorem get?_erase_self (t : Table κ α) (k : κ) : (t.erase k).get? k = none := by
  simp [get?, erase]

theorem get?_erase_of_ne (t : Table κ α) {k l : κ} (h : l ≠ k) :
    (t.erase k).get? l = t.get? l := by
  have hp : ∀ e : κ × α, (e.1 ≠ k ∧ e.1 = l) ↔ e.1 = l :=
    fun e => ⟨And.right, fun hl => ⟨hl ▸ h, hl⟩⟩
  simp [get?, erase, List.find?_filter, hp]

theorem get?_set_of_ne (t : Table κ α) {k l : κ} (a : α) (h : l ≠ k) :
    (t.set k a).get? l = t.get? l := by
  have h' : ¬ k = l := fun e => h e.symm
  rw [← get?_erase_of_ne t h]
  simp [get?, set, h']

/-- **Storing** changes the lookup of one key. -/
theorem get?_set (t : Table κ α) (k l : κ) (a : α) :
    (t.set k a).get? l = if l = k then some a else t.get? l := by
  split
  · next h => subst h; exact get?_set_self t l a
  · next h => exact get?_set_of_ne t a h

/-- **Erasing** makes the lookup of one key fail. -/
theorem get?_erase (t : Table κ α) (k l : κ) :
    (t.erase k).get? l = if l = k then none else t.get? l := by
  split
  · next h => subst h; exact get?_erase_self t l
  · next h => exact get?_erase_of_ne t h

theorem get?_eq_some_iff_mem (t : Table κ α) (k : κ) (a : α) :
    t.get? k = some a ↔ (k, a) ∈ t.entries := by
  obtain ⟨es, hn⟩ := t
  simp only [get?]
  induction es with
  | nil => simp
  | cons e es ih =>
    obtain ⟨l, b⟩ := e
    simp only [List.map_cons, List.nodup_cons] at hn
    by_cases h : l = k
    · subst h
      have : ∀ c, (l, c) ∉ es := fun c hc => hn.1 (List.mem_map.2 ⟨_, hc, rfl⟩)
      simp [this, eq_comm]
    · have hne : ¬ k = l := fun e => h e.symm
      simp [h, hne, ih hn.2]

theorem mem_keys_iff (t : Table κ α) (k : κ) : k ∈ t.keys ↔ ∃ a, t.get? k = some a := by
  simp [keys, get?_eq_some_iff_mem]

theorem contains_iff (t : Table κ α) (k : κ) : t.contains k = true ↔ k ∈ t.keys := by
  rw [mem_keys_iff, contains, Option.isSome_iff_exists]

/-! ### Values -/

theorem mem_values_iff (t : Table κ α) (a : α) : a ∈ t.values ↔ ∃ k, t.get? k = some a := by
  simp [values, get?_eq_some_iff_mem]

/-- Erasing a key without an entry changes nothing. -/
theorem erase_of_get?_none {t : Table κ α} {k : κ} (h : t.get? k = none) : t.erase k = t := by
  have hne : ∀ e ∈ t.entries, e.1 ≠ k := fun e he hk => by
    subst hk
    rw [(get?_eq_some_iff_mem t e.1 e.2).2 he] at h
    cases h
  obtain ⟨es, hn⟩ := t
  simp only [erase, mk.injEq]
  exact List.filter_eq_self.2 fun e he => by simpa using hne e he

/-- What is stored under a key is gone when the key is erased. -/
theorem erase_set (t : Table κ α) (k : κ) (a : α) : (t.set k a).erase k = t.erase k := by
  simp only [erase, set, ne_eq, decide_not, List.filter_cons, decide_true, Bool.not_true,
    Bool.false_eq_true, if_false, List.filter_filter, Bool.and_self]

/-- An entry stands beside those that are left when its key is erased. -/
theorem entries_perm {t : Table κ α} {k : κ} {a : α} (h : t.get? k = some a) :
    t.entries.Perm ((k, a) :: (t.erase k).entries) := by
  obtain ⟨es, hn⟩ := t
  simp only [erase]
  simp only [get?] at h
  induction es with
  | nil => simp at h
  | cons e es ih =>
    simp only [List.map_cons, List.nodup_cons] at hn
    by_cases hk : e.1 = k
    · have hne : ∀ x ∈ es, x.1 ≠ k := fun x hx hxk =>
        hn.1 (List.mem_map.2 ⟨x, hx, hxk.trans hk.symm⟩)
      have hfilter : es.filter (fun e => decide (e.1 ≠ k)) = es :=
        List.filter_eq_self.2 fun x hx => by simpa using hne x hx
      obtain rfl : e = (k, a) := Prod.ext hk (by simpa [hk] using h)
      rw [List.filter_cons_of_neg (by simp), hfilter]
    · rw [List.filter_cons_of_pos (by simp [hk])]
      refine (List.Perm.cons e (ih hn.2 ?_)).trans (.swap _ _ _)
      simpa [hk] using h

/-- The value of a key stands beside those that are left when the key is erased. -/
theorem values_perm {t : Table κ α} {k : κ} {a : α} (h : t.get? k = some a) :
    t.values.Perm (a :: (t.erase k).values) := (entries_perm h).map Prod.snd

end Table

end Tandem
