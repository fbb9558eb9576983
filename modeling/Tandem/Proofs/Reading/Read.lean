import Tandem.Serializable
import Tandem.Proofs.Scalar
import Tandem.Proofs.Text.Encoding

/-!
# What a read takes off the front

`Read.Yields` says that a read takes the given bytes and gives the given value, whatever lies behind
them.  It is closed under doing one read after the other.  A count looks further ahead than it
takes:  what it announces must be there too, which is why it is only described together with the
read of what it counts (`yields_count`).  Each kind of value yields what was encoded
(`Kind.yields_encode`).
-/

namespace Tandem

namespace Read

/-- In front of anything, `r` takes `bs` and gives `a`; strings were read as `e` says and are read
as `e'` says from then on. -/
def Yields {α : Type} (r : Read α) (e : Encoding) (bs : Bytes) (a : α) (e' : Encoding) : Prop :=
  ∀ rest, r.run ⟨bs ++ rest, e⟩ = (.ok a, ⟨rest, e'⟩)

/-- The same of reads one after the other. -/
inductive YieldsEach {α : Type} (r : Read α) : Encoding → Bytes → List α → Encoding → Prop
  | nil (e : Encoding) : YieldsEach r e [] [] e
  | cons {e e₁ e₂ : Encoding} {bs more : Bytes} {a : α} {as : List α} (h : r.Yields e bs a e₁)
      (hs : YieldsEach r e₁ more as e₂) : YieldsEach r e (bs ++ more) (a :: as) e₂

variable {α β : Type} {r : Read α} {f : α → Read β} {e e₁ e₂ : Encoding} {bs more : Bytes} {a : α}
  {as : List α} {b : β} {n : Nat}

/-! ### One read after the other -/

theorem yields_pure (a : α) (e : Encoding) : (pure a : Read α).Yields e [] a e := fun _ => rfl

theorem Yields.bind (hr : r.Yields e bs a e₁) (hf : (f a).Yields e₁ more b e₂) :
    (r >>= f).Yields e (bs ++ more) b e₂ := by
  intro rest
  show (andThen r f).run _ = _
  rw [andThen, List.append_assoc]
  simp only [hr (more ++ rest), hf rest]

theorem Yields.bind_pure (hr : r.Yields e bs a e₁) (hf : f a = pure b) :
    (r >>= f).Yields e bs b e₁ := by
  have hp : (f a).Yields e₁ [] b e₁ := by
    rw [hf]
    exact yields_pure b e₁
  have h := hr.bind hp
  rwa [List.append_nil] at h

theorem Yields.atomic (hr : r.Yields e bs a e₁) : r.atomic.Yields e bs a e₁ := by
  intro rest
  rw [Read.atomic]
  simp only [hr rest]

theorem timesOnto_eq (h : YieldsEach r e bs as e₁) (acc : List α) (rest : Bytes) :
    timesOnto r as.length acc ⟨bs ++ rest, e⟩ = (.ok (acc.reverse ++ as), ⟨rest, e₁⟩) := by
  induction h generalizing acc with
  | nil e => rw [List.length_nil, timesOnto, List.append_nil, List.nil_append]
  | @cons e e₁ e₂ bs more a as h _ ih =>
    rw [List.length_cons, timesOnto, List.append_assoc, h (more ++ rest)]
    simp only [ih, List.reverse_cons, List.append_assoc, List.singleton_append]

theorem YieldsEach.times (h : YieldsEach r e bs as e₁) :
    (times as.length r).Yields e bs as e₁ := by
  intro rest
  exact timesOnto_eq h [] rest

/-! ### Bytes and counts -/

theorem yields_encoding (e : Encoding) : encoding.Yields e [] e e := fun _ => rfl

theorem yields_take (h : bs.length = n) (e : Encoding) : (take n).Yields e bs bs e := by
  intro rest
  have hlacks : ¬ (bs ++ rest).lacks n = true := by
    rw [Bytes.lacks_iff, List.length_append]
    omega
  simp only [take]
  rw [if_neg hlacks, List.take_left' h, List.drop_left' h]

theorem toInt_decode_count (h : n ≤ Kind.maxCount) :
    (Scalar.decode .i32 (Kind.count n)).toInt = n := by
  have hn : n < 0x80000000 := Nat.lt_succ_of_le h
  have hmod : Bytes.ofBigEndian (Kind.count n) = n := by
    rw [Kind.count, Bytes.ofBigEndian_bigEndian]
    exact Nat.mod_eq_of_lt (by omega)
  rw [Scalar.decode, hmod]
  have hnat : (BitVec.ofNat 32 n).toNat = n := by
    rw [BitVec.toNat_ofNat]
    exact Nat.mod_eq_of_lt (by omega)
  show (BitVec.ofNat 32 n).toInt = n
  rw [BitVec.toInt_eq_toNat_of_lt (by omega), hnat]

theorem run_count {s : Nat → Nat} {rest : Bytes} (hn : n ≤ Kind.maxCount) (hs : s n ≤ rest.length)
    (e : Encoding) : (count s).run ⟨Kind.count n ++ rest, e⟩ = (.ok n, ⟨rest, e⟩) := by
  have h4 : (Kind.count n).length = 4 := Bytes.length_bigEndian 4 n
  have hfour : ¬ (Kind.count n ++ rest).lacks 4 = true := by
    rw [Bytes.lacks_iff, List.length_append]
    omega
  have hsize : ¬ rest.lacks (s n) = true := by
    rw [Bytes.lacks_iff]
    omega
  have hpos : ¬ (n : Int) < 0 := by omega
  simp only [count]
  rw [if_neg hfour, List.take_left' h4, toInt_decode_count hn, List.drop_left' h4, if_neg hpos,
    Int.toNat_natCast, if_neg hsize]

/-- **A count** and what it counts, which takes no fewer bytes than the count announces. -/
theorem yields_count {s : Nat → Nat} {f : Nat → Read β} (hn : n ≤ Kind.maxCount)
    (hs : s n ≤ bs.length) (hf : (f n).Yields e bs b e₁) :
    (count s >>= f).Yields e (Kind.count n ++ bs) b e₁ := by
  intro rest
  have hsize : s n ≤ (bs ++ rest).length := by
    rw [List.length_append]
    omega
  show (andThen (count s) f).run _ = _
  rw [andThen, List.append_assoc]
  simp only [run_count hn hsize e, hf rest]

/-! ### Values -/

theorem yields_scalar {k : ScalarKind} (x : Scalar k) (e : Encoding) :
    (scalar k).Yields e (Scalar.encode x) x e := by
  refine (yields_take (Scalar.length_encode x) e).bind_pure ?_
  rw [Scalar.decode_encode]

theorem yields_bool (b : Bool) (e : Encoding) :
    Read.bool.Yields e [if b then 1 else 0] b e := by
  cases b with
  | false => exact (yields_scalar (0 : Scalar .u8) e).bind_pure rfl
  | true => exact (yields_scalar (1 : Scalar .u8) e).bind_pure rfl

theorem yields_strIn (e' : Encoding) {s : String} (h : e'.byteCount s ≤ Kind.maxCount)
    (e : Encoding) : (strIn e').Yields e (Kind.text e' s) s e := by
  have hlen := Encoding.length_encode e' s
  refine (yields_count (by rw [hlen]; exact h) (Nat.le_refl _) ?_).atomic
  refine (yields_take rfl e).bind_pure ?_
  rw [Encoding.decode?_encode]

theorem yields_str {s : String} (h : e.byteCount s ≤ Kind.maxCount) :
    str.Yields e (Kind.text e s) s e :=
  (yields_encoding e).bind (yields_strIn e h e)

theorem yields_char (c : Char) (e : Encoding) :
    char.Yields e (Kind.text e (String.singleton c)) c e := by
  have h4 : e.byteCount (String.singleton c) ≤ Kind.maxCount :=
    Nat.le_trans (Encoding.byteCount_singleton_le e c) (by decide)
  refine ((yields_str h4).bind_pure ?_).atomic
  rw [String.toList_singleton]

theorem yields_chars {cs : List Char} (h : e.byteCount (String.ofList cs) ≤ Kind.maxCount) :
    chars.Yields e (Kind.text e (String.ofList cs)) cs e := by
  refine (yields_str h).bind_pure ?_
  rw [String.toList_ofList]

theorem yields_bytes (h : bs.length ≤ Kind.maxCount) (e : Encoding) :
    bytes.Yields e (Kind.count bs.length ++ bs) bs e :=
  yields_count h (Nat.le_refl _) (yields_take rfl e)

theorem yields_rawOf (v : { bs : Bytes // bs.length = n }) (e : Encoding) :
    (rawOf n).Yields e v.1 v e := by
  exact (yields_take v.2 e).bind_pure (dif_pos v.2)

theorem yields_bools {bits : List Bool} (h : bits.length ≤ Kind.maxCount) (e : Encoding) :
    bools.Yields e (Kind.count bits.length ++ Bytes.packBits bits) bits e := by
  have hlen := Bytes.length_packBits bits
  refine yields_count h (Nat.le_of_eq hlen.symm) ((yields_take hlen e).bind_pure ?_)
  rw [Bytes.unpackBits_packBits]

theorem yields_scalars {k : ScalarKind} {xs : List (Scalar k)} (h : xs.length ≤ Kind.maxCount)
    (e : Encoding) :
    (scalars k).Yields e (Kind.count xs.length ++ xs.flatMap Scalar.encode) xs e := by
  have hlen := Scalar.length_flatMap_encode xs
  refine yields_count h (Nat.le_of_eq hlen.symm) ((yields_take hlen e).bind_pure ?_)
  rw [Scalar.decodeMany_flatMap]

/-- Each string has at least its count, so that there are never fewer bytes than are looked for. -/
theorem yieldsEach_str {ss : List String} (h : ∀ s ∈ ss, e.byteCount s ≤ Kind.maxCount) :
    YieldsEach str e (ss.map (Kind.text e)).flatten ss e ∧
      ss.length * 4 ≤ (ss.map (Kind.text e)).flatten.length := by
  induction ss with
  | nil => exact ⟨.nil e, Nat.le_refl 0⟩
  | cons s ss ih =>
    obtain ⟨hy, hl⟩ := ih fun s hs => h s (List.mem_cons_of_mem _ hs)
    refine ⟨.cons (yields_str (h s List.mem_cons_self)) hy, ?_⟩
    have h4 : (Kind.text e s).length = 4 + (e.encode s).length := by
      rw [Kind.text, List.length_append, Kind.count, Bytes.length_bigEndian]
    rw [List.map_cons, List.flatten_cons, List.length_append, List.length_cons]
    omega

theorem yields_strs {ss : List String} (hn : ss.length ≤ Kind.maxCount)
    (h : ∀ s ∈ ss, e.byteCount s ≤ Kind.maxCount) :
    strs.Yields e (Kind.count ss.length ++ (ss.map (Kind.text e)).flatten) ss e := by
  obtain ⟨hy, hl⟩ := yieldsEach_str h
  have hcount := yields_count (s := fun n => n * 4) (f := fun n => times n str) hn hl hy.times
  exact hcount.atomic

end Read

/-- **A value of any kind** is what a read of its kind makes of its encoding. -/
theorem Kind.yields_encode {e : Encoding} {k : Kind} {v : k.Value} (h : k.Fits e v) :
    k.read.Yields e (k.encode e v) v e := by
  unfold Kind.encode
  cases k with
  | strs =>
    rw [Kind.layout, List.flatten_cons]
    exact Read.yields_strs h.1 h.2
  | bool =>
    rw [Kind.layout, List.flatten_singleton]
    exact Read.yields_bool v e
  | scalar k =>
    rw [Kind.layout, List.flatten_singleton]
    exact Read.yields_scalar v e
  | char =>
    rw [Kind.layout, List.flatten_singleton]
    exact Read.yields_char v e
  | str =>
    rw [Kind.layout, List.flatten_singleton]
    exact Read.yields_str h
  | strIn e' =>
    rw [Kind.layout, List.flatten_singleton]
    exact Read.yields_strIn e' h e
  | chars =>
    rw [Kind.layout, List.flatten_singleton]
    exact Read.yields_chars h
  | bytes =>
    rw [Kind.layout, List.flatten_singleton]
    exact Read.yields_bytes h e
  | raw n =>
    rw [Kind.layout, List.flatten_singleton]
    exact Read.yields_rawOf v e
  | bools =>
    rw [Kind.layout, List.flatten_singleton]
    exact Read.yields_bools h e
  | scalars k =>
    rw [Kind.layout, List.flatten_singleton]
    exact Read.yields_scalars h e

end Tandem
