import Tandem.Proofs.Bytes
import Tandem.Proofs.Reading.Failure
import Tandem.Proofs.Reading.Walk

/-!
# Reads stay within the byte string

`Walk.Follows` says that a walk from a position within the byte string arrives, without leaving it,
where a read of what lies behind the position arrives, and with the same result.  It is closed under
doing one walk after the other and under going back after failures.  The walks of readers follow the
reads of the same name (`Kind.follows_walk`).  What they take without looking was announced by a
count, and a count makes sure that it is there (`Walk.followsAt_count_bind`).
-/

namespace Tandem

namespace Page

/-- What lies behind the position. -/
def cursor (p : Page) : Cursor := ⟨p.content.drop p.position, p.encoding⟩

/-- The position is not behind the end. -/
def Within (p : Page) : Prop := p.position ≤ p.content.length

/-- `p'` is the page of `p` at another position within it, from which `c` is left. -/
structure Reaches (p : Page) (c : Cursor) (p' : Page) : Prop where
  content_eq : p'.content = p.content
  within : p'.Within
  cursor_eq : p'.cursor = c

variable {p p' p'' : Page} {c c' : Cursor} {n : Nat}

theorem length_rest (p : Page) : p.cursor.rest.length = p.content.length - p.position :=
  List.length_drop

theorem Within.reaches (h : p.Within) : p.Reaches p.cursor p := ⟨rfl, h, rfl⟩

theorem Reaches.trans (h : p.Reaches c p') (h' : p'.Reaches c' p'') : p.Reaches c' p'' :=
  ⟨h'.content_eq.trans h.content_eq, h'.within, h'.cursor_eq⟩

theorem Reaches.position_eq (h : p.Reaches c p') :
    p'.position = p.content.length - c.rest.length := by
  have hlen := length_rest p'
  have hw := h.within
  rw [h.cursor_eq, h.content_eq] at hlen
  rw [Within, h.content_eq] at hw
  omega

theorem reaches_add (h : p.position + n ≤ p.content.length) :
    p.Reaches { p.cursor with rest := p.cursor.rest.drop n }
      { p with position := p.position + n } :=
  ⟨rfl, h, congrArg (Cursor.mk · p.encoding) List.drop_drop.symm⟩

theorem Reaches.back (h : p.Reaches c p') (hp : p.Within) :
    p.Reaches { c with rest := p.cursor.rest } { p' with position := p.position } := by
  have hencoding : p'.encoding = c.encoding := congrArg Cursor.encoding h.cursor_eq
  refine ⟨h.content_eq, ?_, ?_⟩
  · rw [Within, h.content_eq]
    exact hp
  · rw [cursor, h.content_eq, hencoding]
    rfl

end Page

namespace Walk

open Page (Within Reaches)

variable {α β : Type} {p p' : Page} {w : Walk α} {r : Read α} {f : α → Walk β} {g : α → Read β}
  {n : Nat}

/-- From `p`, the walk arrives where the read does, with the same result. -/
def FollowsAt (p : Page) (w : Walk α) (r : Read α) : Prop :=
  ∃ p', w.run p = some ((r.run p.cursor).1, p') ∧ p.Reaches (r.run p.cursor).2 p'

/-- The same from every position within a byte string. -/
def Follows (w : Walk α) (r : Read α) : Prop := ∀ p : Page, p.Within → FollowsAt p w r

/-! ### One walk after another -/

theorem run_bind_of_ok {a : α} (h : w.run p = some (.ok a, p')) :
    (w >>= f).run p = (f a).run p' := by
  show (andThen w f).run p = _
  simp only [andThen, h]

theorem run_bind_of_error {e : ReadError} (h : w.run p = some (.error e, p')) :
    (w >>= f).run p = some (.error e, p') := by
  show (andThen w f).run p = _
  simp only [andThen, h]

theorem FollowsAt.bind (h : FollowsAt p w r)
    (hf : ∀ a p', p'.Within → p'.content = p.content → r.run p.cursor = (.ok a, p'.cursor) →
      FollowsAt p' (f a) (g a)) : FollowsAt p (w >>= f) (r >>= g) := by
  obtain ⟨p₁, hw, hr⟩ := h
  cases hrun : r.run p.cursor with
  | mk x c =>
    rw [hrun] at hw hr
    cases x with
    | error e =>
      rw [FollowsAt, Read.run_bind_of_error hrun, run_bind_of_error hw]
      exact ⟨p₁, rfl, hr⟩
    | ok a =>
      obtain rfl := hr.cursor_eq
      obtain ⟨p₂, hw₂, hr₂⟩ := hf a p₁ hr.within hr.content_eq hrun
      rw [FollowsAt, Read.run_bind_of_ok hrun, run_bind_of_ok hw]
      exact ⟨p₂, hw₂, hr.trans hr₂⟩

theorem Follows.bind (h : Follows w r) (hf : ∀ a, Follows (f a) (g a)) :
    Follows (w >>= f) (r >>= g) :=
  fun p hp => (h p hp).bind fun a p' hp' _ _ => hf a p' hp'

theorem follows_pure (a : α) : Follows (pure a) (pure a) := fun p hp => ⟨p, rfl, hp.reaches⟩

theorem follows_encoding : Follows encoding Read.encoding := fun p hp => ⟨p, rfl, hp.reaches⟩

theorem Follows.times (h : Follows w r) (n : Nat) : Follows (Walk.times n w) (Read.times n r) := by
  have honto : ∀ n as, Follows (timesOnto w n as) ⟨Read.timesOnto r n as⟩ := by
    intro n
    induction n with
    | zero => exact fun as p hp => ⟨p, rfl, hp.reaches⟩
    | succ n ih =>
      intro as p hp
      have hstep := (h p hp).bind fun a p' hp' _ _ => ih (a :: as) p' hp'
      have hread : (⟨Read.timesOnto r (n + 1) as⟩ : Read (List α)) =
          r >>= fun a => ⟨Read.timesOnto r n (a :: as)⟩ := rfl
      rw [hread]
      exact hstep
  exact honto n []

/-- **Going back** after a failure. -/
theorem Follows.rewind (h : Follows w r) : Follows (Walk.rewind w) (Read.atomic r) := by
  intro p hp
  obtain ⟨p₁, hw, hr⟩ := h p hp
  cases hrun : r.run p.cursor with
  | mk x c =>
    rw [hrun] at hw hr
    cases x with
    | ok a =>
      rw [FollowsAt, Read.run_atomic_of_ok hrun]
      exact ⟨p₁, by simp only [Walk.rewind, hw], hr⟩
    | error e =>
      rw [FollowsAt, Read.run_atomic_of_error hrun]
      exact ⟨{ p₁ with position := p.position }, by simp only [Walk.rewind, hw], hr.back hp⟩

/-! ### Accesses -/

theorem run_remaining (hp : p.Within) :
    remaining.run p = some (.ok p.cursor.rest.length, p) := by
  rw [Page.length_rest]
  exact if_pos hp

theorem run_stretch {start : Nat} (h : start + n ≤ p.content.length) :
    (stretch start n).run p = some (.ok (p.content.slice start n), p) := if_pos h

theorem run_get (h : p.position + n ≤ p.content.length) :
    (get n).run p =
      some (.ok (p.cursor.rest.take n), { p with position := p.position + n }) := by
  have hstretch : (stretch p.position n).run p = _ := run_stretch h
  show (stretch p.position n >>= fun bs => goTo (p.position + n) >>= fun _ => pure bs).run p = _
  rw [run_bind_of_ok hstretch]
  rfl

theorem run_check_of_le (hp : p.Within) (h : n ≤ p.cursor.rest.length) :
    (check n).run p = some (.ok (), p) := by
  rw [check, run_bind_of_ok (run_remaining hp), if_neg (Nat.not_lt.2 h)]
  rfl

theorem run_check_of_lt (hp : p.Within) (h : p.cursor.rest.length < n) :
    (check n).run p = some (.error (.endOfData n p.cursor.rest.length), p) := by
  rw [check, run_bind_of_ok (run_remaining hp), if_pos h]
  rfl

theorem within_add (hp : p.Within) (h : n ≤ p.cursor.rest.length) :
    p.position + n ≤ p.content.length := by
  rw [Page.length_rest] at h
  unfold Within at hp
  omega

theorem run_count (hp : p.Within) (h : 4 ≤ p.cursor.rest.length) (size : Nat → Nat) :
    (count size).run p =
      let n := (Scalar.decode .i32 (p.cursor.rest.take 4)).toInt
      let available := (p.cursor.rest.drop 4).length
      if n < 0 then some (.error (.negativeLength n), p)
      else if available < size n.toNat then some (.error (.endOfData (size n.toNat) available), p)
      else some (.ok n.toNat, { p with position := p.position + 4 }) := by
  have hstretch : (stretch p.position 4).run p = some (.ok (p.cursor.rest.take 4), p) :=
    run_stretch (within_add hp h)
  have hless : less p.cursor.rest.length 4 = value (p.cursor.rest.drop 4).length := by
    rw [List.length_drop]
    exact if_pos h
  rw [count, run_bind_of_ok (run_check_of_le hp h),
    run_bind_of_ok (show position.run p = some (.ok p.position, p) from rfl),
    run_bind_of_ok hstretch]
  dsimp only
  split_ifs with hneg hsize
  · rfl
  · rw [run_bind_of_ok (run_remaining hp), hless]
    exact congrArg (Walk.run · p) (if_pos hsize)
  · rw [run_bind_of_ok (run_remaining hp), hless]
    exact congrArg (Walk.run · p) (if_neg hsize)

/-- **A count** is taken after a look at what it announces. -/
theorem followsAt_count (hp : p.Within) {size size' : Nat → Nat}
    (hs : ∀ n ≤ Kind.maxCount, size' n = size n) : FollowsAt p (count size') (Read.count size) := by
  rcases Nat.lt_or_ge p.cursor.rest.length 4 with hlt | hle
  · have hread : (Read.count size).run p.cursor =
        (.error (.endOfData 4 p.cursor.rest.length), p.cursor) := if_pos (Bytes.lacks_iff.2 hlt)
    rw [FollowsAt, count, run_bind_of_error (run_check_of_lt hp hlt), hread]
    exact ⟨p, rfl, hp.reaches⟩
  · have hlt : (Scalar.decode .i32 (p.cursor.rest.take 4)).toInt < 2 ^ 31 := BitVec.toInt_lt
    have hcount : (Scalar.decode .i32 (p.cursor.rest.take 4)).toInt.toNat ≤ Kind.maxCount := by
      unfold Kind.maxCount
      omega
    rw [FollowsAt, run_count hp hle]
    simp only [Read.count, Bytes.lacks_iff, Nat.not_lt.2 hle, if_false, hs _ hcount]
    split_ifs
    · exact ⟨p, rfl, hp.reaches⟩
    · exact ⟨p, rfl, hp.reaches⟩
    · exact ⟨_, rfl, Page.reaches_add (within_add hp hle)⟩

theorem followsAt_count_bind (hp : p.Within) {size size' : Nat → Nat}
    (hs : ∀ n ≤ Kind.maxCount, size' n = size n) {f : Nat → Walk β} {g : Nat → Read β}
    (hf : ∀ n p', p'.Within → size n ≤ p'.cursor.rest.length → FollowsAt p' (f n) (g n)) :
    FollowsAt p (count size' >>= f) (Read.count size >>= g) := by
  refine (followsAt_count hp hs).bind fun n p' hp' _ hn => hf n p' hp' ?_
  rcases Read.count_cases size p.cursor with ⟨e, -, hc⟩ | ⟨n', -, hle, hc⟩
  · rw [hc] at hn
    cases hn
  · rw [hc] at hn
    obtain ⟨h₁, h₂⟩ := Prod.mk.inj hn
    cases h₁
    rwa [← h₂]

/-- A look whether `n` bytes are there before a walk that relies on it. -/
theorem followsAt_check_bind (hp : p.Within) {w : Unit → Walk α}
    (hw : n ≤ p.cursor.rest.length → FollowsAt p (w ()) r)
    (hr : p.cursor.rest.length < n →
      r.run p.cursor = (.error (.endOfData n p.cursor.rest.length), p.cursor)) :
    FollowsAt p (check n >>= w) r := by
  rcases Nat.lt_or_ge p.cursor.rest.length n with hlt | hle
  · rw [FollowsAt, run_bind_of_error (run_check_of_lt hp hlt), hr hlt]
    exact ⟨p, rfl, hp.reaches⟩
  · rw [FollowsAt, run_bind_of_ok (run_check_of_le hp hle)]
    exact hw hle

theorem followsAt_get (hp : p.Within) (h : n ≤ p.cursor.rest.length) :
    FollowsAt p (get n) (Read.take n) := by
  rw [FollowsAt, Read.run_take_of_le h, run_get (within_add hp h)]
  exact ⟨_, rfl, Page.reaches_add (within_add hp h)⟩

/-! ### Values one at a time -/

theorem followsAt_getScalar (hp : p.Within) {k : ScalarKind} (h : k.size ≤ p.cursor.rest.length) :
    FollowsAt p (getScalar k) (Read.scalar k) :=
  (followsAt_get hp h).bind fun _ p' hp' _ _ => follows_pure _ p' hp'

theorem follows_scalar (k : ScalarKind) : Follows (scalar k) (Read.scalar k) :=
  fun _ hp => followsAt_check_bind hp (followsAt_getScalar hp) fun hlt =>
    Read.run_bind_of_error (Read.run_take_of_lt hlt)

theorem follows_bool : Follows Walk.bool Read.bool :=
  (follows_scalar .u8).bind fun _ => follows_pure _

theorem run_position_bind (f : Nat → Walk β) (p : Page) :
    (position >>= f).run p = (f p.position).run p := rfl

theorem run_goTo_bind (n : Nat) (f : Unit → Walk β) (p : Page) :
    (goTo n >>= f).run p = (f ()).run { p with position := n } := rfl

theorem follows_strIn (e : Encoding) : Follows (strIn e) (Read.strIn e) := by
  intro p hp
  have hcount : FollowsAt p (count id) (Read.count id) := followsAt_count hp fun _ _ => rfl
  obtain ⟨p₁, hw, hr⟩ := hcount
  rcases Read.count_cases id p.cursor with ⟨e', -, hc⟩ | ⟨n, -, hle, hc⟩
  · have hread : (Read.strIn e).run p.cursor = (.error e', p.cursor) :=
      Read.run_atomic_of_error (Read.run_bind_of_error hc)
    rw [hc] at hw hr
    rw [FollowsAt, hread, strIn, run_position_bind, run_bind_of_error hw]
    exact ⟨p₁, rfl, hr⟩
  · rw [hc] at hw hr
    have hcursor : p₁.cursor = { p.cursor with rest := p.cursor.rest.drop 4 } := hr.cursor_eq
    rw [← hcursor] at hc
    have hle' : n ≤ p₁.cursor.rest.length := by
      rw [hcursor]
      exact hle
    have hend := within_add hr.within hle'
    have hstretch : (stretch p₁.position n).run p₁ = some (.ok (p₁.cursor.rest.take n), p₁) :=
      run_stretch hend
    have hreaches := hr.trans (Page.reaches_add hend)
    rw [FollowsAt, strIn, run_position_bind, run_bind_of_ok hw, run_position_bind,
      run_bind_of_ok hstretch]
    simp only [Read.strIn, Read.atomic]
    rw [Read.run_bind_of_ok hc, Read.run_bind_of_ok (Read.run_take_of_le hle')]
    cases e.decode? (p₁.cursor.rest.take n) with
    | some s => exact ⟨_, rfl, hreaches⟩
    | none => exact ⟨_, rfl, hreaches.back hp⟩

theorem follows_str : Follows str Read.str := follows_encoding.bind follows_strIn

theorem follows_char : Follows Walk.char Read.char := by
  intro p hp
  obtain ⟨p₁, hw, hr⟩ := follows_str p hp
  cases hrun : Read.str.run p.cursor with
  | mk x c =>
    rw [hrun] at hw hr
    rw [FollowsAt, Walk.char, run_position_bind]
    simp only [Read.char, Read.atomic]
    cases x with
    | error e =>
      rw [run_bind_of_error hw, Read.run_bind_of_error hrun]
      -- the string was not taken either
      have hrest := Read.rewinds_str _ _ _ hrun
      rw [← hrest]
      exact ⟨p₁, rfl, hr⟩
    | ok s =>
      rw [run_bind_of_ok hw, Read.run_bind_of_ok hrun]
      obtain rfl : p₁.cursor = c := hr.cursor_eq
      rcases s.toList with _ | ⟨a, _ | ⟨b, cs⟩⟩
      · exact ⟨_, rfl, hr.back hp⟩
      · exact ⟨p₁, rfl, hr⟩
      · exact ⟨_, rfl, hr.back hp⟩

theorem follows_chars : Follows chars Read.chars := follows_str.bind fun _ => follows_pure _

theorem run_raw (hp : p.Within) (h : n ≤ p.cursor.rest.length) :
    (raw n).run p =
      some (.ok (p.cursor.rest.take n), { p with position := p.position + n }) := by
  have hend := within_add hp h
  rw [raw, run_bind_of_ok (run_check_of_le hp h), run_position_bind, run_goTo_bind]
  exact if_pos hend

theorem follows_rawOf (n : Nat) : Follows (rawOf n) (Read.rawOf n) := by
  intro p hp
  rcases Read.rawOf_cases n p.cursor with ⟨hlt, hc⟩ | ⟨v, hle, hv, hc⟩
  · have hraw : (raw n).run p = some (.error (.endOfData n p.cursor.rest.length), p) := by
      rw [raw, run_bind_of_error (run_check_of_lt hp hlt)]
    rw [FollowsAt, hc, rawOf, run_bind_of_error hraw]
    exact ⟨p, rfl, hp.reaches⟩
  · rw [FollowsAt, hc, rawOf, run_bind_of_ok (run_raw hp hle), ← hv, dif_pos v.2]
    exact ⟨_, rfl, Page.reaches_add (within_add hp hle)⟩

theorem saturatingMul_eq {k : Nat} (hk : k ≤ 8) (n : Nat) (hn : n ≤ Kind.maxCount) :
    saturatingMul n k = n * k := by
  have hle : n * k ≤ Kind.maxCount * 8 := Nat.mul_le_mul hn hk
  exact Nat.min_eq_left (Nat.le_trans hle (by decide))

theorem follows_strs : Follows strs Read.strs :=
  Follows.rewind fun _ hp => followsAt_count_bind hp (saturatingMul_eq (by decide))
    fun n p' hp' _ => (follows_str.times n) p' hp'

theorem Follows.arrayOf (h : Follows w r) : Follows (Walk.arrayOf w) (Read.arrayOf r) :=
  Follows.rewind fun _ hp => followsAt_count_bind hp (fun _ _ => rfl)
    fun n p' hp' _ => (h.times n) p' hp'

/-! ### Values onto existing ones -/

/-- What a read gives, added to existing values; these are kept if it fails. -/
def onto (dest : List β) : Except ReadError (List β) → Except ReadError Unit × List β
  | .ok bs => (.ok (), dest ++ bs)
  | .error e => (.error e, dest)

/-- **Values are added** to existing ones as a read of the same values gives them. -/
def FillsAs (f : Fill β) (r : Read (List β)) : Prop :=
  ∀ (dest : List β) (p : Page), p.Within →
    ∃ p', f dest p = some (onto dest (r.run p.cursor).1, p') ∧ p.Reaches (r.run p.cursor).2 p'

theorem FillsAs.follows {f : Fill β} {r : Read (List β)} (h : FillsAs f r) :
    Follows (ofFill f) r := by
  intro p hp
  obtain ⟨p', hf, hr⟩ := h [] p hp
  refine ⟨p', ?_, hr⟩
  cases hx : (r.run p.cursor).1 with
  | ok bs => simp only [ofFill, hf, hx, onto, List.nil_append]
  | error e => simp only [ofFill, hf, hx, onto]

theorem fillsAs_fill {size size' : Nat → Nat} (hs : ∀ n ≤ Kind.maxCount, size' n = size n)
    {push : Nat → List β → Walk (List β)} {g : Nat → Read (List β)}
    (hpush : ∀ n (dest : List β) (p : Page), p.Within → size n ≤ p.cursor.rest.length →
      ∃ bs p', (push n dest).run p = some (.ok (dest ++ bs), p') ∧
        (g n).run p.cursor = (.ok bs, p'.cursor) ∧ p.Reaches p'.cursor p') :
    FillsAs (fill size' push) (Read.count size >>= g) := by
  intro dest p hp
  obtain ⟨p₁, hw, hr⟩ := followsAt_count hp hs
  rcases Read.count_cases size p.cursor with ⟨e, -, hc⟩ | ⟨n, -, hle, hc⟩
  · rw [hc] at hw hr
    rw [Read.run_bind_of_error hc]
    exact ⟨p₁, by simp only [fill, hw, onto], hr⟩
  · rw [hc] at hw hr
    have hcursor : p₁.cursor = { p.cursor with rest := p.cursor.rest.drop 4 } := hr.cursor_eq
    rw [← hcursor] at hc
    have hle' : size n ≤ p₁.cursor.rest.length := by
      rw [hcursor]
      exact hle
    obtain ⟨bs, p₂, hp₂, hg, hr₂⟩ := hpush n dest p₁ hr.within hle'
    rw [Read.run_bind_of_ok hc, hg]
    exact ⟨p₂, by simp only [fill, hw, hp₂, onto], hr.trans hr₂⟩

theorem fillsAs_bytesOnto : FillsAs bytesOnto Read.bytes := by
  refine fillsAs_fill (fun _ _ => rfl) fun n dest p hp hle => ?_
  change n ≤ _ at hle
  have hend := within_add hp hle
  have hr := Page.reaches_add hend
  refine ⟨p.cursor.rest.take n, { p with position := p.position + n }, ?_, ?_, hr.cursor_eq ▸ hr⟩
  · rw [pushBytes, run_bind_of_ok (run_get hend)]
    rfl
  · rw [Read.run_take_of_le hle, hr.cursor_eq]

theorem decodeMany_take (k : ScalarKind) (n : Nat) (bs : Bytes) :
    Scalar.decodeMany k n (bs.take (n * k.size)) = Scalar.decodeMany k n bs := by
  induction n generalizing bs with
  | zero => rfl
  | succ n ih =>
    have hle : k.size ≤ (n + 1) * k.size := Nat.le_mul_of_pos_left _ (Nat.succ_pos n)
    have hrest : (n + 1) * k.size - k.size = n * k.size := by
      rw [Nat.succ_mul]
      omega
    rw [Scalar.decodeMany, Scalar.decodeMany, List.take_take, Nat.min_eq_left hle, List.drop_take,
      hrest, ih]

theorem run_getScalar (hp : p.Within) {k : ScalarKind} (h : k.size ≤ p.cursor.rest.length) :
    (getScalar k).run p =
      some (.ok (Scalar.decode k (p.cursor.rest.take k.size)),
        { p with position := p.position + k.size }) := by
  rw [getScalar, run_bind_of_ok (run_get (within_add hp h))]
  rfl

theorem run_pushScalars (k : ScalarKind) (n : Nat) (dest : List (Scalar k)) (hp : p.Within)
    (h : n * k.size ≤ p.cursor.rest.length) :
    (pushScalars k n dest).run p =
      some (.ok (dest ++ Scalar.decodeMany k n p.cursor.rest),
        { p with position := p.position + n * k.size }) := by
  induction n generalizing dest p with
  | zero =>
    rw [pushScalars, Scalar.decodeMany, List.append_nil, Nat.zero_mul]
    rfl
  | succ n ih =>
    rw [Nat.succ_mul] at h
    have hone : k.size ≤ p.cursor.rest.length := by omega
    have hr := Page.reaches_add (within_add hp hone)
    have hrest : ({ p with position := p.position + k.size } : Page).cursor.rest =
        p.cursor.rest.drop k.size := congrArg Cursor.rest hr.cursor_eq
    rw [pushScalars, run_bind_of_ok (run_getScalar hp hone), ih _ hr.within ?_, hrest,
      Scalar.decodeMany, List.append_assoc, List.singleton_append, Nat.succ_mul, Nat.add_assoc,
      Nat.add_comm k.size]
    rw [hrest, List.length_drop]
    omega

theorem fillsAs_scalarsOnto (k : ScalarKind) : FillsAs (scalarsOnto k) (Read.scalars k) := by
  have hsize : k.size ≤ 8 := by cases k <;> decide
  refine fillsAs_fill (saturatingMul_eq hsize) fun n dest p hp hle => ?_
  have hr := Page.reaches_add (within_add hp hle)
  refine ⟨_, _, run_pushScalars k n dest hp hle, ?_, hr.cursor_eq ▸ hr⟩
  rw [Read.run_bind_of_ok (Read.run_take_of_le hle), decodeMany_take, hr.cursor_eq]
  rfl

theorem octetCount_succ (n : Nat) :
    Bytes.octetCount (n + 1) = Bytes.octetCount (n + 1 - 8) + 1 := by
  unfold Bytes.octetCount
  omega

theorem unpackBits_cons (n : Nat) (b : UInt8) (bs : Bytes) :
    Bytes.unpackBits n (b :: bs) =
      ([b].flatMap Bytes.octetBits).take (min n 8) ++ Bytes.unpackBits (n - 8) bs := by
  have hlen : (Bytes.octetBits b).length = 8 := Bytes.length_octetBits b
  rw [Bytes.unpackBits, Bytes.unpackBits, List.flatMap_cons, List.flatMap_singleton,
    List.take_append,
    hlen, ← List.take_take, List.take_of_length_le (Nat.le_of_eq hlen)]

theorem run_pushBits (n : Nat) (dest : List Bool) (hp : p.Within)
    (h : Bytes.octetCount n ≤ p.cursor.rest.length) :
    (pushBits n dest).run p =
      some (.ok (dest ++ Bytes.unpackBits n (p.cursor.rest.take (Bytes.octetCount n))),
        { p with position := p.position + Bytes.octetCount n }) := by
  induction n, dest using pushBits.induct generalizing p with
  | case1 dest =>
    rw [pushBits, Bytes.unpackBits, List.take_zero, List.append_nil]
    rfl
  | case2 n dest ih =>
    rw [octetCount_succ] at h ⊢
    have hone : 1 ≤ p.cursor.rest.length := by omega
    have hr := Page.reaches_add (within_add hp hone)
    obtain ⟨b, bs, hbs⟩ : ∃ b bs, p.cursor.rest = b :: bs :=
      List.exists_cons_of_length_pos hone
    have hrest : ({ p with position := p.position + 1 } : Page).cursor.rest = bs :=
      (congrArg Cursor.rest hr.cursor_eq).trans (by rw [hbs]; rfl)
    have hget : (get 1).run p = some (.ok [b], { p with position := p.position + 1 }) := by
      rw [run_get (within_add hp hone), hbs]
      rfl
    have hle : Bytes.octetCount (n + 1 - 8) ≤
        ({ p with position := p.position + 1 } : Page).cursor.rest.length := by
      rw [hrest]
      rw [hbs, List.length_cons] at h
      omega
    rw [pushBits, run_bind_of_ok hget, ih [b] hr.within hle, hrest, hbs, List.take_succ_cons,
      unpackBits_cons, List.append_assoc, Nat.add_assoc, Nat.add_comm 1]

theorem fillsAs_boolsOnto : FillsAs boolsOnto Read.bools := by
  refine fillsAs_fill (fun _ _ => rfl) fun n dest p hp hle => ?_
  have hr := Page.reaches_add (within_add hp hle)
  refine ⟨_, _, run_pushBits n dest hp hle, ?_, hr.cursor_eq ▸ hr⟩
  rw [Read.run_bind_of_ok (Read.run_take_of_le hle), hr.cursor_eq]
  rfl

end Walk

/-- **Reads of values** stay within the byte string. -/
theorem Kind.follows_walk (k : Kind) : k.walk.Follows k.read := by
  cases k with
  | bool => exact Walk.follows_bool
  | scalar k => exact Walk.follows_scalar k
  | char => exact Walk.follows_char
  | str => exact Walk.follows_str
  | strIn e => exact Walk.follows_strIn e
  | chars => exact Walk.follows_chars
  | bytes => exact Walk.fillsAs_bytesOnto.follows
  | raw n => exact Walk.follows_rawOf n
  | bools => exact Walk.fillsAs_boolsOnto.follows
  | scalars k => exact (Walk.fillsAs_scalarsOnto k).follows
  | strs => exact Walk.follows_strs

end Tandem
