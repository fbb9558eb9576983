import Tandem.Proofs.Reading.Bounds
import Tandem.Records

/-!
# How application types are read

A `Routine` is what a type's reading function does with a reader: it calls reads, one after the
other, looks at what each of them gives, and ends in a result of its own.  Among what it calls are
reads of other application types, and of arrays of them, so that routines nest to any depth.  What a
routine does to a cursor (`Routine.run`) it does step by step within the byte string
(`Routine.follows_walk`), and if it makes up no complaints of its own, its complaints are true
(`Routine.Ends.run`).
-/

namespace Tandem

/-- An error, if there is one, is a true complaint. -/
def HonestResult {α : Type} (x : Except ReadError α) : Prop := ∀ e, x = .error e → e.Honest

theorem honestResult_ok {α : Type} (a : α) : HonestResult (.ok a) := fun _ he => by cases he

theorem honestResult_error {α : Type} {e : ReadError} :
    HonestResult (.error e : Except ReadError α) ↔ e.Honest :=
  ⟨fun h => h e rfl, fun h _ he => Except.error.inj he ▸ h⟩

/-- What a function does with a reader, up to its result. -/
inductive Routine : Type → Type 1 where
  /-- ends -/
  | done {α : Type} (a : α) : Routine α
  /-- reads a value -/
  | value {α : Type} (k : Kind) (next : Except ReadError k.Value → Routine α) : Routine α
  /-- reads a value of an application type -/
  | record {α β : Type} (inner : Routine (Except ReadError β))
      (next : Except ReadError β → Routine α) : Routine α
  /-- reads an array of such values -/
  | records {α β : Type} (inner : Routine (Except ReadError β))
      (next : Except ReadError (List β) → Routine α) : Routine α
  /-- reads into an existing value; what has become of it is there also after a failure -/
  | into {α β : Type} (inner : Routine (Except ReadError Unit × β))
      (next : Except ReadError Unit × β → Routine α) : Routine α
  /-- looks how many bytes are left, and how strings are read -/
  | look {α : Type} (next : Nat → Encoding → Routine α) : Routine α
  /-- reads strings in another way from now on -/
  | setEncoding {α : Type} (e : Encoding) (next : Routine α) : Routine α

/-- Takes nothing if reading into an existing value fails. -/
def Read.restore {β : Type} (f : Cursor → (Except ReadError Unit × β) × Cursor) (c : Cursor) :
    (Except ReadError Unit × β) × Cursor :=
  match f c with
  | ((.ok (), b), c') => ((.ok (), b), c')
  | ((.error e, b), c') => ((.error e, b), { c' with rest := c.rest })

/-- Goes back if reading into an existing value fails. -/
def Walk.restore {β : Type} (f : Page → Option ((Except ReadError Unit × β) × Page)) (p : Page) :
    Option ((Except ReadError Unit × β) × Page) :=
  match f p with
  | none => none
  | some ((.ok (), b), p') => some ((.ok (), b), p')
  | some ((.error e, b), p') => some ((.error e, b), { p' with position := p.position })

namespace Routine

variable {α β : Type}

/-- What a routine makes of a cursor. -/
def run {α : Type} : Routine α → Cursor → α × Cursor
  | done a, c => (a, c)
  | value k next, c =>
    let (x, c) := k.read.run c
    (next x).run c
  | record inner next, c =>
    let (x, c) := (Read.atomic ⟨inner.run⟩).run c
    (next x).run c
  | records inner next, c =>
    let (x, c) := (Read.arrayOf ⟨inner.run⟩).run c
    (next x).run c
  | into inner next, c =>
    let (x, c) := Read.restore inner.run c
    (next x).run c
  | look next, c => (next c.rest.length c.encoding).run c
  | setEncoding e next, c => next.run { c with encoding := e }

/-- The same step by step. -/
def walk {α : Type} : Routine α → Page → Option (α × Page)
  | done a, p => some (a, p)
  | value k next, p =>
    match k.walk.run p with
    | none => none
    | some (x, p) => (next x).walk p
  | record inner next, p =>
    match (Walk.rewind ⟨inner.walk⟩).run p with
    | none => none
    | some (x, p) => (next x).walk p
  | records inner next, p =>
    match (Walk.arrayOf ⟨inner.walk⟩).run p with
    | none => none
    | some (x, p) => (next x).walk p
  | into inner next, p =>
    match Walk.restore inner.walk p with
    | none => none
    | some (x, p) => (next x).walk p
  | look next, p =>
    match Walk.remaining.run p with
    | some (.ok n, p) => (next n p.encoding).walk p
    | _ => none
  | setEncoding e next, p => next.walk { p with encoding := e }

/-- However the reads end that it calls, a routine ends in a result with `P`, as long as their
errors are true complaints. -/
def Ends {α : Type} : Routine α → (α → Prop) → Prop
  | done a, P => P a
  | value _ next, P => ∀ x, HonestResult x → (next x).Ends P
  | record inner next, P => inner.Ends HonestResult ∧ ∀ x, HonestResult x → (next x).Ends P
  | records inner next, P => inner.Ends HonestResult ∧ ∀ x, HonestResult x → (next x).Ends P
  | into inner next, P =>
    inner.Ends (fun x => HonestResult x.1) ∧ ∀ x, HonestResult x.1 → (next x).Ends P
  | look next, P => ∀ n e, (next n e).Ends P
  | setEncoding _ next, P => next.Ends P

/-- The read that a routine is. -/
def toRead (q : Routine (Except ReadError α)) : Read α := ⟨q.run⟩

def toWalk (q : Routine (Except ReadError α)) : Walk α := ⟨q.walk⟩

/-! ### Staying within the byte string -/

theorem follows_restore {f : Page → Option ((Except ReadError Unit × β) × Page)}
    {g : Cursor → (Except ReadError Unit × β) × Cursor}
    (h : ∀ p : Page, p.Within → ∃ p', f p = some ((g p.cursor).1, p') ∧ p.Reaches (g p.cursor).2 p')
    {p : Page} (hp : p.Within) :
    ∃ p', Walk.restore f p = some ((Read.restore g p.cursor).1, p') ∧
      p.Reaches (Read.restore g p.cursor).2 p' := by
  obtain ⟨p₁, hf, hr⟩ := h p hp
  simp only [Walk.restore, Read.restore, hf]
  generalize g p.cursor = x at hr ⊢
  obtain ⟨⟨_ | _, b⟩, c⟩ := x
  · exact ⟨_, rfl, hr.back hp⟩
  · exact ⟨p₁, rfl, hr⟩

/-- **A routine stays within the byte string** and arrives where it arrives by its reads. -/
theorem follows_walk (q : Routine α) {p : Page} (hp : p.Within) :
    ∃ p', q.walk p = some ((q.run p.cursor).1, p') ∧ p.Reaches (q.run p.cursor).2 p' := by
  induction q generalizing p with
  | done a => exact ⟨p, rfl, hp.reaches⟩
  | value k next ih =>
    obtain ⟨p₁, hw, hr⟩ := k.follows_walk p hp
    obtain ⟨p₂, hw₂, hr₂⟩ := ih (k.read.run p.cursor).1 hr.within
    rw [hr.cursor_eq] at hw₂ hr₂
    exact ⟨p₂, by rw [walk, hw]; exact hw₂, hr.trans hr₂⟩
  | record inner next ihInner ih =>
    have hinner : Walk.Follows ⟨inner.walk⟩ ⟨inner.run⟩ := fun _ hp' => ihInner hp'
    obtain ⟨p₁, hw, hr⟩ := hinner.rewind p hp
    obtain ⟨p₂, hw₂, hr₂⟩ := ih ((Read.atomic ⟨inner.run⟩).run p.cursor).1 hr.within
    rw [hr.cursor_eq] at hw₂ hr₂
    exact ⟨p₂, by rw [walk, hw]; exact hw₂, hr.trans hr₂⟩
  | records inner next ihInner ih =>
    have hinner : Walk.Follows ⟨inner.walk⟩ ⟨inner.run⟩ := fun _ hp' => ihInner hp'
    obtain ⟨p₁, hw, hr⟩ := hinner.arrayOf p hp
    obtain ⟨p₂, hw₂, hr₂⟩ := ih ((Read.arrayOf ⟨inner.run⟩).run p.cursor).1 hr.within
    rw [hr.cursor_eq] at hw₂ hr₂
    exact ⟨p₂, by rw [walk, hw]; exact hw₂, hr.trans hr₂⟩
  | into inner next ihInner ih =>
    obtain ⟨p₁, hw, hr⟩ := follows_restore (fun _ hp' => ihInner hp') hp
    obtain ⟨p₂, hw₂, hr₂⟩ := ih (Read.restore inner.run p.cursor).1 hr.within
    rw [hr.cursor_eq] at hw₂ hr₂
    exact ⟨p₂, by rw [walk, hw]; exact hw₂, hr.trans hr₂⟩
  | look next ih =>
    obtain ⟨p₁, hw, hr⟩ := ih p.cursor.rest.length p.encoding hp
    exact ⟨p₁, by rw [walk, Walk.run_remaining hp]; exact hw, hr⟩
  | setEncoding e next ih =>
    have hp' : ({ p with encoding := e } : Page).Within := hp
    obtain ⟨p₁, hw, hr⟩ := ih hp'
    exact ⟨p₁, hw, ⟨hr.content_eq, hr.within, hr.cursor_eq⟩⟩

theorem follows_toWalk (q : Routine (Except ReadError α)) : q.toWalk.Follows q.toRead :=
  fun _ hp => q.follows_walk hp

/-! ### Complaints -/

theorem honestResult_of_run {r : Read α} (h : r.Honest) (c : Cursor) : HonestResult (r.run c).1 :=
  fun e he => h c e (r.run c).2 (Prod.ext he rfl)

theorem restore_fst (f : Cursor → (Except ReadError Unit × β) × Cursor) (c : Cursor) :
    (Read.restore f c).1 = (f c).1 := by
  unfold Read.restore
  rcases f c with ⟨⟨_ | _, b⟩, c'⟩ <;> rfl

theorem rest_restore {f : Cursor → (Except ReadError Unit × β) × Cursor} {c : Cursor}
    {e : ReadError} (h : (Read.restore f c).1.1 = .error e) :
    (Read.restore f c).2.rest = c.rest := by
  unfold Read.restore at h ⊢
  generalize f c = x at h ⊢
  obtain ⟨⟨_ | _, b⟩, c'⟩ := x
  · rfl
  · cases h

/-- **A routine's result** is one that it ends in. -/
theorem Ends.run {q : Routine α} {P : α → Prop} (h : q.Ends P) (c : Cursor) : P (q.run c).1 := by
  induction q generalizing c with
  | done a => exact h
  | value k next ih => exact ih _ (h _ (honestResult_of_run k.honest_read c)) _
  | record inner next ihInner ih =>
    have hinner : Read.Honest ⟨inner.run⟩ := fun c' e c'' he =>
      ihInner h.1 c' e (congrArg Prod.fst he)
    exact ih _ (h.2 _ (honestResult_of_run hinner.atomic c)) _
  | records inner next ihInner ih =>
    have hinner : Read.Honest ⟨inner.run⟩ := fun c' e c'' he =>
      ihInner h.1 c' e (congrArg Prod.fst he)
    have harray : (Read.arrayOf ⟨inner.run⟩).Honest :=
      ((Read.honest_count _).bind fun n => hinner.times n).atomic
    exact ih _ (h.2 _ (honestResult_of_run harray c)) _
  | into inner next ihInner ih =>
    have hinner : HonestResult (Read.restore inner.run c).1.1 := by
      rw [restore_fst]
      exact ihInner h.1 c
    exact ih _ (h.2 _ hinner) _
  | look next ih => exact ih _ _ (h _ _) c
  | setEncoding e next ih => exact ih h _

theorem Ends.honest {q : Routine (Except ReadError α)} (h : q.Ends HonestResult) :
    q.toRead.Honest :=
  fun c e _ he => h.run c e (congrArg Prod.fst he)

/-! ### Putting routines together -/

/-- Goes on with what was read, or ends in the same error. -/
def orFail (next : α → Routine (Except ReadError β)) :
    Except ReadError α → Routine (Except ReadError β)
  | .ok a => next a
  | .error e => .done (.error e)

/-- Ends in something made of the result. -/
def map {α β : Type} : Routine α → (α → β) → Routine β
  | done a, f => done (f a)
  | value k next, f => value k fun x => (next x).map f
  | record inner next, f => record inner fun x => (next x).map f
  | records inner next, f => records inner fun x => (next x).map f
  | into inner next, f => into inner fun x => (next x).map f
  | look next, f => look fun n e => (next n e).map f
  | setEncoding e next, f => setEncoding e (next.map f)

theorem ends_orFail {next : α → Routine (Except ReadError β)}
    (h : ∀ a, (next a).Ends HonestResult) {x : Except ReadError α} (hx : HonestResult x) :
    (orFail next x).Ends HonestResult := by
  cases x with
  | ok a => exact h a
  | error e => exact honestResult_error.2 (honestResult_error.1 hx)

theorem ends_ok (a : α) : (done (.ok a) : Routine (Except ReadError α)).Ends HonestResult :=
  honestResult_ok a

theorem run_map (q : Routine α) (f : α → β) (c : Cursor) :
    (q.map f).run c = (f (q.run c).1, (q.run c).2) := by
  induction q generalizing c with
  | done a => rfl
  | value k next ih => exact ih _ f _
  | record inner next _ ih => exact ih _ f _
  | records inner next _ ih => exact ih _ f _
  | into inner next _ ih => exact ih _ f _
  | look next ih => exact ih _ _ f _
  | setEncoding e next ih => exact ih f _

theorem Ends.map {q : Routine α} {P : α → Prop} {Q : β → Prop} {f : α → β} (h : q.Ends P)
    (hf : ∀ a, P a → Q (f a)) : (q.map f).Ends Q := by
  induction q with
  | done a => exact hf a h
  | value k next ih => exact fun x hx => ih x (h x hx) hf
  | record inner next _ ih => exact ⟨h.1, fun x hx => ih x (h.2 x hx) hf⟩
  | records inner next _ ih => exact ⟨h.1, fun x hx => ih x (h.2 x hx) hf⟩
  | into inner next _ ih => exact ⟨h.1, fun x hx => ih x (h.2 x hx) hf⟩
  | look next ih => exact fun n e => ih n e (h n e) hf
  | setEncoding e next ih => exact ih h hf

/-- Reads a value, or ends in its error. -/
def valueOr (k : Kind) (next : k.Value → Routine (Except ReadError β)) :
    Routine (Except ReadError β) := value k (orFail next)

/-- Reads an array, or ends in its error. -/
def recordsOr (inner : Routine (Except ReadError α))
    (next : List α → Routine (Except ReadError β)) : Routine (Except ReadError β) :=
  records inner (orFail next)

theorem ends_valueOr {k : Kind} {next : k.Value → Routine (Except ReadError β)}
    (h : ∀ v, (next v).Ends HonestResult) : (valueOr k next).Ends HonestResult :=
  fun _ hx => ends_orFail h hx

theorem ends_recordsOr {inner : Routine (Except ReadError α)}
    {next : List α → Routine (Except ReadError β)} (hinner : inner.Ends HonestResult)
    (h : ∀ as, (next as).Ends HonestResult) : (recordsOr inner next).Ends HonestResult :=
  ⟨hinner, fun _ hx => ends_orFail h hx⟩

theorem toRead_orFail (r : Read α) (next : α → Routine (Except ReadError β)) (c : Cursor) :
    (orFail next (r.run c).1).run (r.run c).2 = (r >>= fun a => (next a).toRead).run c := by
  cases h : r.run c with
  | mk x c' =>
    cases x with
    | ok a => exact (Read.run_bind_of_ok (f := fun a => (next a).toRead) h).symm
    | error e => exact (Read.run_bind_of_error (f := fun a => (next a).toRead) h).symm

theorem toRead_valueOr (k : Kind) (next : k.Value → Routine (Except ReadError β)) :
    (valueOr k next).toRead = k.read >>= fun v => (next v).toRead :=
  congrArg Read.mk (funext (toRead_orFail k.read next))

theorem toRead_recordsOr (inner : Routine (Except ReadError α))
    (next : List α → Routine (Except ReadError β)) :
    (recordsOr inner next).toRead = Read.arrayOf inner.toRead >>= fun as => (next as).toRead :=
  congrArg Read.mk (funext (toRead_orFail (Read.arrayOf inner.toRead) next))

end Routine

/-! ### Application types -/

/-- The reading functions of an application type are routines with true complaints. -/
structure Serializable.Routines (α : Type) [Serializable α] : Type 1 where
  read : Routine (Except ReadError α)
  readInto : α → Routine (Except ReadError Unit × α)
  deserialize_eq : Serializable.deserialize = read.toRead
  deserializeInto_eq : ∀ a : α, Serializable.deserializeInto a = (readInto a).run
  ends_read : read.Ends HonestResult
  ends_readInto : ∀ a, (readInto a).Ends fun x => HonestResult x.1

open Routine

/-- The result of reading into an existing value by reading a new one. -/
def Routine.replace {α : Type} (a : α) : Except ReadError α → Except ReadError Unit × α
  | .ok b => (.ok (), b)
  | .error e => (.error e, a)

/-- A type whose values are read into by reading new ones. -/
def Serializable.Routines.ofRead {α : Type} [Serializable α] (q : Routine (Except ReadError α))
    (hread : Serializable.deserialize = q.toRead) (hends : q.Ends HonestResult)
    (hinto : ∀ (a : α) c, Serializable.deserializeInto a c =
      match Serializable.deserialize.run c with
      | (.ok b, c) => ((.ok (), b), c)
      | (.error e, c) => ((.error e, a), c)) : Serializable.Routines α where
  read := q
  readInto a := q.map (replace a)
  deserialize_eq := hread
  deserializeInto_eq a := by
    funext c
    rw [hinto, hread, run_map]
    show _ = (replace a (q.toRead.run c).1, (q.toRead.run c).2)
    rcases q.toRead.run c with ⟨_ | _, c'⟩ <;> rfl
  ends_read := hends
  ends_readInto _ := hends.map fun x hx => by
    cases x with
    | ok b => exact honestResult_ok ()
    | error e => exact honestResult_error.2 (honestResult_error.1 hx)

namespace Point

def routine : Routine (Except ReadError Point) :=
  valueOr (.scalar .i32) fun x =>
  valueOr .str fun label =>
  .done (.ok ⟨x, label⟩)

theorem deserialize_eq : (Serializable.deserialize : Read Point) = routine.toRead := by
  simp only [routine, toRead_valueOr]
  rfl

def routines : Serializable.Routines Point :=
  .ofRead routine deserialize_eq (ends_valueOr fun _ => ends_valueOr fun _ => ends_ok _)
    fun _ _ => rfl

end Point

namespace Tree

def routineUpTo : Nat → Routine (Except ReadError Tree)
  | 0 => .done (.error (.endOfData 1 0))
  | depth + 1 =>
    valueOr (.scalar .u8) fun v =>
    recordsOr (routineUpTo depth) fun ts =>
    .done (.ok (node v ts))

theorem readUpTo_eq (depth : Nat) : readUpTo depth = (routineUpTo depth).toRead := by
  induction depth with
  | zero => rfl
  | succ depth ih =>
    simp only [routineUpTo, toRead_valueOr, toRead_recordsOr]
    rw [readUpTo, ih]
    rfl

theorem ends_routineUpTo (depth : Nat) : (routineUpTo depth).Ends HonestResult := by
  induction depth with
  | zero => exact honestResult_error.2 Nat.zero_lt_one
  | succ depth ih => exact ends_valueOr fun _ => ends_recordsOr ih fun _ => ends_ok _

/-- Every level takes a byte, so that no level is deeper than there are bytes. -/
def routine : Routine (Except ReadError Tree) := .look fun n _ => routineUpTo (n + 1)

theorem deserialize_eq : (Serializable.deserialize : Read Tree) = routine.toRead :=
  congrArg Read.mk (funext fun c => congrArg (Read.run · c) (readUpTo_eq (c.rest.length + 1)))

def routines : Serializable.Routines Tree :=
  .ofRead routine deserialize_eq (fun n _ => ends_routineUpTo (n + 1)) fun _ _ => rfl

end Tree

namespace Bag

def routine : Routine (Except ReadError Bag) :=
  valueOr (.scalars .u32) fun xs =>
  valueOr .str fun name =>
  .done (.ok ⟨xs, name⟩)

/-- The numbers stay when the name cannot be read. -/
def routineInto (b : Bag) : Routine (Except ReadError Unit × Bag) :=
  .value (.scalars .u32) fun xs =>
    match xs with
    | .error e => .done (.error e, b)
    | .ok xs => .value .str fun name =>
      match name with
      | .error e => .done (.error e, { b with numbers := b.numbers ++ xs })
      | .ok name => .done (.ok (), { numbers := b.numbers ++ xs, name })

theorem readInto_eq (b : Bag) : readInto b = (routineInto b).run := by
  funext c
  rw [readInto, routineInto, Routine.run, Kind.read]
  rcases (Read.scalars .u32).run c with ⟨_ | xs, c'⟩
  · rfl
  · dsimp only
    rw [Routine.run, Kind.read]
    rcases Read.str.run c' with ⟨_ | name, c''⟩ <;> rfl

theorem deserialize_eq : (Serializable.deserialize : Read Bag) = routine.toRead := by
  refine congrArg Read.mk (funext fun c => ?_)
  show _ = (orFail _ ((Read.scalars .u32).run c).1).run ((Read.scalars .u32).run c).2
  dsimp only [readInto]
  rcases (Read.scalars .u32).run c with ⟨_ | xs, c'⟩
  · rfl
  · show _ = (orFail _ (Read.str.run c').1).run (Read.str.run c').2
    dsimp only
    rcases Read.str.run c' with ⟨_ | name, c''⟩ <;> rfl

def routines : Serializable.Routines Bag where
  read := routine
  readInto := routineInto
  deserialize_eq := deserialize_eq
  deserializeInto_eq := readInto_eq
  ends_read := ends_valueOr fun _ => ends_valueOr fun _ => ends_ok _
  ends_readInto b := by
    intro xs hxs
    cases xs with
    | error e => exact honestResult_error.2 (honestResult_error.1 hxs)
    | ok xs =>
      intro name hname
      cases name with
      | error e => exact honestResult_error.2 (honestResult_error.1 hname)
      | ok name => exact honestResult_ok ()

end Bag

end Tandem
