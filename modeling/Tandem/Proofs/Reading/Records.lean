import Tandem.Proofs.Reading.Inverse

/-!
# Reading undoes writing for application types

For fields one after the other it does so because it does so for each of them.
`Proofs.Reading.Nest` has types that hold arrays of themselves.
-/

namespace Tandem

theorem Point.roundTrips {e : Encoding} {p : Point} (h : e.byteCount p.label ≤ Kind.maxCount) :
    Serializable.RoundTrips e p e := by
  have hx := Read.undoes_scalar p.x e
  have hlabel : Read.str.Undoes (fun w m => w.write .str p.label m) 0 e p.label e :=
    Read.undoes_write h
  have hpoint := hx.bind (q := fun x => Read.str >>= fun label => pure (Point.mk x label))
    (hlabel.bind_pure rfl)
  refine Read.Undoes.congr hpoint ?_
  intro w m
  with_reducible_and_instances rfl

/-- A bag is read field by field too, into an empty one. -/
theorem Bag.yields {e : Encoding} {b : Bag} {bs more : Bytes}
    (hn : (Read.scalars .u32).Yields e bs b.numbers e) (hs : Read.str.Yields e more b.name e) :
    (Serializable.deserialize : Read Bag).Yields e (bs ++ more) b e := by
  intro rest
  simp only [Serializable.deserialize, Bag.readInto, List.append_assoc, hn (more ++ rest), hs rest,
    List.nil_append]

theorem Bag.roundTrips {e : Encoding} {b : Bag} (hn : b.numbers.length ≤ Kind.maxCount)
    (hs : e.byteCount b.name ≤ Kind.maxCount) : Serializable.RoundTrips e b e := by
  have hnumbers : (Read.scalars .u32).Undoes (fun w m => w.write (.scalars .u32) b.numbers m) 0 e
      b.numbers e := Read.undoes_write hn
  have hname : Read.str.Undoes (fun w m => w.write .str b.name m) 0 e b.name e :=
    Read.undoes_write hs
  have hbag := hnumbers.both hname fun _ _ hy hy' => Bag.yields hy hy'
  refine Read.Undoes.congr hbag ?_
  intro w m
  with_reducible_and_instances rfl

end Tandem
