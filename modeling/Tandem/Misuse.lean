/-!
# Broken preconditions

An operation whose caller breaks its precondition stops without taking effect.  Some of these
stops carry a text, the others only say that they happened.
-/

namespace Tandem

/-- What a caller did wrong. -/
inductive Misuse where
  /-- dropping more bytes from the front of a view than it has -/
  | advanceBeyond (count length : Nat)
  /-- moving a writer's cursor behind the end of what was written -/
  | writerPosition (position length : Nat)
  /-- moving a reader's cursor behind the end of the data -/
  | readerPosition (position length : Nat)
  /-- an index or a count that is out of range -/
  | outOfRange
  deriving DecidableEq, Repr

namespace Misuse

/-- The text that comes with a misuse, if there is one. -/
def message? : Misuse → Option String
  | advanceBeyond c n => some s!"cannot advance {c} bytes in a buffer of {n} bytes"
  | writerPosition p n => some s!"position {p} is beyond the writer's length {n}"
  | readerPosition p n => some s!"position {p} is beyond the reader's length {n}"
  | outOfRange => none

end Misuse

end Tandem
