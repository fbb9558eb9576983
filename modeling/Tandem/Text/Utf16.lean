/-!
# UTF-16

A character up to U+FFFF is one code unit; a later one is a high surrogate followed by a low one.
Decoding accepts exactly the sequences that encoding produces: a surrogate that is not part of such
a pair has no meaning.
-/

namespace Tandem.Utf16

/-- High surrogates are 0xD800 to 0xDBFF. -/
def isHigh (u : UInt16) : Bool := 0xD800 ≤ u && u < 0xDC00

/-- Low surrogates are 0xDC00 to 0xDFFF. -/
def isLow (u : UInt16) : Bool := 0xDC00 ≤ u && u < 0xE000

/-- The code units of a character. -/
def ofChar (c : Char) : List UInt16 :=
  if c.toNat < 0x10000 then [UInt16.ofNat c.toNat]
  else
    [UInt16.ofNat (0xD800 + (c.toNat - 0x10000) / 0x400),
      UInt16.ofNat (0xDC00 + (c.toNat - 0x10000) % 0x400)]

/-- The character that a pair of surrogates stands for. -/
def charOfPair (high low : UInt16) : Char :=
  Char.ofNat (0x10000 + (high.toNat - 0xD800) * 0x400 + (low.toNat - 0xDC00))

/-- The code units of a text. -/
def encode (cs : List Char) : List UInt16 := cs.flatMap ofChar

/-- The text of a sequence of code units; `none` if a surrogate is out of place. -/
def decode? : List UInt16 → Option (List Char)
  | [] => some []
  | [u] => if isHigh u || isLow u then none else some [Char.ofNat u.toNat]
  | u :: v :: us =>
    if isHigh u then
      if isLow v then (decode? us).map (charOfPair u v :: ·) else none
    else if isLow u then none
    else (decode? (v :: us)).map (Char.ofNat u.toNat :: ·)

end Tandem.Utf16
