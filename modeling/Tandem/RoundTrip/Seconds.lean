/-!
# Durations in seconds

Times are counted in nanoseconds.  `toSeconds` gives the number of seconds in floating point, and
`ofSeconds` goes back: the exact value of a finite, non-negative floating-point number is rounded to
the nearest nanosecond, a half to the even neighbour.
-/

namespace Tandem.Duration

/-- The number of nanoseconds in a second. -/
def perSecond : Nat := 1000000000

/-- Seconds in floating point: the whole ones and the rest are converted separately. -/
def toSeconds (ns : Nat) : Float :=
  Float.ofNat (ns / perSecond) + Float.ofNat (ns % perSecond) / Float.ofNat perSecond

/-- The quotient rounded to the nearest number, a half to the even one. -/
def roundDiv (num den : Nat) : Nat :=
  let q := num / den
  let twice := 2 * (num % den)
  if twice < den then q
  else if den < twice then q + 1
  else q + q % 2

/-- A finite, non-negative floating-point number as `significand * 2 ^ exponent`. -/
def parts (x : Float) : Nat × Int :=
  let bits := x.toBits.toNat
  let exponent : Nat := (bits >>> 52) % (1 <<< 11)
  let fraction := bits % (1 <<< 52)
  -- only normal numbers have a leading one that is not written
  if exponent = 0 then (fraction, -1074) else ((1 <<< 52) + fraction, (exponent : Int) - 1075)

/-- Nanoseconds from seconds in floating point. -/
def ofSeconds (x : Float) : Nat :=
  let (significand, exponent) := parts x
  if 0 ≤ exponent then (significand * perSecond) <<< exponent.toNat
  else roundDiv (significand * perSecond) (1 <<< (-exponent).toNat)

end Tandem.Duration
