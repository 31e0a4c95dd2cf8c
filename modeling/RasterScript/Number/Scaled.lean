import RasterScript.Number.Decimal

/-!
# Decimals by scaling

The quick way from a decimal to a 64 bit number. The leading digits, as many as a 64 bit word holds,
are rounded to a 64 bit number, and that is multiplied or divided by a power of ten which is a
64 bit number as well.

Each of the three roundings is to nearest, but together they may end up next to the number that is
nearest to the decimal.
-/

namespace RasterScript

namespace Decimal

/--
Goes on reading digits as long as the value fits in 64 bits: the value, and the digits from the
first one on that would not fit.
-/
def fill (value : Nat) : List Char → Nat × List Char
  | [] => (value, [])
  | digit :: rest =>
    let next := 10 * value + (digit.toNat - '0'.toNat)
    if next < 0x10000000000000000 then fill next rest else (value, digit :: rest)

/--
The decimal of the leading digits before and after a point. A digit before the point that does not
fit still counts as a place; one after the point does not.
-/
def ofLeading (negative : Bool) (whole fraction : List Char) (exponent : Int) : Decimal :=
  let (value, left) := fill 0 whole
  let (value, unread) := fill value fraction
  ⟨negative, value, exponent + left.length - (fraction.length - unread.length : Nat)⟩

/-- The largest power of ten that is a finite 64 bit number. -/
def maxTenPower : Nat := 308

/-- Ten to some power of at most `maxTenPower`, as a 64 bit pattern. -/
def tenPower (power : Nat) : Nat := BinaryFormat.double.nearest (Nat.pow 10 power) 1

/-- A finite 64 bit pattern divided by ten to some power, in as many steps as that takes. -/
def divideByTen (pattern power : Nat) : Nat :=
  if power ≤ maxTenPower then BinaryFormat.double.divide pattern (tenPower power)
  else
    divideByTen (BinaryFormat.double.divide pattern (tenPower maxTenPower)) (power - maxTenPower)
termination_by power
decreasing_by simp only [maxTenPower] at *; omega

/-- The 64 bit pattern of a decimal by scaling, sign aside; `infinity` if it is too large. -/
def scaledPattern (d : Decimal) : Nat :=
  let start := BinaryFormat.double.nearest d.digits 1
  if d.exponent < 0 then divideByTen start d.exponent.natAbs
  else if d.digits = 0 then 0
  else if maxTenPower < d.exponent.natAbs then BinaryFormat.double.infinity
  else BinaryFormat.double.multiply start (tenPower d.exponent.natAbs)

/-- The 64 bit number of a decimal by scaling, unless it is too large. -/
def scaled? (d : Decimal) : Option Float :=
  if scaledPattern d < BinaryFormat.double.infinity then
    some (Double.ofPattern d.negative (scaledPattern d))
  else none

end Decimal

end RasterScript
