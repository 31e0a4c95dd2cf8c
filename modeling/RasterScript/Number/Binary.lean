/-!
# Binary floating-point formats

A finite value of a binary format is a whole number of *units*, the unit being the least positive
value the format holds. Counting in units turns reading and printing a number into arithmetic on
natural numbers, with nothing approximate about it.

`units` says what a bit pattern denotes and `nearest` goes the other way: it rounds any ratio of
naturals to the closest pattern, an exact half going to the even neighbour. Products and quotients
of patterns are exact ratios rounded once. Signs are kept apart; a pattern here is a bit pattern
without its sign bit.
-/

namespace RasterScript

/-- The shape of a binary floating-point format. -/
structure BinaryFormat where
  /-- Significant bits of a normal number, the leading one included. -/
  precision : Nat
  /-- The unit is two to the power `-unitPower`. -/
  unitPower : Nat
  /-- The pattern of infinity. Patterns above it are not numbers, those below it are finite. -/
  infinity : Nat

namespace BinaryFormat

/-- Numbers of 32 bits. -/
def single : BinaryFormat := ⟨24, 149, 0x7f800000⟩

/-- Numbers of 64 bits. -/
def double : BinaryFormat := ⟨53, 1074, 0x7ff0000000000000⟩

/-- How many patterns share one exponent. -/
def binade (format : BinaryFormat) : Nat := Nat.pow 2 (format.precision - 1)

/--
The value of a finite pattern, in units. The patterns of the first binade count units one by one;
each later binade doubles the step.
-/
def units (format : BinaryFormat) (pattern : Nat) : Nat :=
  let exponent := pattern / format.binade
  let fraction := pattern % format.binade
  if exponent = 0 then fraction else (fraction + format.binade) * Nat.pow 2 (exponent - 1)

/-- The natural number closest to `numerator / denominator`, an exact half going to the even one. -/
def roundEven (numerator denominator : Nat) : Nat :=
  let whole := numerator / denominator
  let rest := numerator % denominator
  if 2 * rest < denominator then whole
  else if denominator < 2 * rest then whole + 1
  else whole + whole % 2

/--
The pattern closest to `numerator / denominator`. `shift` is the number of binades above the first,
so that the rounded quotient has at most `precision` bits; one that rounds up to the next power of
two carries into the exponent by itself. Values past the largest finite one become infinite.
-/
def nearest (format : BinaryFormat) (numerator denominator : Nat) : Nat :=
  let scaled := numerator * Nat.pow 2 format.unitPower
  let shift := (scaled / denominator).log2 + 1 - format.precision
  min (shift * format.binade + roundEven scaled (denominator * Nat.pow 2 shift)) format.infinity

/-- The product of two finite patterns. -/
def multiply (format : BinaryFormat) (a b : Nat) : Nat :=
  format.nearest (format.units a * format.units b)
    (Nat.pow 2 format.unitPower * Nat.pow 2 format.unitPower)

/-- The quotient of two finite patterns, the second of which is not zero. -/
def divide (format : BinaryFormat) (a b : Nat) : Nat :=
  format.nearest (format.units a) (format.units b)

end BinaryFormat

end RasterScript
