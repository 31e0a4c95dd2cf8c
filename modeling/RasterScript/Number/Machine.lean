import RasterScript.Number.Binary

/-!
# Machine numbers by sign and pattern

`Single` and `Double` take 32 and 64 bit machine numbers apart into a sign and a pattern and put
them together again. Conversions between the two widths, truncation, floor, rounding to a byte and
the Euclidean remainder are all exact here, by whole-number arithmetic on patterns.
-/

namespace RasterScript

namespace Single

/-- The bit pattern without its sign. -/
def pattern (x : Float32) : Nat := x.toBits.toNat % 0x80000000

/-- Whether the sign bit is set. -/
def isNegative (x : Float32) : Bool := 0x80000000 ≤ x.toBits.toNat

/-- The number with the given sign and pattern. -/
def ofPattern (negative : Bool) (pattern : Nat) : Float32 :=
  Float32.ofBits (UInt32.ofNat (if negative then pattern + 0x80000000 else pattern))

/-- The quotient of two naturals, rounded once. -/
def ofRatio (negative : Bool) (numerator denominator : Nat) : Float32 :=
  ofPattern negative (BinaryFormat.single.nearest numerator denominator)

/-- The larger operand; a NaN gives way to the other one. -/
def max (a b : Float32) : Float32 :=
  if a.isNaN then b else if b.isNaN then a else if a < b then b else a

/-- The smaller operand; a NaN gives way to the other one. -/
def min (a b : Float32) : Float32 :=
  if a.isNaN then b else if b.isNaN then a else if b < a then b else a

/-- `x` moved into `lo ≤ x ≤ hi`. A NaN stays a NaN. -/
def clamp (x lo hi : Float32) : Float32 :=
  let raised := if x < lo then lo else x
  if hi < raised then hi else raised

/-- The greatest whole number that is not above `x`, for `x` within 64 bits. -/
def floor (x : Float32) : Int :=
  if x < 0 then
    let size := (-x).toUInt64
    if size.toFloat32 < -x then -((size.toNat : Int) + 1) else -(size.toNat : Int)
  else x.toUInt64.toNat

/-- The least whole number that is not below `x`, for `x` within 64 bits. -/
def ceil (x : Float32) : Int := -(floor (-x))

/-- `x` rounded to a byte, a half going up; below the range gives 0, above it 255, NaN 0. -/
def toByte (x : Float32) : UInt8 :=
  let whole := x.toUInt32
  if 255 ≤ whole then 255
  else if 0.5 ≤ x - whole.toFloat32 then whole.toUInt8 + 1
  else whole.toUInt8

/--
The remainder of `x` by a positive finite `modulus`: what is left of `x` after a whole number of
moduli toward zero, raised by one modulus when it is negative.
-/
def remainder (x modulus : Float32) : Float32 :=
  if BinaryFormat.single.infinity ≤ pattern x then 0 / 0
  else
    let left := BinaryFormat.single.units (pattern x) % BinaryFormat.single.units (pattern modulus)
    let signed := ofRatio (isNegative x) left (Nat.pow 2 BinaryFormat.single.unitPower)
    if signed < 0 then signed + modulus else signed

end Single

namespace Double

/-- The bit pattern without its sign. -/
def pattern (x : Float) : Nat := x.toBits.toNat % 0x8000000000000000

/-- Whether the sign bit is set. -/
def isNegative (x : Float) : Bool := 0x8000000000000000 ≤ x.toBits.toNat

/-- The number with the given sign and pattern. -/
def ofPattern (negative : Bool) (pattern : Nat) : Float :=
  Float.ofBits (UInt64.ofNat (if negative then pattern + 0x8000000000000000 else pattern))

/-- The quotient of two naturals, rounded once. -/
def ofRatio (negative : Bool) (numerator denominator : Nat) : Float :=
  ofPattern negative (BinaryFormat.double.nearest numerator denominator)

/-- The greatest whole number that is not above `x`, for `x` within 64 bits. -/
def floor (x : Float) : Int :=
  if x < 0 then
    let size := (-x).toUInt64
    if size.toFloat < -x then -((size.toNat : Int) + 1) else -(size.toNat : Int)
  else x.toUInt64.toNat

/-- `x` rounded to a byte, a half going up; below the range gives 0, above it 255, NaN 0. -/
def toByte (x : Float) : UInt8 :=
  let whole := x.toUInt32
  if 255 ≤ whole then 255
  else if 0.5 ≤ x - whole.toFloat then whole.toUInt8 + 1
  else whole.toUInt8

/-- The nearest 32 bit number. -/
def narrow (x : Float) : Float32 :=
  if BinaryFormat.double.infinity < pattern x then 0 / 0
  else if pattern x = BinaryFormat.double.infinity then
    Single.ofPattern (isNegative x) BinaryFormat.single.infinity
  else
    Single.ofRatio (isNegative x) (BinaryFormat.double.units (pattern x))
      (Nat.pow 2 BinaryFormat.double.unitPower)

end Double

/-- The 64 bit number of the same value. -/
def Single.widen (x : Float32) : Float :=
  if BinaryFormat.single.infinity < pattern x then 0 / 0
  else if pattern x = BinaryFormat.single.infinity then
    Double.ofPattern (isNegative x) BinaryFormat.double.infinity
  else
    Double.ofRatio (isNegative x) (BinaryFormat.single.units (pattern x))
      (Nat.pow 2 BinaryFormat.single.unitPower)

end RasterScript
