import RasterScript.Number.Machine

/-!
# Decimal numerals

The value of a written number is a `Decimal`: a sign, a run of digits and a power of ten, kept
exactly as written. Rounding happens once, when a decimal is turned into a machine number.

`Numeral` adds the three words that stand for values no digits can write: the two infinities and
NaN. `Integer` covers the whole numbers that sizes and coordinates are made of.
-/

namespace RasterScript

/-- The value of a run of decimal digits, most significant first. -/
def digitsValue (digits : List Char) : Nat :=
  digits.foldl (fun value digit => 10 * value + (digit.toNat - '0'.toNat)) 0

/-- A number written in decimal: plus or minus `digits * 10 ^ exponent`. -/
structure Decimal where
  negative : Bool
  digits : Nat
  exponent : Int
deriving DecidableEq

namespace Decimal

/-- The closest pattern of a binary format, sign aside. -/
def pattern (d : Decimal) (format : BinaryFormat) : Nat :=
  format.nearest (d.digits * Nat.pow 10 d.exponent.toNat) (Nat.pow 10 (-d.exponent).toNat)

/-- The closest 32 bit number. -/
def toSingle (d : Decimal) : Float32 := Single.ofPattern d.negative (d.pattern .single)

/-- The closest 64 bit number. -/
def toDouble (d : Decimal) : Float := Double.ofPattern d.negative (d.pattern .double)

/--
The value of an exponent's digits. It stops growing once it has passed 65536: by then any value
short enough to be written out is zero or infinite.
-/
def exponentValue (digits : List Char) : Nat :=
  digits.foldl
    (fun value digit => if value < 65536 then 10 * value + (digit.toNat - '0'.toNat) else value) 0

/-- Takes an optional sign off the front of a text: whether it was a minus, and what follows. -/
def splitSign : List Char → Bool × List Char
  | '-' :: rest => (true, rest)
  | '+' :: rest => (false, rest)
  | rest => (false, rest)

/-- An exponent that fills the whole text: nothing at all, or `e`, a sign if any, and digits. -/
def exponent? : List Char → Option Int
  | [] => some 0
  | mark :: rest =>
    if mark = 'e' ∨ mark = 'E' then
      let (negative, digits) := splitSign rest
      if digits.isEmpty ∨ ¬ digits.all Char.isDigit then none
      else if negative then some (-(exponentValue digits : Int))
      else some (exponentValue digits)
    else none

/--
An unsigned decimal that fills the whole text. The digits before and after the point may each be
missing, but not both.
-/
def unsigned? (negative : Bool) (text : List Char) : Option Decimal :=
  let whole := text.takeWhile Char.isDigit
  let afterWhole := text.dropWhile Char.isDigit
  let (fraction, rest) :=
    match afterWhole with
    | '.' :: more => (more.takeWhile Char.isDigit, more.dropWhile Char.isDigit)
    | more => ([], more)
  if whole.isEmpty ∧ fraction.isEmpty then none
  else
    (exponent? rest).map fun exponent =>
      ⟨negative, digitsValue (whole ++ fraction), exponent - fraction.length⟩

end Decimal

/-- What a text may denote as a number. -/
inductive Numeral where
  | finite (value : Decimal)
  | infinite (negative : Bool)
  | notANumber
deriving DecidableEq

namespace Numeral

/--
Reads a whole text as a number: an optional sign, then digits, or in any letter case one of the
words `inf`, `infinity` and `nan`.
-/
def ofChars? (text : List Char) : Option Numeral :=
  let (negative, body) := Decimal.splitSign text
  match Decimal.unsigned? negative body with
  | some value => some (finite value)
  | none =>
    let word := body.map Char.toLower
    if word = "inf".toList ∨ word = "infinity".toList then some (infinite negative)
    else if word = "nan".toList then some notANumber
    else none

/-- The closest 32 bit number. -/
def toSingle : Numeral → Float32
  | finite value => value.toSingle
  | infinite negative => Single.ofPattern negative BinaryFormat.single.infinity
  | notANumber => 0 / 0

/-- The closest 64 bit number. -/
def toDouble : Numeral → Float
  | finite value => value.toDouble
  | infinite negative => Double.ofPattern negative BinaryFormat.double.infinity
  | notANumber => 0 / 0

end Numeral

/-- A 32 bit number read leniently: a text that is no number reads as zero. -/
def Single.ofText (text : String) : Float32 :=
  match Numeral.ofChars? text.toList with
  | some numeral => numeral.toSingle
  | none => 0

/-- A 64 bit number read leniently: a text that is no number reads as zero. -/
def Double.ofText (text : String) : Float :=
  match Numeral.ofChars? text.toList with
  | some numeral => numeral.toDouble
  | none => 0

namespace Integer

/-- A whole number that fills the text: an optional sign and at least one digit. -/
def ofChars? (text : List Char) : Option Int :=
  let (negative, digits) := Decimal.splitSign text
  if digits.isEmpty ∨ ¬ digits.all Char.isDigit then none
  else if negative then some (-(digitsValue digits : Int))
  else some (digitsValue digits)

/-- A 32 bit integer, if the value is within its range. -/
def toInt32? (value : Int) : Option Int32 :=
  if -2147483648 ≤ value ∧ value ≤ 2147483647 then some (Int32.ofInt value) else none

/-- Reads a whole text as a 32 bit integer. -/
def ofText? (text : String) : Option Int32 :=
  (ofChars? text.toList).bind toInt32?

/-- A whole number in decimal, with a minus where it is negative. -/
def chars (value : Int) : List Char :=
  if value < 0 then '-' :: Nat.toDigits 10 value.natAbs else Nat.toDigits 10 value.natAbs

/-- A whole number in decimal, as text. -/
def text (value : Int) : String := String.ofList (chars value)

end Integer

end RasterScript
