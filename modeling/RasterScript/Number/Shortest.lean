import RasterScript.Number.Decimal

/-!
# The shortest decimal of a machine number

A number is written with the fewest significant digits that read back as the same number; of two
such decimals the closer one is taken, and `Tie` says which when both are equally close.

The search asks the reader itself whether a candidate reads back, so what is printed always does:
the last candidate, with every digit of the exact value, is the value itself. `NumberStyle` then
says how the digits are laid out.
-/

namespace RasterScript

/-- Which of two equally close decimals is taken. -/
inductive Tie where
  | upper
  | even
deriving DecidableEq

namespace Shortest

/--
The exact digits of a positive finite pattern: its value is this natural divided by ten to the
power `unitPower`, because a unit is `5 ^ unitPower / 10 ^ unitPower`.
-/
def exactDigits (format : BinaryFormat) (pattern : Nat) : Nat :=
  format.units pattern * Nat.pow 5 format.unitPower

/--
The decimal with the last `dropped` digits left out that reads back, if there is one: the value cut
off at that place, or the next decimal up.
-/
def atPlace? (readsBack : Nat → Int → Bool) (tie : Tie) (unitPower exact dropped : Nat) :
    Option (Nat × Int) :=
  let grid := Nat.pow 10 dropped
  let exponent := (dropped : Int) - unitPower
  let lower := exact / grid
  let rest := exact % grid
  let upperCloser : Bool :=
    if 2 * rest = grid then
      match tie with
      | .upper => true
      | .even => lower % 2 = 1
    else grid < 2 * rest
  match readsBack lower exponent, readsBack (lower + 1) exponent with
  | true, true => some (if upperCloser then lower + 1 else lower, exponent)
  | true, false => some (lower, exponent)
  | false, true => some (lower + 1, exponent)
  | false, false => none

/-- The first of `places` places, from the coarsest down, at which a decimal reads back. -/
def search (readsBack : Nat → Int → Bool) (tie : Tie) (unitPower exact : Nat) :
    (places : Nat) → Nat × Int
  | 0 => (exact, -(unitPower : Int))
  | dropped + 1 =>
    match atPlace? readsBack tie unitPower exact dropped with
    | some found => found
    | none => search readsBack tie unitPower exact dropped

/-- The shortest decimal of a positive finite pattern. -/
def decimal (format : BinaryFormat) (readsBack : Nat → Int → Bool) (tie : Tie) (pattern : Nat) :
    Nat × Int :=
  let exact := exactDigits format pattern
  search readsBack tie format.unitPower exact (Nat.toDigits 10 exact).length

end Shortest

/-- How a finite number is laid out as text. -/
structure NumberStyle where
  /-- Whether a number with this power of ten in front of its first digit is written plainly. -/
  plain : Int → Bool
  /-- Whether a whole number written plainly keeps a point and a zero. -/
  keepsPoint : Bool

namespace NumberStyle

/-- Plain digits whatever the size, and a point only in front of further digits. -/
def bare : NumberStyle := ⟨fun _ => true, false⟩

/-- Plain digits for moderate sizes, always with a point; otherwise one digit and an exponent. -/
def pointed : NumberStyle := ⟨fun power => -6 ≤ power ∧ power ≤ 12, true⟩

/-- Drops the zeros at the end of a run of digits: what is left, and how many were dropped. -/
def trim (digits : List Char) : List Char × Nat :=
  let zeros := (digits.reverse.takeWhile (· = '0')).length
  (digits.take (digits.length - zeros), zeros)

/-- Lays out `digits * 10 ^ exponent` for a positive run of digits without zeros at its end. -/
def layOut (style : NumberStyle) (digits : List Char) (exponent : Int) : List Char :=
  let point := digits.length + exponent
  if style.plain (point - 1) then
    if 0 ≤ exponent then
      digits ++ List.replicate exponent.toNat '0' ++ (if style.keepsPoint then ['.', '0'] else [])
    else if 0 < point then
      digits.take point.toNat ++ '.' :: digits.drop point.toNat
    else
      '0' :: '.' :: List.replicate (-point).toNat '0' ++ digits
  else
    let power := point - 1
    digits.take 1 ++ (if digits.length ≤ 1 then [] else '.' :: digits.drop 1) ++
      'e' :: (if power < 0 then '-' else '+') :: Nat.toDigits 10 power.natAbs

/-- A finite decimal as text. -/
def chars (style : NumberStyle) (d : Decimal) : List Char :=
  let body :=
    if d.digits = 0 then '0' :: (if style.keepsPoint then ['.', '0'] else [])
    else
      let (digits, zeros) := trim (Nat.toDigits 10 d.digits)
      style.layOut digits (d.exponent + zeros)
  if d.negative then '-' :: body else body

end NumberStyle

/-- The shortest decimal that reads back as the finite number `x`. -/
def Single.shortest (tie : Tie) (x : Float32) : Decimal :=
  let readsBack (digits : Nat) (exponent : Int) : Bool :=
    Decimal.pattern ⟨false, digits, exponent⟩ .single = pattern x
  if pattern x = 0 then ⟨isNegative x, 0, 0⟩
  else
    let (digits, exponent) := Shortest.decimal .single readsBack tie (pattern x)
    ⟨isNegative x, digits, exponent⟩

/-- The shortest decimal that reads back as the finite number `x`. -/
def Double.shortest (tie : Tie) (x : Float) : Decimal :=
  let readsBack (digits : Nat) (exponent : Int) : Bool :=
    Decimal.pattern ⟨false, digits, exponent⟩ .double = pattern x
  if pattern x = 0 then ⟨isNegative x, 0, 0⟩
  else
    let (digits, exponent) := Shortest.decimal .double readsBack tie (pattern x)
    ⟨isNegative x, digits, exponent⟩

/-- A number in plain digits, or the words `inf`, `-inf` and `NaN`. -/
def Single.text (x : Float32) : String :=
  if BinaryFormat.single.infinity < pattern x then "NaN"
  else if pattern x = BinaryFormat.single.infinity then (if isNegative x then "-inf" else "inf")
  else String.ofList (NumberStyle.bare.chars (shortest .upper x))

/-- A number in plain digits, or the words `inf`, `-inf` and `NaN`. -/
def Double.text (x : Float) : String :=
  if BinaryFormat.double.infinity < pattern x then "NaN"
  else if pattern x = BinaryFormat.double.infinity then (if isNegative x then "-inf" else "inf")
  else String.ofList (NumberStyle.bare.chars (shortest .upper x))

end RasterScript
