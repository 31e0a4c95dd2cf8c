import RasterScript.Image

/-!
# Gaussian blur

The blur is separable: one pass along the rows and one along the columns, each an average under
whole-number weights that add up to 65536. Places outside the image repeat its border.

The weights are computed from the Gaussian in fixed point with 128 bits behind the point, far finer
than the rounding that follows, so they do not depend on any library's exponential.
-/

namespace RasterScript

namespace Blur

/-- The number 1 in fixed point. -/
def one : Nat := 0x100000000000000000000000000000000

/-- The series of `exp (-t)` from its `n`th term on, divided by the term before. -/
def series (t : Nat) : (terms n : Nat) → Nat
  | 0, _ => one
  | terms + 1, n => one - t * series t terms (n + 1) / (n * one)

/-- Squares a fixed-point number repeatedly. -/
def squares (x : Nat) : (times : Nat) → Nat
  | 0 => x
  | times + 1 => squares (x * x / one) times

/--
`exp (-t)` in fixed point. The argument is divided by 4096 for the series and the result is squared
twelve times. From 64 on the result is less than any weight can show, and zero stands for it.
-/
def expNeg (t : Nat) : Nat :=
  if 64 * one ≤ t then 0 else squares (series (t / 4096) 20 1) 12

/-- The height of the Gaussian at a distance from its centre, for `sigma` in units of its format. -/
def height (sigma distance : Nat) : Nat :=
  expNeg (distance * distance * Nat.pow 2 (2 * BinaryFormat.single.unitPower) * one /
    (2 * sigma * sigma))

/-- The reach of the blur: three sigmas rounded up, at most 512. -/
def radius (sigma : Float32) : Nat :=
  let reach := sigma * 3
  if 512 ≤ reach then 512 else (Single.ceil reach).toNat

/-- The sum of some weights. -/
def total (weights : List Nat) : Nat := weights.foldr (fun weight sum => weight + sum) 0

/-- The share of one weight in 65536, rounded with halves going up. -/
def share (whole weight : Nat) : Nat := min ((2 * weight * 65536 + whole) / (2 * whole)) 65536

/-- The heights of the Gaussian at every place within reach, from one end to the other. -/
def heights (sigma : Float32) : List Nat :=
  let scale := BinaryFormat.single.units (Single.pattern sigma)
  let half := (List.range (radius sigma + 1)).map (height scale)
  half.tail.reverse ++ half

/--
The weights of a blur from one end to the other. What rounding has left over, or taken too much of,
is settled with the centre weight as far as that can go.
-/
def kernel (sigma : Float32) : List Nat :=
  let heights := heights sigma
  let shares := heights.map (share (total heights))
  let excess : Int := 65536 - total shares
  shares.modify (radius sigma) fun centre => (min (max ((centre : Int) + excess) 0) 65536).toNat

/-- A sum of weighted bytes, each in parts of 65536, as a byte. -/
def toByte (sum : Nat) : UInt8 := UInt8.ofNat (min ((sum + 32768) / 65536) 255)

/-- Sums of the four channels. -/
structure Sums where
  red : Nat
  green : Nat
  blue : Nat
  alpha : Nat

/-- The weighted average of the pixels `at 0`, `at 1` and so on. -/
def average (weights : List Nat) (pixelAt : Nat → Pixel) : Pixel :=
  let sums := weights.zipIdx.foldl
    (fun (sums : Sums) (weight, i) =>
      let p := pixelAt i
      { red := sums.red + weight * p.red.toNat, green := sums.green + weight * p.green.toNat,
        blue := sums.blue + weight * p.blue.toNat, alpha := sums.alpha + weight * p.alpha.toNat })
    ⟨0, 0, 0, 0⟩
  ⟨toByte sums.red, toByte sums.green, toByte sums.blue, toByte sums.alpha⟩

/-- Averages along the rows. -/
def rows (image : Image) (weights : List Nat) : Image :=
  let reach := weights.length / 2
  Image.generate image.bounds fun x y =>
    average weights fun i => image.pixel (min (x + i - reach) (image.width - 1)) y

/-- Averages along the columns. -/
def columns (image : Image) (weights : List Nat) : Image :=
  let reach := weights.length / 2
  Image.generate image.bounds fun x y =>
    average weights fun i => image.pixel x (min (y + i - reach) (image.height - 1))

/-- Whether a blur changes anything: only a positive finite sigma does. -/
def isEffective (sigma : Float32) : Bool := sigma.isFinite && !decide (sigma ≤ 0)

/-- The blurred image. -/
def blur (image : Image) (sigma : Float32) : Image :=
  if isEffective sigma then
    let weights := kernel sigma
    columns (rows image weights) weights
  else image

/--
Sharpens by adding a multiple of the difference to the blurred image, wherever that difference
reaches a threshold between 0 and 1.
-/
def unsharp (image : Image) (sigma amount threshold : Float32) : Image :=
  let blurred := blur image sigma
  let level := Single.max threshold 0 * 255
  let channel (sharp smooth : UInt8) : UInt8 :=
    let difference := sharp.toFloat32 - smooth.toFloat32
    if level ≤ difference.abs then
      Single.toByte (sharp.toFloat32 + difference * amount)
    else sharp
  Image.generate image.bounds fun x y =>
    let p := image.pixel x y
    let q := blurred.pixel x y
    ⟨channel p.red q.red, channel p.green q.green, channel p.blue q.blue, p.alpha⟩

end Blur

end RasterScript
