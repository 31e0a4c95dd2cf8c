import RasterScript.Filter.Region

/-!
# Scaling

How large a scaled image is, and what its pixels are. Scaling resamples with the Lanczos kernel of
three lobes, first along the columns and then along the rows; between the two passes values are
neither rounded nor clamped. All of it is in 32 bit numbers and in the order written.
-/

namespace RasterScript

namespace Scale

/-! ## Sizes -/

/-- The size for a wanted width and height, of which one may be zero to follow the other. -/
def bounds (src : Bounds) (width height : Int32) : Bounds :=
  let (w, h) := (width.toInt, height.toInt)
  if w < 0 ∨ h < 0 ∨ (w = 0 ∧ h = 0) ∨ src.isEmpty then Bounds.empty
  else
    let (sw, sh) := (src.width.toFloat, src.height.toFloat)
    let size :=
      if w = 0 then Bounds.ofInts (sw * h.toNat.toFloat / sh + 0.5).toUInt64.toNat h
      else if h = 0 then Bounds.ofInts w (sh * w.toNat.toFloat / sw + 0.5).toUInt64.toNat
      else Bounds.ofInts w h
    if size.isEmpty then Bounds.empty else size

/-- The largest size of the same shape inside a wanted one; never larger than the source. -/
def fitBounds (src : Bounds) (width height : Int32) : Bounds :=
  let (w, h) := (width.toInt, height.toInt)
  if w ≤ 0 ∨ h ≤ 0 ∨ src.isEmpty then Bounds.empty
  else if src.width ≤ w ∧ src.height ≤ h then src
  else
    let aspect := src.width.toFloat / src.height.toFloat
    let size :=
      if w.toNat.toFloat / h.toNat.toFloat < aspect then
        Bounds.ofInts w (w.toNat.toFloat / aspect + 0.5).toUInt64.toNat
      else Bounds.ofInts (h.toNat.toFloat * aspect + 0.5).toUInt64.toNat h
    if size.isEmpty then Bounds.empty else size

/-- Exactly the wanted size. -/
def fillBounds (src : Bounds) (width height : Int32) : Bounds :=
  if width ≤ 0 ∨ height ≤ 0 ∨ src.isEmpty then Bounds.empty
  else Bounds.ofInts width.toInt height.toInt

/-- The smallest size of the source's shape that covers a wanted size. -/
def cover (src dst : Bounds) : Bounds :=
  let aspect := src.width.toFloat / src.height.toFloat
  if aspect < dst.width.toFloat / dst.height.toFloat then
    Bounds.ofInts dst.width
      (max (dst.width.toFloat / aspect + 0.5).toUInt32.toNat dst.height : Nat)
  else
    Bounds.ofInts (max (dst.height.toFloat * aspect + 0.5).toUInt32.toNat dst.width : Nat)
      dst.height

/-! ## Resampling -/

/-- The ratio of a circle's circumference to its diameter. -/
def pi : Float32 := 3.14159265358979323846264338327950288

/-- The normalised cardinal sine. -/
def sinc (t : Float32) : Float32 := if t == 0 then 1 else (t * pi).sin / (t * pi)

/-- The Lanczos kernel of three lobes. -/
def lanczos (x : Float32) : Float32 := if x.abs < 3 then sinc x * sinc (x / 3) else 0

/-- The places that one resampled value is taken from, and their weights. -/
structure Taps where
  first : Nat
  weights : List Float32

/-- The taps of the value at `place` when `src` values become `dst`. -/
def taps (src dst place : Nat) : Taps :=
  let ratio := (UInt32.ofNat src).toFloat32 / (UInt32.ofNat dst).toFloat32
  let stretch := if ratio < 1 then 1 else ratio
  let support := 3 * stretch
  let centre := ((UInt32.ofNat place).toFloat32 + 0.5) * ratio
  let left := (min (max (Single.floor (centre - support)) 0) (src - 1 : Nat)).toNat
  let right := (min (max (Single.ceil (centre + support)) (left + 1 : Nat)) src).toNat
  let middle := centre - 0.5
  let raw := (List.range (right - left)).map fun i =>
    lanczos (((UInt32.ofNat (left + i)).toFloat32 - middle) / stretch)
  let sum := raw.foldl (fun sum w => sum + w) 0
  ⟨left, raw.map fun w => w / sum⟩

/-- Four channels between the two passes. -/
structure Sample where
  red : Float32
  green : Float32
  blue : Float32
  alpha : Float32

/-- The channels of a pixel as numbers. -/
def Sample.ofPixel (p : Pixel) : Sample :=
  ⟨p.red.toFloat32, p.green.toFloat32, p.blue.toFloat32, p.alpha.toFloat32⟩

/-- The channels as bytes. -/
def Sample.toPixel (s : Sample) : Pixel :=
  let channel (x : Float32) : UInt8 := Single.toByte (Single.clamp x 0 255)
  ⟨channel s.red, channel s.green, channel s.blue, channel s.alpha⟩

/-- The weighted sum of samples, from the first tap to the last. -/
def Taps.sum (t : Taps) (sampleAt : Nat → Sample) : Sample :=
  (t.weights.zipIdx t.first).foldl
    (fun sum (w, i) =>
      let s := sampleAt i
      ⟨sum.red + s.red * w, sum.green + s.green * w, sum.blue + s.blue * w,
        sum.alpha + s.alpha * w⟩)
    ⟨0, 0, 0, 0⟩

/-- The pass along the columns: `height` rows of samples, one after the other. -/
def columnPass (image : Image) (height : Nat) : Array Sample :=
  let rows := (Array.range height).map (taps image.height height)
  rows.flatMap fun t =>
    (Array.range image.width).map fun x => t.sum fun y => Sample.ofPixel (image.pixel x y)

/-- The whole image resampled to another size. -/
def resample (image : Image) (dst : Bounds) : Image :=
  if image.bounds = dst then image
  else
    let samples := columnPass image dst.height
    let across := (Array.range dst.width).map (taps image.width dst.width)
    Image.generate dst fun x y =>
      let t := across.getD x ⟨0, []⟩
      Sample.toPixel (t.sum fun i => samples.getD (y * image.width + i) ⟨0, 0, 0, 0⟩)

end Scale

end RasterScript
