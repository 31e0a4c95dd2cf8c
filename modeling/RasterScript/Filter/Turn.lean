import RasterScript.Image

/-!
# Flips and turns

The seven rearrangements of whole pixels, and turning by any other angle. Turns are
counter-clockwise. A turn by an angle that is no quarter samples the source between its pixels and
fills what it leaves uncovered with white.
-/

namespace RasterScript

namespace Turn

/-- Left and right exchanged. -/
def flipHorizontal (image : Image) : Image :=
  Image.generate image.bounds fun x y => image.pixel (image.width - 1 - x) y

/-- Top and bottom exchanged. -/
def flipVertical (image : Image) : Image :=
  Image.generate image.bounds fun x y => image.pixel x (image.height - 1 - y)

/-- A quarter turn. -/
def rotate90 (image : Image) : Image :=
  Image.generate image.bounds.swapped fun x y => image.pixel (image.width - 1 - y) x

/-- A half turn. -/
def rotate180 (image : Image) : Image :=
  Image.generate image.bounds fun x y =>
    image.pixel (image.width - 1 - x) (image.height - 1 - y)

/-- Three quarter turns. -/
def rotate270 (image : Image) : Image :=
  Image.generate image.bounds.swapped fun x y => image.pixel y (image.height - 1 - x)

/-- Reflected across the main diagonal. -/
def transpose (image : Image) : Image :=
  Image.generate image.bounds.swapped fun x y => image.pixel y x

/-- Reflected across the other diagonal. -/
def transverse (image : Image) : Image :=
  Image.generate image.bounds.swapped fun x y =>
    image.pixel (image.width - 1 - y) (image.height - 1 - x)

/-- How many quarter turns an angle comes to, if it is within a hair of a whole number of them. -/
def quarters? (degrees : Float32) : Option Nat :=
  let r := Single.remainder degrees 360
  ((List.range 5).find? fun k => (r - (UInt32.ofNat k).toFloat32 * 90).abs < 1e-4).map (· % 4)

/-! ## Other angles -/

/-- The ratio of a circle's circumference to its diameter. -/
def pi : Float := 3.14159265358979323846264338327950288

/-- An angle in radians. -/
def radians (degrees : Float32) : Float := Single.widen degrees * (pi / 180)

/-- The smaller of two numbers. -/
def lesser (a b : Float) : Float := if b < a then b else a

/-- The larger of two numbers. -/
def larger (a b : Float) : Float := if a < b then b else a

/-- Half the distance between the centres of the first and the last of `n` pixels. -/
def halfSpan (n : Nat) : Float := n.toFloat / 2 - 0.5

/-- The number of pixels that cover a length between centres; a sliver of a tenth is left out. -/
def side (length : Float) : Int :=
  let n := length + 1
  let whole := Double.floor n
  if 0.1 < n - Float.ofInt whole then whole + 1 else whole

/-- The size of the image after a turn by any angle. -/
def rotatedBounds (src : Bounds) (degrees : Float32) : Bounds :=
  if src.isEmpty then Bounds.empty
  else
    let angle := radians degrees
    let (s, c) := (angle.sin, angle.cos)
    let (x, y) := (halfSpan src.width, halfSpan src.height)
    let across (px py : Float) : Float := c * px - s * py
    let down (px py : Float) : Float := s * px + c * py
    let extent (f : Float → Float → Float) : Float :=
      let (a, b, u, v) := (f (-x) (-y), f (-x) y, f x (-y), f x y)
      larger (larger a b) (larger u v) - lesser (lesser a b) (lesser u v)
    Bounds.ofInts (side (extent across)) (side (extent down))

/-- The pixel at signed coordinates, white outside the image. -/
def pixelOrWhite (image : Image) (x y : Int) : Pixel :=
  if x < 0 ∨ y < 0 ∨ (image.width : Int) ≤ x ∨ (image.height : Int) ≤ y then Pixel.white
  else image.pixel x.toNat y.toNat

/-- The image at a point between four pixels, each weighted by how close it is. -/
def sample (image : Image) (x y : Float) : Pixel :=
  let (x0, y0) := (Double.floor x, Double.floor y)
  let (fx, fy) := (x - Float.ofInt x0, y - Float.ofInt y0)
  let (p, q) := (pixelOrWhite image x0 y0, pixelOrWhite image (x0 + 1) y0)
  let (r, s) := (pixelOrWhite image x0 (y0 + 1), pixelOrWhite image (x0 + 1) (y0 + 1))
  let channel (get : Pixel → UInt8) : UInt8 :=
    Double.toByte
      ((get p).toFloat * ((1 - fx) * (1 - fy)) + (get q).toFloat * (fx * (1 - fy)) +
        (get r).toFloat * ((1 - fx) * fy) + (get s).toFloat * (fx * fy))
  ⟨channel Pixel.red, channel Pixel.green, channel Pixel.blue, channel Pixel.alpha⟩

/-- The image turned by any angle about its centre. -/
def rotate (image : Image) (degrees : Float32) : Image :=
  let angle := radians degrees
  let (s, c) := (angle.sin, angle.cos)
  let dst := rotatedBounds image.bounds degrees
  let (dx, dy) := (halfSpan dst.width, halfSpan dst.height)
  let (sx, sy) := (halfSpan image.width, halfSpan image.height)
  Image.generate dst fun x y =>
    let (px, py) := (x.toFloat - dx, y.toFloat - dy)
    sample image (c * px - s * py + sx) (s * px + c * py + sy)

end Turn

end RasterScript
