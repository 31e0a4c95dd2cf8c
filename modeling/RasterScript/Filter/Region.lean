import RasterScript.Image

/-!
# Regions and blocks

Cutting a rectangle out of an image, and averaging an image over square blocks.
-/

namespace RasterScript

namespace Region

/-- The part of the image inside the rectangle spanned by two corners, if there is any. -/
def crop? (src : Bounds) (x1 y1 x2 y2 : Int32) : Option Rect :=
  (Rect.ofCorners x1.toInt y1.toInt x2.toInt y2.toInt).intersect? (Rect.ofBounds src)

/-- A centred region at most `width` by `height`; sizes that are not positive have none. -/
def centred? (src : Bounds) (width height : Int) : Option Rect :=
  if width ≤ 0 ∨ height ≤ 0 ∨ src.isEmpty then none
  else
    let w := min width src.width
    let h := min height src.height
    let x0 := (src.width - w) / 2
    let y0 := (src.height - h) / 2
    some ⟨x0, y0, x0 + w, y0 + h⟩

/-- The size of a region that may not be there. -/
def bounds (region : Option Rect) : Bounds :=
  match region with
  | some rect => rect.bounds
  | none => Bounds.empty

/-- The pixels of a rectangle inside the image. -/
def cut (image : Image) (rect : Rect) : Image :=
  Image.generate rect.bounds fun x y => image.pixel (rect.x0.toNat + x) (rect.y0.toNat + y)

/-- The pixels of a region; without one, an image without pixels. -/
def cut? (image : Image) (region : Option Rect) : Image :=
  match region with
  | some rect => cut image rect
  | none => Image.blank Bounds.empty

end Region

namespace Block

/-- The sum of `f` at the places `0` to `n - 1`. -/
def sumTo (n : Nat) (f : Nat → Nat) : Nat := (List.range n).foldl (fun sum i => sum + f i) 0

/-- The average of one channel over a block, a half going up. -/
def averageChannel (image : Image) (x y width height : Nat) (get : Pixel → UInt8) : UInt8 :=
  let count := width * height
  let sum := sumTo height fun j => sumTo width fun i => (get (image.pixel (x + i) (y + j))).toNat
  UInt8.ofNat ((sum + count / 2) / count)

/-- The average of the block at place `(i, j)`, which the border may cut short. -/
def average (image : Image) (size i j : Nat) : Pixel :=
  let x := i * size
  let y := j * size
  let width := min size (image.width - x)
  let height := min size (image.height - y)
  let channel := averageChannel image x y width height
  ⟨channel Pixel.red, channel Pixel.green, channel Pixel.blue, channel Pixel.alpha⟩

/-- The averages of all blocks, as an image with one pixel for each. -/
def averages (image : Image) (size : Nat) : Image :=
  Image.generate
    (Bounds.ofInts ((image.width + size - 1) / size : Nat) ((image.height + size - 1) / size : Nat))
    (average image size)

/-- Fills every block with its average. Blocks of one pixel or less change nothing. -/
def pixelate (image : Image) (size : Int32) : Image :=
  if size ≤ 1 then image
  else
    let side := size.toInt.toNat
    let blocks := averages image side
    Image.generate image.bounds fun x y => blocks.pixel (x / side) (y / side)

end Block

end RasterScript
