import RasterScript.Number.Decimal

/-!
# Sizes and rectangles

`Bounds` is the size of an image; either side may be zero. Both sides fit in 32 bits, and the type
says so. `Rect` is a rectangle in image space with exclusive ends; its corners are plain integers,
because scripts name corners far outside any image.
-/

namespace RasterScript

/-- The longest side an image can have. -/
def maxSide : Nat := 4294967295

/-- The width and height of an image, in pixels. -/
structure Bounds where
  width : Nat
  height : Nat
  width_le : width ≤ maxSide
  height_le : height ≤ maxSide
deriving DecidableEq

namespace Bounds

/-- The size of the image without pixels. -/
def empty : Bounds := ⟨0, 0, by decide, by decide⟩

/-- A side for a signed length: nothing below zero, nothing above the longest side. -/
def clampSide (length : Int) : Nat := min length.toNat maxSide

theorem clampSide_le (length : Int) : clampSide length ≤ maxSide := Nat.min_le_right ..

/-- The bounds closest to two signed lengths. -/
def ofInts (width height : Int) : Bounds :=
  ⟨clampSide width, clampSide height, clampSide_le width, clampSide_le height⟩

/-- Whether there are no pixels at all. -/
def isEmpty (b : Bounds) : Bool := b.width = 0 ∨ b.height = 0

/-- Width and height exchanged. -/
def swapped (b : Bounds) : Bounds := ⟨b.height, b.width, b.height_le, b.width_le⟩

/-- The number of pixels. -/
def area (b : Bounds) : Nat := b.width * b.height

/-- The length in bytes of the pixels at four bytes each, if 64 bits can count them. -/
def byteLength? (b : Bounds) : Option Nat :=
  if b.area * 4 < 0x10000000000000000 then some (b.area * 4) else none

/-- The largest number of pixels that a step of a render may produce. -/
def maxArea : Nat := 0x10000000

/-- Whether an image of this size may be produced. -/
def isAllocatable (b : Bounds) : Bool := b.area ≤ maxArea

/-- Width and height with a cross between them. -/
def text (b : Bounds) : String := Integer.text b.width ++ "x" ++ Integer.text b.height

end Bounds

/-- The points with `x0 ≤ x < x1` and `y0 ≤ y < y1`. -/
structure Rect where
  x0 : Int
  y0 : Int
  x1 : Int
  y1 : Int
deriving DecidableEq

namespace Rect

/-- The rectangle spanned by two corners in any order. -/
def ofCorners (xa ya xb yb : Int) : Rect := ⟨min xa xb, min ya yb, max xa xb, max ya yb⟩

/-- All points of an image. -/
def ofBounds (b : Bounds) : Rect := ⟨0, 0, b.width, b.height⟩

/-- The points in both rectangles, if there are any. -/
def intersect? (r s : Rect) : Option Rect :=
  let common : Rect := ⟨max r.x0 s.x0, max r.y0 s.y0, min r.x1 s.x1, min r.y1 s.y1⟩
  if common.x1 ≤ common.x0 ∨ common.y1 ≤ common.y0 then none else some common

/-- The size of the rectangle. -/
def bounds (r : Rect) : Bounds := Bounds.ofInts (r.x1 - r.x0) (r.y1 - r.y0)

end Rect

end RasterScript
