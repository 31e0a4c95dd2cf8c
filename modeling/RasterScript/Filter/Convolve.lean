import RasterScript.Image

/-!
# Filters on three by three pixels

Each colour of a pixel is computed from the same colour of the nine pixels around it; places
outside the image repeat its border. Alpha is kept.
-/

namespace RasterScript

namespace Convolve

/-- Weights for nine pixels in row order. -/
abbrev Weights := List Float32

/-- Marks differences from the surroundings. -/
def edgeWeights : Weights := [-1, -1, -1, -1, 8, -1, -1, -1, -1]

/-- Lights the image from one corner. -/
def embossWeights : Weights := [-1, -1, 0, -1, 1, 1, 0, 1, 1]

/-- The horizontal slope. -/
def slopeX : Weights := [-1, 0, 1, -2, 0, 2, -1, 0, 1]

/-- The vertical slope. -/
def slopeY : Weights := [-1, -2, -1, 0, 0, 0, 1, 2, 1]

/-- The nine pixels around `(x, y)` in row order. -/
def window (image : Image) (x y : Nat) : List Pixel :=
  (List.range 9).map fun i =>
    image.pixel (min (x + i % 3 - 1) (image.width - 1)) (min (y + i / 3 - 1) (image.height - 1))

/-- The sum of values times weights, from the first to the last. -/
def weightedSum (weights : Weights) (values : List UInt8) : Float32 :=
  (weights.zip values).foldl (fun sum (weight, value) => sum + weight * value.toFloat32) 0

/-- Computes each colour from nine values of it. -/
def onWindows (image : Image) (f : List UInt8 → Float32) : Image :=
  Image.generate image.bounds fun x y =>
    let around := window image x y
    let channel (get : Pixel → UInt8) : UInt8 := Single.toByte (f (around.map get))
    ⟨channel Pixel.red, channel Pixel.green, channel Pixel.blue, (image.pixel x y).alpha⟩

/-- The image under fixed weights. -/
def weigh (image : Image) (weights : Weights) : Image := onWindows image (weightedSum weights)

/-- The steepness of each colour. -/
def sobel (image : Image) : Image :=
  onWindows image fun values =>
    let dx := weightedSum slopeX values
    let dy := weightedSum slopeY values
    Float32.sqrt (dx * dx + dy * dy)

end Convolve

end RasterScript
