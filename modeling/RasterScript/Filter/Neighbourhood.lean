import RasterScript.Image
import RasterScript.Operation.Basic

/-!
# Local statistics

Each channel of a pixel becomes a statistic of that channel over a disk around the pixel. Places
outside the image are left out, so the disk is smaller near the border.
-/

namespace RasterScript

namespace Neighbourhood

/--
The diameter of the disk: an even size counts as the odd one below. Below the least size is, in 32
bits, the greatest.
-/
def diameter (size : Int32) : Int :=
  if size.toInt % 2 = 0 then (size - 1).toInt else size.toInt

/-- The whole numbers from `-reach` to `reach`. -/
def span (reach : Nat) : List Int :=
  (List.range (2 * reach + 1)).map fun (i : Nat) => (i : Int) - reach

/--
The offsets from the centre of a disk to its points, as far as they can meet a `width` by `height`
image at all.
-/
def disk (radius width height : Nat) : List (Int × Int) :=
  (span (min radius (height - 1))).flatMap fun dy =>
    ((span (min radius (width - 1))).filter fun dx =>
      dx * dx + dy * dy ≤ (radius : Int) * radius).map fun dx => (dx, dy)

/-- The pixel at signed coordinates, if it is inside the image. -/
def pixel? (image : Image) (x y : Int) : Option Pixel :=
  if 0 ≤ x ∧ 0 ≤ y ∧ x < image.width ∧ y < image.height then some (image.pixel x.toNat y.toNat)
  else none

/-- The pixels of the image at the given offsets from `(x, y)`. -/
def gather (image : Image) (offsets : List (Int × Int)) (x y : Nat) : List Pixel :=
  offsets.filterMap fun (dx, dy) => pixel? image (x + dx) (y + dy)

/-- The least of some values. -/
def least : List UInt8 → UInt8
  | [] => 0
  | value :: values => values.foldl (fun a b => if b < a then b else a) value

/-- The greatest of some values. -/
def greatest : List UInt8 → UInt8
  | [] => 0
  | value :: values => values.foldl (fun a b => if a < b then b else a) value

/-- The average of some values, a half going up. The sum is kept in 32 bits. -/
def mean (values : List UInt8) : UInt8 :=
  let sum := values.foldl (fun (sum : UInt32) value => sum + value.toUInt32) 0
  let count := UInt32.ofNat values.length
  ((sum + count / 2) / count).toUInt8

/-- The value in the middle of the sorted values, of two such the greater. -/
def median (values : List UInt8) : UInt8 :=
  (values.mergeSort fun a b => a ≤ b).getD (values.length / 2) 0

/-- The statistic of some values. -/
def reduce : Statistic → List UInt8 → UInt8
  | .minimum => least
  | .maximum => greatest
  | .mean => mean
  | .median => median

/-- The image of local statistics. A disk of less than three pixels across changes nothing. -/
def filter (image : Image) (statistic : Statistic) (size : Int32) : Image :=
  if diameter size < 3 then image
  else
    let offsets := disk (diameter size / 2).toNat image.width image.height
    Image.generate image.bounds fun x y =>
      let pixels := gather image offsets x y
      let channel (get : Pixel → UInt8) : UInt8 := reduce statistic (pixels.map get)
      ⟨channel Pixel.red, channel Pixel.green, channel Pixel.blue, channel Pixel.alpha⟩

end Neighbourhood

end RasterScript
