import RasterScript.Error
import RasterScript.Filter.Blur
import RasterScript.Filter.Color
import RasterScript.Filter.Convolve
import RasterScript.Filter.Neighbourhood
import RasterScript.Filter.Scale
import RasterScript.Filter.Turn

/-!
# Applying operations

`Operation.bounds` says how large the result of an operation is, and `Operation.apply` computes it.
The caller announces the size it expects, and a wrong one is refused before any work is done.
-/

namespace RasterScript

namespace Operation

/-- The size of an operation's result. -/
def bounds (op : Operation) (src : Bounds) : Bounds :=
  match op with
  | crop x1 y1 x2 y2 => Region.bounds (Region.crop? src x1 y1 x2 y2)
  | cropToSize width height => Region.bounds (Region.centred? src width.toInt height.toInt)
  | resize width height => Scale.bounds src width height
  | resizeToFill width height => Scale.fillBounds src width height
  | resizeToFit width height => Scale.fitBounds src width height
  | rotate90 | rotate270 | transpose | transverse => src.swapped
  | rotate degrees =>
    match Turn.quarters? degrees with
    | some 1 | some 3 => src.swapped
    | some _ => src
    | none => Turn.rotatedBounds src degrees
  | _ => src

/-- The image turned by a number of quarters. -/
def turnQuarters (image : Image) : Nat → Image
  | 0 => image
  | 1 => Turn.rotate90 image
  | 2 => Turn.rotate180 image
  | _ => Turn.rotate270 image

/-- Scales to cover a size and keeps the centre. -/
def fill (image : Image) (dst : Bounds) : Except Error Image :=
  let cover := Scale.cover image.bounds dst
  if cover.isAllocatable then
    .ok (Region.cut? (Scale.resample image cover) (Region.centred? cover dst.width dst.height))
  else .error (.render (.coverTooLarge cover))

/-- A flip or a turn, for a destination that must have its size. -/
def rearrange (result : Image) (dst : Bounds) : Except Error Image :=
  if result.bounds = dst then .ok result else .error (.render .dimensions)

/-- Whether an image and the weights for it are fit for a blur. -/
def checkBlur (image : Image) (sigma : Float32) : Except Error Unit :=
  match image.bounds.byteLength? with
  | none => .error (.render .blurOverflow)
  | some length =>
    if image.pixels.size * 4 ≠ length then .error (.render .blurLength)
    else if Blur.isEffective sigma ∧ Blur.total (Blur.heights sigma) = 0 then
      .error (.render .blurWeights)
    else .ok ()

/-- The result of an operation that has pixels, for a destination of an announced size. -/
def transform (op : Operation) (image : Image) (dst : Bounds) : Except Error Image :=
  match op with
  | blur sigma => (checkBlur image sigma).map fun _ => Blur.blur image sigma
  | crop x1 y1 x2 y2 => .ok (Region.cut? image (Region.crop? image.bounds x1 y1 x2 y2))
  | cropToSize width height =>
    .ok (Region.cut? image (Region.centred? image.bounds width.toInt height.toInt))
  | edge => .ok (Convolve.weigh image Convolve.edgeWeights)
  | emboss => .ok (Convolve.weigh image Convolve.embossWeights)
  | flipHorizontal => rearrange (Turn.flipHorizontal image) dst
  | flipVertical => rearrange (Turn.flipVertical image) dst
  | neighbourhood statistic size => .ok (Neighbourhood.filter image statistic size)
  | pixelate size => .ok (Block.pixelate image size)
  | resize width height => .ok (Scale.resample image (Scale.bounds image.bounds width height))
  | resizeToFit width height =>
    .ok (Scale.resample image (Scale.fitBounds image.bounds width height))
  | resizeToFill width height => fill image (Scale.fillBounds image.bounds width height)
  | rotate90 => rearrange (Turn.rotate90 image) dst
  | rotate180 => rearrange (Turn.rotate180 image) dst
  | rotate270 => rearrange (Turn.rotate270 image) dst
  | rotate degrees =>
    match Turn.quarters? degrees with
    | some 0 => .ok image
    | some turns => rearrange (turnQuarters image turns) dst
    | none => .ok (Turn.rotate image degrees)
  | sobel => .ok (Convolve.sobel image)
  | transpose => .ok (Turn.transpose image)
  | transverse => .ok (Turn.transverse image)
  | unsharpMask sigma amount level =>
    (checkBlur image sigma).map fun _ => Blur.unsharp image sigma amount level
  | brightness _ | colorBalance _ _ _ | colorize _ _ _ | colorspace _ | contrast _ | gamma _
  | grayscale | hue _ | invert | opacity _ | saturation _ | sepia _ | sigmoid _ _
  | threshold _ => .ok (image.map ((Color.adjust? op).getD id))

/-- Applies an operation to an image, for a destination of an announced size. -/
def apply (op : Operation) (image : Image) (dst : Bounds) : Except Error Image :=
  let expected := op.bounds image.bounds
  if dst ≠ expected then .error (.render (.destination op.kind.command dst expected))
  else if expected.isEmpty then .ok (Image.blank expected)
  else op.transform image dst

end Operation

end RasterScript
