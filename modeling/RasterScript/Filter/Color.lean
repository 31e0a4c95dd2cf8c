import RasterScript.Image
import RasterScript.Operation.Basic

/-!
# Colour adjustments

A colour adjustment is a function on single pixels. Most of them take all four channels to numbers
from 0 to 1, adjust the colours there and take everything back to bytes, so that alpha goes there
and back without being adjusted; for `opacity` alone it is the colours that do. Nothing is lost on
the way (`toByte_ofByte`). All arithmetic is in 32 bit numbers and in the order written, since the
last bit of a result can decide a byte.
-/

namespace RasterScript

/-- The colours of a pixel on the scale from 0 to 1. -/
structure Rgb where
  r : Float32
  g : Float32
  b : Float32

namespace Color

/-- A byte on the scale from 0 to 1. -/
def ofByte (v : UInt8) : Float32 := v.toFloat32 / 255

/-- The byte closest to a value on the scale from 0 to 1. -/
def toByte (x : Float32) : UInt8 := Single.toByte (Single.clamp x 0 1 * 255)

/-- There are few enough bytes to try: each of them is the byte closest to its own value. -/
@[simp] theorem toByte_ofByte (v : UInt8) : toByte (ofByte v) = v := by
  have hall : ∀ i : Fin 256, toByte (ofByte (UInt8.ofFin i)) = UInt8.ofFin i := by decide +kernel
  exact hall v.toFin

/-- Adjusts colours and alpha on the scale from 0 to 1. -/
def onScale (f : Rgb → Float32 → Rgb × Float32) (p : Pixel) : Pixel :=
  let (c, alpha) := f ⟨ofByte p.red, ofByte p.green, ofByte p.blue⟩ (ofByte p.alpha)
  ⟨toByte c.r, toByte c.g, toByte c.b, toByte alpha⟩

/-- Adjusts the colours and keeps alpha. -/
def onColors (f : Rgb → Rgb) : Pixel → Pixel := onScale fun c alpha => (f c, alpha)

@[simp] theorem alpha_onColors (f : Rgb → Rgb) (p : Pixel) : (onColors f p).alpha = p.alpha :=
  toByte_ofByte p.alpha

/-- Adjusts each colour as a byte and passes alpha on. -/
def onBytes (f : UInt8 → UInt8) (p : Pixel) : Pixel := ⟨f p.red, f p.green, f p.blue, p.alpha⟩

/-- Adjusts each colour by itself. -/
def onEach (f : Float32 → Float32) (c : Rgb) : Rgb := ⟨f c.r, f c.g, f c.b⟩

/-- How bright a colour looks. -/
def luminance (c : Rgb) : Float32 := 0.299 * c.r + 0.587 * c.g + 0.114 * c.b

/-- The same value in all three colours. -/
def gray (value : Float32) : Rgb := ⟨value, value, value⟩

/-! ## Curves on single colours -/

/-- Adds a constant. -/
def brightness (percent : Float32) : Float32 → Float32 :=
  let shift := Single.clamp percent (-100) 100 / 100
  fun c => c + shift

/-- Stretches around the middle; at full strength only black, middle and white are left. -/
def contrast (percent : Float32) : Float32 → Float32 :=
  let p := Single.clamp percent (-100) 100
  if 100 ≤ p then fun c => if c < 0.5 then 0 else if 0.5 < c then 1 else 0.5
  else
    let slope := if p ≤ 0 then 1 + p / 100 else 1 / (1 - p / 100)
    fun c => (c - 0.5) * slope + 0.5

/-- A power curve. -/
def gamma (power : Float32) : Float32 → Float32 :=
  let exponent := 1 / Single.max power 1.0e-5
  fun c => Float32.pow c exponent

/-- The linear light of a display value. -/
def srgbToLinear (c : Float32) : Float32 :=
  if c ≤ 0.04045 then c / 12.92 else Float32.pow ((c + 0.055) / 1.055) 2.4

/-- The display value of linear light. -/
def linearToSrgb (c : Float32) : Float32 :=
  if c ≤ 0.0031308 then c * 12.92 else 1.055 * Float32.pow c (1.0 / 2.4) - 0.055

/-- The curve of a colour space conversion. -/
def convert : Conversion → Float32 → Float32
  | .srgbToLinear => srgbToLinear
  | .linearToSrgb => linearToSrgb

/--
An S-shaped curve around a midpoint, or for a negative factor its inverse. A zero factor has no
curve: such a pixel is kept.
-/
def sigmoid (midpoint factor : Float32) : Float32 → Float32 :=
  let mid := Single.clamp midpoint 0 1
  let a := Single.clamp factor (-10) 10
  let k := a.abs
  let logistic (x : Float32) : Float32 := 1 / (1 + Float32.exp (k * (mid - x)))
  let s0 := logistic 0
  let s1 := logistic 1
  if 0 < a then fun x => (logistic x - s0) / (s1 - s0)
  else fun x =>
    let t := Single.clamp (s0 + x * (s1 - s0)) 1.0e-6 (1.0 - 1.0e-6)
    mid - Float32.log (1 / t - 1) / k

/-! ## Hue, saturation and lightness -/

/-- A colour by hue, saturation and lightness, the hue in turns. -/
structure Hsl where
  h : Float32
  s : Float32
  l : Float32

/-- The distance from 1 to the next number, below which a colour counts as gray. -/
def epsilon : Float32 := Float32.ofBits 0x34000000

/-- Hue, saturation and lightness of a colour. -/
def toHsl (c : Rgb) : Hsl :=
  let high := Single.max (Single.max c.r c.g) c.b
  let low := Single.min (Single.min c.r c.g) c.b
  let l := (high + low) / 2
  let d := high - low
  if d ≤ epsilon then ⟨0, 0, l⟩
  else
    let s := if l < 0.5 then d / (high + low) else d / (2 - high - low)
    let h :=
      if high == c.r then (c.g - c.b) / d + (if c.g < c.b then 6 else 0)
      else if high == c.g then (c.b - c.r) / d + 2
      else (c.r - c.g) / d + 4
    ⟨h / 6, s, l⟩

/-- One colour of a hue, between the values `p` and `q`. -/
def ofHue (p q turn : Float32) : Float32 :=
  let t := Single.remainder turn 1
  if t < 1.0 / 6.0 then p + (q - p) * 6 * t
  else if t < 0.5 then q
  else if t < 2.0 / 3.0 then p + (q - p) * (2.0 / 3.0 - t) * 6
  else p

/-- The colour of a hue, saturation and lightness. -/
def ofHsl (c : Hsl) : Rgb :=
  if c.s ≤ 0 then gray c.l
  else
    let q := if c.l < 0.5 then c.l * (1 + c.s) else c.l + c.s - c.l * c.s
    let p := 2 * c.l - q
    ⟨ofHue p q (c.h + 1.0 / 3.0), ofHue p q c.h, ofHue p q (c.h - 1.0 / 3.0)⟩

/-! ## Adjustments of whole colours -/

/-- Toward brown tones. -/
def sepia (percent : Float32) : Rgb → Rgb :=
  let t := Single.clamp percent 0 100 / 100
  fun c =>
    let r := 0.393 * c.r + 0.769 * c.g + 0.189 * c.b
    let g := 0.349 * c.r + 0.686 * c.g + 0.168 * c.b
    let b := 0.272 * c.r + 0.534 * c.g + 0.131 * c.b
    ⟨c.r + (r - c.r) * t, c.g + (g - c.g) * t, c.b + (b - c.b) * t⟩

/-- Black or white, by luminance. -/
def threshold (percent : Float32) : Rgb → Rgb :=
  let level := Single.clamp percent 0 100 / 100
  fun c => gray (if level ≤ luminance c then 1 else 0)

/-- Scales each colour by a percentage of its own. -/
def balance (red green blue : Float32) : Rgb → Rgb :=
  let gain (p : Float32) : Float32 := 1 + Single.clamp p (-100) 500 / 100
  let (r, g, b) := (gain red, gain green, gain blue)
  fun c => ⟨c.r * r, c.g * g, c.b * b⟩

/-- Turns the hue. -/
def turnHue (shift : Float32) : Rgb → Rgb :=
  let turn := Single.clamp shift (-180) 180 / 360
  fun c =>
    let x := toHsl c
    ofHsl ⟨Single.remainder (x.h + turn) 1, x.s, x.l⟩

/-- Scales the saturation. -/
def saturate (percent : Float32) : Rgb → Rgb :=
  let m := 1 + Single.clamp percent (-100) 500 / 100
  fun c =>
    let x := toHsl c
    ofHsl ⟨x.h, Single.clamp (x.s * m) 0 1, x.l⟩

/-- Moves hue and saturation toward given ones. -/
def colorize (hue saturation percent : Float32) : Rgb → Rgb :=
  let th := Single.clamp hue 0 360 / 360
  let ts := Single.clamp saturation 0 100 / 100
  let p := Single.clamp percent 0 100 / 100
  fun c =>
    let x := toHsl c
    ofHsl ⟨x.h + (th - x.h) * p, x.s + (ts - x.s) * p, x.l⟩

/-- Sets alpha and keeps the colours. -/
def setAlpha (percent : Float32) : Pixel → Pixel :=
  let alpha := Single.clamp percent 0 100 / 100
  onScale fun c _ => (c, alpha)

theorem setAlpha_eq (percent : Float32) (p : Pixel) :
    setAlpha percent p = { p with alpha := toByte (Single.clamp percent 0 100 / 100) } := by
  simp only [setAlpha, onScale, toByte_ofByte]

/-- What a colour operation does to a pixel; other operations are not of this form. -/
def adjust? : Operation → Option (Pixel → Pixel)
  | .brightness percent => some (onColors (onEach (brightness percent)))
  | .colorBalance red green blue => some (onColors (balance red green blue))
  | .colorize hue saturation percent => some (onColors (colorize hue saturation percent))
  | .colorspace conversion => some (onColors (onEach (convert conversion)))
  | .contrast percent => some (onColors (onEach (contrast percent)))
  | .gamma power => some (onColors (onEach (gamma power)))
  | .grayscale => some (onColors fun c => gray (luminance c))
  | .hue shift => some (onColors (turnHue shift))
  | .invert => some (onColors (onEach fun c => 1 - c))
  | .opacity percent => some (setAlpha percent)
  | .saturation percent => some (onColors (saturate percent))
  | .sepia percent => some (onColors (sepia percent))
  | .sigmoid midpoint factor =>
    if Single.clamp factor (-10) 10 == 0 then some id
    else some (onBytes fun v => toByte (sigmoid midpoint factor (ofByte v)))
  | .threshold percent => some (onColors (threshold percent))
  | _ => none

end Color

end RasterScript
