import RasterScript.Json.Reader
import RasterScript.Operation.Basic

/-!
# Operations as JSON

A dumped operation is an object: the member `op` names it and the parameters follow in order.
Reading is more liberal than writing. Members may stand in any order and further ones are ignored,
and an array of the name and the parameters in order is taken as well.

JSON has no numbers for the infinities and NaN, so they are dumped as `null`, which no parameter
can be read from.
-/

namespace RasterScript

namespace Json

/--
A 32 bit number from a JSON number. A `real` is first scaled to 64 bits, and one that is too large
for that is refused; an `integer` is rounded once.
-/
def toSingle? : Json → Option Float32
  | integer value => some (Single.ofRatio (value < 0) value.natAbs 1)
  | real value => value.scaled?.map Double.narrow
  | _ => none

/-- A 32 bit integer from a JSON number written without fraction or exponent. -/
def toInt32? : Json → Option Int32
  | integer value => Integer.toInt32? value
  | _ => none

/-- A JSON number for a finite 32 bit number, in the fewest digits that read back; else `null`. -/
def ofSingle (x : Float32) : Json :=
  if BinaryFormat.single.infinity ≤ Single.pattern x then null else real (Single.shortest .even x)

/--
The name of a choice: a string, or an object with the name as its only member and nothing in it.
-/
def symbol? : Json → Option String
  | string name => some name
  | object [(name, null)] | object [(name, object [])] => some name
  | _ => none

end Json

namespace Conversion

/-- The name under which a conversion is dumped. -/
def symbol : Conversion → String
  | srgbToLinear => "srgb_to_linear"
  | linearToSrgb => "linear_to_srgb"

/-- The conversion of that name. -/
def ofSymbol? : String → Option Conversion
  | "srgb_to_linear" => some srgbToLinear
  | "linear_to_srgb" => some linearToSrgb
  | _ => none

end Conversion

namespace Statistic

/-- The name under which a statistic is dumped. -/
def symbol : Statistic → String
  | minimum => "minimum"
  | maximum => "maximum"
  | mean => "mean"
  | median => "median"

/-- The statistic of that name. -/
def ofSymbol? : String → Option Statistic
  | "minimum" => some minimum
  | "maximum" => some maximum
  | "mean" => some mean
  | "median" => some median
  | _ => none

end Statistic

namespace Operation

/-- The name under which an operation is dumped, and its parameters by name. -/
def dumped : Operation → String × List (String × Json)
  | blur sigma => ("blur", [("sigma", .ofSingle sigma)])
  | brightness percent => ("brightness", [("percent", .ofSingle percent)])
  | colorBalance red green blue =>
    ("color_balance",
      [("red", .ofSingle red), ("green", .ofSingle green), ("blue", .ofSingle blue)])
  | colorize angle strength percent =>
    ("colorize",
      [("hue", .ofSingle angle), ("saturation", .ofSingle strength),
        ("percent", .ofSingle percent)])
  | colorspace conversion => ("colorspace", [("conversion", .string conversion.symbol)])
  | contrast percent => ("contrast", [("percent", .ofSingle percent)])
  | crop x1 y1 x2 y2 =>
    ("crop",
      [("x1", .integer x1.toInt), ("y1", .integer y1.toInt), ("x2", .integer x2.toInt),
        ("y2", .integer y2.toInt)])
  | cropToSize width height =>
    ("crop_to_size", [("width", .integer width.toInt), ("height", .integer height.toInt)])
  | edge => ("edge", [])
  | emboss => ("emboss", [])
  | flipHorizontal => ("flip_horizontal", [])
  | flipVertical => ("flip_vertical", [])
  | gamma power => ("gamma", [("gamma", .ofSingle power)])
  | grayscale => ("grayscale", [])
  | hue shift => ("hue", [("shift", .ofSingle shift)])
  | invert => ("invert", [])
  | neighbourhood statistic size =>
    ("local", [("stat", .string statistic.symbol), ("size", .integer size.toInt)])
  | opacity percent => ("opacity", [("percent", .ofSingle percent)])
  | pixelate size => ("pixelate", [("size", .integer size.toInt)])
  | resize width height =>
    ("resize", [("width", .integer width.toInt), ("height", .integer height.toInt)])
  | resizeToFill width height =>
    ("resize_to_fill", [("width", .integer width.toInt), ("height", .integer height.toInt)])
  | resizeToFit width height =>
    ("resize_to_fit", [("width", .integer width.toInt), ("height", .integer height.toInt)])
  | rotate90 => ("rotate90", [])
  | rotate180 => ("rotate180", [])
  | rotate270 => ("rotate270", [])
  | rotate degrees => ("rotate", [("degrees", .ofSingle degrees)])
  | saturation percent => ("saturation", [("percent", .ofSingle percent)])
  | sepia percent => ("sepia", [("percent", .ofSingle percent)])
  | sigmoid midpoint factor =>
    ("sigmoid", [("midpoint", .ofSingle midpoint), ("factor", .ofSingle factor)])
  | sobel => ("sobel", [])
  | threshold percent => ("threshold", [("percent", .ofSingle percent)])
  | transpose => ("transpose", [])
  | transverse => ("transverse", [])
  | unsharpMask sigma amount level =>
    ("unsharp_mask",
      [("sigma", .ofSingle sigma), ("amount", .ofSingle amount), ("threshold", .ofSingle level)])

/-- The operation as a JSON object. -/
def toJson (op : Operation) : Json :=
  .object (("op", .string op.dumped.1) :: op.dumped.2)

/--
The parameters with the given names: looked up in an object, or in order from the items of an
array, which must then be exactly as many.
-/
def parameters? (source : Json) (names : List String) : Option (List Json) :=
  match source with
  | .object members => names.mapM fun name => Json.member? (.object members) name
  | .array items => if items.length = names.length then some items else none
  | _ => none

/-- Parameters that are all numbers. -/
def numbers? (source : Json) (names : List String) : Option (List Float32) :=
  (parameters? source names).bind fun values => values.mapM Json.toSingle?

/-- Parameters that are all integers. -/
def integers? (source : Json) (names : List String) : Option (List Int32) :=
  (parameters? source names).bind fun values => values.mapM Json.toInt32?

/-- An operation with one number. -/
def withNumber? (source : Json) (name : String) (make : Float32 → Operation) : Option Operation :=
  match numbers? source [name] with
  | some [value] => some (make value)
  | _ => none

/-- An operation with two numbers. -/
def withNumbers₂? (source : Json) (first second : String)
    (make : Float32 → Float32 → Operation) : Option Operation :=
  match numbers? source [first, second] with
  | some [a, b] => some (make a b)
  | _ => none

/-- An operation with three numbers. -/
def withNumbers₃? (source : Json) (first second third : String)
    (make : Float32 → Float32 → Float32 → Operation) : Option Operation :=
  match numbers? source [first, second, third] with
  | some [a, b, c] => some (make a b c)
  | _ => none

/-- An operation with a width and a height. -/
def withSize? (source : Json) (make : Int32 → Int32 → Operation) : Option Operation :=
  match integers? source ["width", "height"] with
  | some [width, height] => some (make width height)
  | _ => none

/-- An operation without parameters. -/
def plain? (source : Json) (op : Operation) : Option Operation :=
  (parameters? source []).map fun _ => op

/-- The operation of the given name with its parameters taken from `source`. -/
def ofDumped? (name : String) (source : Json) : Option Operation :=
  match name with
  | "blur" => withNumber? source "sigma" blur
  | "brightness" => withNumber? source "percent" brightness
  | "color_balance" => withNumbers₃? source "red" "green" "blue" colorBalance
  | "colorize" => withNumbers₃? source "hue" "saturation" "percent" colorize
  | "colorspace" =>
    match parameters? source ["conversion"] with
    | some [conversion] =>
      (conversion.symbol?.bind Conversion.ofSymbol?).map colorspace
    | _ => none
  | "contrast" => withNumber? source "percent" contrast
  | "crop" =>
    match integers? source ["x1", "y1", "x2", "y2"] with
    | some [x1, y1, x2, y2] => some (crop x1 y1 x2 y2)
    | _ => none
  | "crop_to_size" => withSize? source cropToSize
  | "edge" => plain? source edge
  | "emboss" => plain? source emboss
  | "flip_horizontal" => plain? source flipHorizontal
  | "flip_vertical" => plain? source flipVertical
  | "gamma" => withNumber? source "gamma" gamma
  | "grayscale" => plain? source grayscale
  | "hue" => withNumber? source "shift" hue
  | "invert" => plain? source invert
  | "local" =>
    match parameters? source ["stat", "size"] with
    | some [statistic, size] =>
      match statistic.symbol?.bind Statistic.ofSymbol?, size.toInt32? with
      | some statistic, some size => some (neighbourhood statistic size)
      | _, _ => none
    | _ => none
  | "opacity" => withNumber? source "percent" opacity
  | "pixelate" =>
    match integers? source ["size"] with
    | some [size] => some (pixelate size)
    | _ => none
  | "resize" => withSize? source resize
  | "resize_to_fill" => withSize? source resizeToFill
  | "resize_to_fit" => withSize? source resizeToFit
  | "rotate90" => plain? source rotate90
  | "rotate180" => plain? source rotate180
  | "rotate270" => plain? source rotate270
  | "rotate" => withNumber? source "degrees" rotate
  | "saturation" => withNumber? source "percent" saturation
  | "sepia" => withNumber? source "percent" sepia
  | "sigmoid" => withNumbers₂? source "midpoint" "factor" sigmoid
  | "sobel" => plain? source sobel
  | "threshold" => withNumber? source "percent" threshold
  | "transpose" => plain? source transpose
  | "transverse" => plain? source transverse
  | "unsharp_mask" => withNumbers₃? source "sigma" "amount" "threshold" unsharpMask
  | _ => none

/-- Reads an operation from an object with the member `op`, or from an array that begins so. -/
def ofJson? : Json → Option Operation
  | .object members =>
    match Json.member? (.object members) "op" with
    | some (.string name) => ofDumped? name (.object members)
    | _ => none
  | .array (.string name :: items) => ofDumped? name (.array items)
  | _ => none

end Operation

end RasterScript
