import RasterScript.Number.Shortest

/-!
# Operations

An `Operation` is one step of a pipeline with its parameters, exactly as the script gave them.
Its `Kind` names the command that makes it, its `params` are the arguments of that command, and
`text` puts the two together into the line of script that gives the operation back.
-/

namespace RasterScript

/-- Which transfer curve a colour space conversion applies. -/
inductive Conversion where
  | srgbToLinear
  | linearToSrgb
deriving DecidableEq

/-- What is gathered from the neighbourhood of a pixel. -/
inductive Statistic where
  | minimum
  | maximum
  | mean
  | median
deriving DecidableEq

/-- One step of a pipeline. Turns are counter-clockwise. -/
inductive Operation where
  | blur (sigma : Float32)
  | brightness (percent : Float32)
  | colorBalance (red green blue : Float32)
  | colorize (hue saturation percent : Float32)
  | colorspace (conversion : Conversion)
  | contrast (percent : Float32)
  | crop (x1 y1 x2 y2 : Int32)
  | cropToSize (width height : Int32)
  | edge
  | emboss
  | flipHorizontal
  | flipVertical
  | gamma (gamma : Float32)
  | grayscale
  | hue (shift : Float32)
  | invert
  | neighbourhood (statistic : Statistic) (size : Int32)
  | opacity (percent : Float32)
  | pixelate (size : Int32)
  | resize (width height : Int32)
  | resizeToFill (width height : Int32)
  | resizeToFit (width height : Int32)
  | rotate90
  | rotate180
  | rotate270
  | rotate (degrees : Float32)
  | saturation (percent : Float32)
  | sepia (percent : Float32)
  | sigmoid (midpoint factor : Float32)
  | sobel
  | threshold (percent : Float32)
  | transpose
  | transverse
  | unsharpMask (sigma amount threshold : Float32)
deriving BEq

/-- An operation without its parameters. All turns are of one kind, each statistic is its own. -/
inductive Kind where
  | blur
  | brightness
  | colorBalance
  | colorize
  | colorspace
  | contrast
  | crop
  | cropToSize
  | edge
  | emboss
  | flipHorizontal
  | flipVertical
  | gamma
  | grayscale
  | hue
  | invert
  | localMinimum
  | localMaximum
  | localMean
  | localMedian
  | opacity
  | pixelate
  | resize
  | resizeToFill
  | resizeToFit
  | rotate
  | saturation
  | sepia
  | sigmoid
  | sobel
  | threshold
  | transpose
  | transverse
  | unsharpMask
deriving DecidableEq

/-- The kind that gathers a statistic. -/
def Statistic.kind : Statistic → Kind
  | minimum => .localMinimum
  | maximum => .localMaximum
  | mean => .localMean
  | median => .localMedian

namespace Kind

/-- The name of the kind. -/
def name : Kind → String
  | blur => "Blur"
  | brightness => "Brightness"
  | colorBalance => "ColorBalance"
  | colorize => "Colorize"
  | colorspace => "Colorspace"
  | contrast => "Contrast"
  | crop => "Crop"
  | cropToSize => "CropToSize"
  | edge => "Edge"
  | emboss => "Emboss"
  | flipHorizontal => "FlipHorizontal"
  | flipVertical => "FlipVertical"
  | gamma => "Gamma"
  | grayscale => "Grayscale"
  | hue => "Hue"
  | invert => "Invert"
  | localMinimum => "LocalMinimum"
  | localMaximum => "LocalMaximum"
  | localMean => "LocalMean"
  | localMedian => "LocalMedian"
  | opacity => "Opacity"
  | pixelate => "Pixelate"
  | resize => "Resize"
  | resizeToFill => "ResizeToFill"
  | resizeToFit => "ResizeToFit"
  | rotate => "Rotate"
  | saturation => "Saturation"
  | sepia => "Sepia"
  | sigmoid => "Sigmoid"
  | sobel => "Sobel"
  | threshold => "Threshold"
  | transpose => "Transpose"
  | transverse => "Transverse"
  | unsharpMask => "UnsharpMask"

/-- The script command that makes operations of this kind. -/
def command : Kind → String
  | blur => "blur"
  | brightness => "brightness"
  | colorBalance => "colorbalance"
  | colorize => "colorize"
  | colorspace => "colorspace"
  | contrast => "contrast"
  | crop => "crop"
  | cropToSize => "cropsize"
  | edge => "edge"
  | emboss => "emboss"
  | flipHorizontal => "fliph"
  | flipVertical => "flipv"
  | gamma => "gamma"
  | grayscale => "gray"
  | hue => "hue"
  | invert => "invert"
  | localMinimum => "min"
  | localMaximum => "max"
  | localMean => "mean"
  | localMedian => "median"
  | opacity => "opacity"
  | pixelate => "pixelate"
  | resize => "resize"
  | resizeToFill => "resizefill"
  | resizeToFit => "resizefit"
  | rotate => "rotate"
  | saturation => "saturation"
  | sepia => "sepia"
  | sigmoid => "sigmoid"
  | sobel => "sobel"
  | threshold => "threshold"
  | transpose => "transpose"
  | transverse => "transverse"
  | unsharpMask => "unsharp"

/-- The place of a kind in the order of their declaration. -/
def rank (kind : Kind) : Nat := kind.ctorIdx

end Kind

/-- One argument of a command. -/
inductive Param where
  | number (value : Float32)
  | integer (value : Int32)
  | word (text : String)

/-- An argument as it is written in a script. -/
def Param.text : Param → String
  | number value => Single.text value
  | integer value => Integer.text value.toInt
  | word text => text

/-- The word by which a script asks for a conversion. -/
def Conversion.word : Conversion → String
  | srgbToLinear => "linear"
  | linearToSrgb => "sRGB"

namespace Operation

/-- The kind of an operation. -/
def kind : Operation → Kind
  | blur _ => .blur
  | brightness _ => .brightness
  | colorBalance _ _ _ => .colorBalance
  | colorize _ _ _ => .colorize
  | colorspace _ => .colorspace
  | contrast _ => .contrast
  | crop _ _ _ _ => .crop
  | cropToSize _ _ => .cropToSize
  | edge => .edge
  | emboss => .emboss
  | flipHorizontal => .flipHorizontal
  | flipVertical => .flipVertical
  | gamma _ => .gamma
  | grayscale => .grayscale
  | hue _ => .hue
  | invert => .invert
  | neighbourhood statistic _ => statistic.kind
  | opacity _ => .opacity
  | pixelate _ => .pixelate
  | resize _ _ => .resize
  | resizeToFill _ _ => .resizeToFill
  | resizeToFit _ _ => .resizeToFit
  | rotate90 | rotate180 | rotate270 | rotate _ => .rotate
  | saturation _ => .saturation
  | sepia _ => .sepia
  | sigmoid _ _ => .sigmoid
  | sobel => .sobel
  | threshold _ => .threshold
  | transpose => .transpose
  | transverse => .transverse
  | unsharpMask _ _ _ => .unsharpMask

/-- The arguments, in the order in which the command takes them. -/
def params : Operation → List Param
  | blur sigma => [.number sigma]
  | brightness percent | contrast percent | opacity percent | saturation percent
  | sepia percent | threshold percent => [.number percent]
  | colorBalance red green blue => [.number red, .number green, .number blue]
  | colorize angle strength percent => [.number angle, .number strength, .number percent]
  | colorspace conversion => [.word conversion.word]
  | crop x1 y1 x2 y2 => [.integer x1, .integer y1, .integer x2, .integer y2]
  | cropToSize width height | resize width height | resizeToFill width height
  | resizeToFit width height => [.integer width, .integer height]
  | gamma power => [.number power]
  | hue shift => [.number shift]
  | neighbourhood _ size | pixelate size => [.integer size]
  | rotate90 => [.number 90]
  | rotate180 => [.number 180]
  | rotate270 => [.number 270]
  | rotate degrees => [.number degrees]
  | sigmoid midpoint factor => [.number midpoint, .number factor]
  | unsharpMask sigma amount level => [.number sigma, .number amount, .number level]
  | edge | emboss | flipHorizontal | flipVertical | grayscale | invert | sobel | transpose
  | transverse => []

/-- The operation as a line of script. -/
def text (op : Operation) : String :=
  op.params.foldl (fun line param => line ++ " " ++ param.text) op.kind.command

end Operation

end RasterScript
