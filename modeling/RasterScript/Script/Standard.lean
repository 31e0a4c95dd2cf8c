import RasterScript.Script.Arguments

/-!
# The standard commands

The thirty-four commands that change an image and the four that act on the session.
-/

namespace RasterScript

open Arguments

namespace Command

/-- A command that adds an operation to the pipeline. -/
def transform (name : String) (aliases : List String) (minArgs : Nat) (usage : String)
    (reader : ArgumentReader) : Command :=
  ⟨name, aliases, minArgs, usage, .transform reader⟩

/-- A command that acts on the session. -/
def ofDirective (name : String) (aliases : List String) (minArgs : Nat) (usage : String)
    (directive : Directive) : Command :=
  ⟨name, aliases, minArgs, usage, .directive directive⟩

/-- Every standard command. -/
def standard : List Command := [
  transform "blur" [] 1 "value > 0" (one .blur),
  transform "brightness" [] 1 "value (-100, 100)" (within (-100) 100 .brightness),
  transform "colorbalance" [] 3 "red green blue (-100, 500)" (three .colorBalance),
  transform "colorize" [] 3 "hue (0-360) saturation (0-100) percentage (0-100)" (three .colorize),
  transform "colorspace" [] 1 "linear|l (sRGB->linear) or sRGB|s (linear->sRGB)" colorspace,
  transform "contrast" [] 1 "value (-100, 100)" (within (-100) 100 .contrast),
  transform "crop" [] 4 "x1 y1 x2 y2 (rectangle at (x1,y1) and (x2,y2))" corners,
  transform "cropsize" [] 2 "width height" (size .cropToSize),
  transform "edge" [] 0 "edge filter" (plain .edge),
  transform "emboss" [] 0 "emboss filter" (plain .emboss),
  transform "fliph" [] 0 "flip horizontal" (plain .flipHorizontal),
  transform "flipv" [] 0 "flip vertical" (plain .flipVertical),
  transform "gamma" [] 1 "value (< 1 darken, > 1 lighten)" (one .gamma),
  transform "gray" [] 0 "grayscale image" (plain .grayscale),
  transform "hue" [] 1 "value (-180, 180)" (within (-180) 180 .hue),
  transform "invert" ["neg"] 0 "invert image" (plain .invert),
  transform "max" [] 1 "local maximum size (odd positive integer)" (neighbourhood .maximum),
  transform "mean" [] 1 "local mean size (odd positive integer)" (neighbourhood .mean),
  transform "median" [] 1 "local median size (odd positive integer)" (neighbourhood .median),
  transform "min" [] 1 "local minimum size (odd positive integer)" (neighbourhood .minimum),
  transform "opacity" [] 1 "value (0-100)" (within 0 100 .opacity),
  transform "pixelate" ["pix"] 1 "pixels" (count .pixelate),
  transform "resize" [] 2 "width height" (size .resize),
  transform "resizefill" [] 2 "width height" (size .resizeToFill),
  transform "resizefit" [] 2 "width height" (size .resizeToFit),
  transform "rotate" ["rot"] 1 "degrees counter-clockwise" angle,
  transform "saturation" ["sat"] 1 "value (-100, 500)" (within (-100) 500 .saturation),
  transform "sepia" [] 1 "value (0-100)" (within 0 100 .sepia),
  transform "sigmoid" [] 2 "midpoint (0,1) factor (-10,10)" (two .sigmoid),
  transform "sobel" [] 0 "sobel filter" (plain .sobel),
  transform "threshold" [] 1 "color threshold percentage (0-100)" (within 0 100 .threshold),
  transform "transpose" [] 0 "flip horizontally and rotate 90° counter-clockwise"
    (plain .transpose),
  transform "transverse" [] 0 "flip vertically and rotate 90° counter-clockwise"
    (plain .transverse),
  transform "unsharp" [] 3 "sigma (> 0) amount (0.5, 1.5) threshold (0, 0.05)" (three .unsharpMask),
  ofDirective "read" ["r"] 1 "imagefile (open source file)" .read,
  ofDirective "reset" [] 0 "discard image edits (watch mode only)" .reset,
  ofDirective "help" ["?", "h"] 0 "show command set" .help,
  ofDirective "show" [] 0 "list the current pipeline" .show]

end Command

/-- The table of all standard commands. -/
def Registry.standard : Registry := (RegistryBuilder.empty.extend Command.standard).build

end RasterScript
