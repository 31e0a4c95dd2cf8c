import RasterScript.Engine
import RasterScript.Pipeline

/-!
# Rendering

A render runs the operations of a pipeline over an image in order and then puts the result into a
container. The source is never changed. A pipeline is rendered only as far as its first failing
step, and the error names that step.
-/

namespace RasterScript

/-- An image in a container, as it is written to a file or stream. -/
structure Encoded where
  container : Container
  image : Image

/-- The longest side of a GIF or a JPEG. -/
def maxContainedSide : Nat := 65535

/--
Puts an image into a container. There is nothing to write, and no error, for a container that can
only be read; but an image without pixels is an error for every container.
-/
def encode (image : Image) (container : Container) : Except Error (Option Encoded) :=
  if image.bounds.isEmpty then .error (.encode (.emptyImage container image.bounds))
  else
    let tooLong := maxContainedSide < image.width ∨ maxContainedSide < image.height
    match container with
    | .png => .ok (some ⟨.png, image⟩)
    | .jpeg =>
      if tooLong then .error (.encode (.jpegSides image.bounds)) else .ok (some ⟨.jpeg, image⟩)
    | .gif => if tooLong then .error (.encode .gifSides) else .ok (some ⟨.gif, image⟩)
    | .other _ => .ok none

namespace Render

variable {σ : Type}

/-- The size after all operations. -/
def outputBounds (engine : Engine σ) : Bounds → List Operation → σ → Bounds × σ
  | src, [], state => (src, state)
  | src, op :: ops, state =>
    let (next, state) := engine.bounds op src state
    outputBounds engine next ops state

/-- An engine's error at a step; a render fault is told which step it was. -/
def locate (index : Nat) (op : Operation) : Error → Error
  | .render fault => .render (.atStep index op fault)
  | error => error

/-- Runs operations over an image, the first of them being step number `index`. -/
def steps (engine : Engine σ) : Nat → Image → List Operation → σ → Except Error Image × σ
  | _, image, [], state => (.ok image, state)
  | index, image, op :: ops, state =>
    let (size, state) := engine.bounds op image.bounds state
    if size.isAllocatable then
      match engine.apply op image size state with
      | (.ok next, state) => steps engine (index + 1) next ops state
      | (.error error, state) => (.error (locate index op error), state)
    else (.error (.render (.atStep index op (.tooLarge size))), state)

/-- The image that a pipeline makes of a source, which must have the size announced before. -/
def image (engine : Engine σ) (source : Image) (ops : List Operation) (state : σ) :
    Except Error Image × σ :=
  let (expected, state) := outputBounds engine source.bounds ops state
  match steps engine 0 source ops state with
  | (.ok result, state) =>
    if result.bounds = expected then (.ok result, state)
    else (.error (.render (.produced result.bounds expected)), state)
  | failed => failed

end Render

/-- A source image, the container it came in, and the path it was read from. -/
structure Binding where
  image : Image
  container : Container
  path : String

/-- Renders a source through a pipeline into the container it came in. -/
def Binding.render {σ : Type} (binding : Binding) (engine : Engine σ) (ops : List Operation)
    (state : σ) : Except Error (Option Encoded) × σ :=
  match Render.image engine binding.image ops state with
  | (.ok result, state) => (encode result binding.container, state)
  | (.error error, state) => (.error error, state)

end RasterScript
