import RasterScript.Filter.Apply

/-!
# Filter engines

An engine is what a pipeline is rendered with. It announces the size of each result and then
produces it, and it may keep a state `σ` of its own between calls. `Engine.plain` keeps none and
does what the operations say. `Engine.faulty` counts its calls and goes wrong at chosen ones, which
is how the handling of engine errors is exercised.
-/

namespace RasterScript

/-- Something that can carry out operations. -/
structure Engine (σ : Type) where
  /-- The size of an operation's result. -/
  bounds : Operation → Bounds → σ → Bounds × σ
  /-- The result of an operation, for a destination of the announced size. -/
  apply : Operation → Image → Bounds → σ → Except Error Image × σ

namespace Engine

/-- An engine that keeps no state. -/
def ofFunctions (bounds : Operation → Bounds → Bounds)
    (apply : Operation → Image → Bounds → Except Error Image) : Engine Unit where
  bounds op src _ := (bounds op src, ())
  apply op image dst _ := (apply op image dst, ())

/-- The engine that applies operations as they are defined. -/
def plain : Engine Unit := ofFunctions Operation.bounds Operation.apply

/-- How often a faulty engine has been called. -/
structure Calls where
  bounds : Nat
  applies : Nat

/-- The calls at which a faulty engine goes wrong, counted from 0. -/
structure Faults where
  /-- The call that announces a width one too large. -/
  growBounds : Option Nat
  /-- The call that fails, and how. -/
  failApply : Option (Nat × Error)

/-- One more column, unless the image is as wide as can be. -/
def grow (b : Bounds) : Bounds := Bounds.ofInts (b.width + 1) b.height

/-- The plain engine with faults. -/
def faulty (faults : Faults) : Engine Calls where
  bounds op src calls :=
    let size := op.bounds src
    (if faults.growBounds = some calls.bounds then grow size else size,
      { calls with bounds := calls.bounds + 1 })
  apply op image dst calls :=
    let result :=
      match faults.failApply with
      | some (call, error) => if call = calls.applies then .error error else op.apply image dst
      | none => op.apply image dst
    (result, { calls with applies := calls.applies + 1 })

end Engine

end RasterScript
