import RasterScript.Operation.Dump

/-!
# Pipelines

A pipeline is the list of operations that a script has asked for, in the order in which they are
applied. It grows at its end and is otherwise only ever discarded as a whole.
-/

namespace RasterScript

/-- Operations in the order of application. -/
structure Pipeline where
  ops : List Operation
deriving BEq

namespace Pipeline

/-- No operations. -/
def empty : Pipeline := ⟨[]⟩

/-- The pipeline with one more operation at its end. -/
def append (p : Pipeline) (op : Operation) : Pipeline := ⟨p.ops ++ [op]⟩

/-- The number of operations. -/
def length (p : Pipeline) : Nat := p.ops.length

/-- Whether there are no operations. -/
def isEmpty (p : Pipeline) : Bool := p.ops.isEmpty

/-- The pipeline as a JSON array, spread over lines. -/
def dump (p : Pipeline) : String :=
  String.ofList (Json.pretty 0 (.array (p.ops.map Operation.toJson)))

/-- Reads a dumped pipeline. -/
def ofDump? (text : String) : Option Pipeline :=
  match Json.ofChars? text.toList with
  | some (.array items) => (items.mapM Operation.ofJson?).map Pipeline.mk
  | _ => none

/-- The operations one per line, each behind its place in the order. -/
def listing (p : Pipeline) : List String :=
  p.ops.zipIdx.map fun (op, place) => Integer.text place ++ ": " ++ op.text

end Pipeline

end RasterScript
