import RasterScript.Operation.Basic
import RasterScript.Script.Rejection

/-!
# The command table

A `Command` pairs the names of a script command with what it does: read its arguments into an
operation, or act on the session. A `Registry` is a finished table, sorted by name and searched by
any name; a `RegistryBuilder` is one under construction, in which an entry replaces an earlier one
with the same primary name.

A name that several entries carry belongs to the last of them in the sorted table.
-/

namespace RasterScript

/--
Reads the argument fields of a command. A line that is accepted may still contribute no operation.
-/
abbrev ArgumentReader := List String → Except Reason (Option Operation)

/-- A command that acts on the session instead of the pipeline. -/
inductive Directive where
  /-- Bind a source image. -/
  | read
  /-- Discard the pipeline. -/
  | reset
  /-- Print the command table. -/
  | help
  /-- Print the pipeline. -/
  | show
deriving DecidableEq

/-- The name of a directive. -/
def Directive.name : Directive → String
  | read => "Read"
  | reset => "Reset"
  | help => "Help"
  | «show» => "Show"

/-- What a command does. -/
inductive Action where
  | transform (reader : ArgumentReader)
  | directive (directive : Directive)

/-- One entry of the command table. -/
structure Command where
  /-- The primary name. -/
  name : String
  /-- Further names of the same command. -/
  aliases : List String
  /-- The least number of argument fields. -/
  minArgs : Nat
  /-- The arguments in words, for the table and for diagnostics. -/
  usage : String
  action : Action

namespace Command

/-- All names of the command, the primary one first. -/
def names (c : Command) : List String := c.name :: c.aliases

/-- Whether the command answers to a name. -/
def answersTo (c : Command) (name : String) : Bool := c.names.contains name

end Command

/-- Whether one text is before or at another in the order of their code points. -/
def notAfter : List Char → List Char → Bool
  | [], _ => true
  | _ :: _, [] => false
  | a :: as, b :: bs => a.toNat < b.toNat || (a.toNat == b.toNat && notAfter as bs)

/-- The command table of a session. -/
structure Registry where
  commands : List Command

namespace Registry

/-- The command that a name stands for. -/
def resolve? (r : Registry) (name : String) : Option Command :=
  r.commands.reverse.find? fun c => c.answersTo name

/-- The number of commands. -/
def length (r : Registry) : Nat := r.commands.length

/-- Whether there are no commands. -/
def isEmpty (r : Registry) : Bool := r.commands.isEmpty

/-- A row of the table, its first column fifteen characters wide. -/
def row (name usage : String) : String :=
  name ++ String.ofList (List.replicate (15 - name.length) ' ') ++ " " ++ usage

/-- The rows of the table, below its heading. -/
def rows (r : Registry) : List String :=
  row "Command" "Parameters" :: r.commands.map fun c => row c.name c.usage

/-- The command table as text, a line for each row. -/
def help (r : Registry) : String := String.join (r.rows.map fun row => row ++ "\n")

end Registry

/-- A command table under construction: the entries in the order of their last insertion. -/
structure RegistryBuilder where
  commands : List Command

namespace RegistryBuilder

/-- A table without commands. -/
def empty : RegistryBuilder := ⟨[]⟩

/-- Drops the entry with a primary name. -/
def remove (b : RegistryBuilder) (name : String) : RegistryBuilder :=
  ⟨b.commands.filter fun c => c.name ≠ name⟩

/-- Adds an entry, in place of any with the same primary name. -/
def insert (b : RegistryBuilder) (c : Command) : RegistryBuilder :=
  ⟨(b.remove c.name).commands ++ [c]⟩

/-- Adds entries one after the other. -/
def extend (b : RegistryBuilder) (commands : List Command) : RegistryBuilder :=
  commands.foldl insert b

/-- The finished table. -/
def build (b : RegistryBuilder) : Registry :=
  ⟨b.commands.mergeSort fun c d => notAfter c.name.toList d.name.toList⟩

end RegistryBuilder

end RasterScript
