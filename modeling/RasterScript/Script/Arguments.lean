import RasterScript.Script.Command

/-!
# Reading arguments

Each reader turns the argument fields of one command into an operation, or reports the first
problem it meets. Numbers are read leniently, a field that is not a number counting as zero;
sizes and coordinates must be integers.

`Command.validate` is the entry: it counts the fields before any of them is read.
-/

namespace RasterScript

namespace Arguments

/-- The field at an index. -/
def field (args : List String) (index : Nat) : Except Reason String :=
  match args[index]? with
  | some text => .ok text
  | none => .error (.missing index)

/-- A number, read leniently. -/
def number (args : List String) (index : Nat) : Except Reason Float32 :=
  (field args index).map Single.ofText

/-- An integer of 32 bits. -/
def integer (args : List String) (index : Nat) : Except Reason Int32 := do
  let text ← field args index
  match Integer.ofText? text with
  | some value => .ok value
  | none => .error (.notInteger index text)

/-- A number with `lo ≤ value ≤ hi`. NaN is in no range. -/
def ranged (args : List String) (index : Nat) (lo hi : Float32) : Except Reason Float32 := do
  let value ← number args index
  if lo ≤ value ∧ value ≤ hi then .ok value else .error (.range index (Single.widen value))

/-- Accepts a line with an operation. -/
def accept (op : Operation) : Except Reason (Option Operation) := .ok (some op)

/-- An operation without arguments. -/
def plain (op : Operation) : ArgumentReader := fun _ => accept op

/-- An operation with one unrestricted number. -/
def one (make : Float32 → Operation) : ArgumentReader := fun args => do
  accept (make (← number args 0))

/-- An operation with two unrestricted numbers. -/
def two (make : Float32 → Float32 → Operation) : ArgumentReader := fun args => do
  let a ← number args 0
  let b ← number args 1
  accept (make a b)

/-- An operation with three unrestricted numbers. -/
def three (make : Float32 → Float32 → Float32 → Operation) : ArgumentReader := fun args => do
  let a ← number args 0
  let b ← number args 1
  let c ← number args 2
  accept (make a b c)

/-- An operation with one number in a range. -/
def within (lo hi : Float32) (make : Float32 → Operation) : ArgumentReader := fun args => do
  accept (make (← ranged args 0 lo hi))

/-- An operation with one integer. -/
def count (make : Int32 → Operation) : ArgumentReader := fun args => do
  accept (make (← integer args 0))

/-- An operation with a width and a height. -/
def size (make : Int32 → Int32 → Operation) : ArgumentReader := fun args => do
  let width ← integer args 0
  let height ← integer args 1
  accept (make width height)

/-- The four coordinates of two corners. -/
def corners : ArgumentReader := fun args => do
  let x1 ← integer args 0
  let y1 ← integer args 1
  let x2 ← integer args 2
  let y2 ← integer args 3
  accept (.crop x1 y1 x2 y2)

/-- A positive size. That it should be odd is not enforced here. -/
def neighbourhood (statistic : Statistic) : ArgumentReader := fun args => do
  let size ← integer args 0
  if size ≤ 0 then
    .error (.range 0 (Double.ofRatio (size.toInt < 0) size.toInt.natAbs 1))
  else accept (.neighbourhood statistic size)

/-- The word for a conversion. -/
def colorspace : ArgumentReader := fun args => do
  let word ← field args 0
  if word = "linear" ∨ word = "l" then accept (.colorspace .srgbToLinear)
  else if word = "sRGB" ∨ word = "s" then accept (.colorspace .linearToSrgb)
  else .error (.invalidChoice 0 word)

/-- An angle. Those outside `0 < degrees ≤ 360` are accepted and ignored. -/
def angle : ArgumentReader := fun args => do
  let degrees ← number args 0
  if 0 < degrees ∧ degrees ≤ 360 then
    if degrees == 90 then accept .rotate90
    else if degrees == 180 then accept .rotate180
    else if degrees == 270 then accept .rotate270
    else accept (.rotate degrees)
  else .ok none

end Arguments

namespace Command

/-- Counts the argument fields and then reads them. Directives read none. -/
def check (c : Command) (args : List String) : Except Reason (Option Operation) :=
  if args.length < c.minArgs then .error (.arity c.minArgs args.length)
  else
    match c.action with
    | .transform reader => reader args
    | .directive _ => .ok none

/--
What a line with this command comes to. `written` is the name as it stands in the script, which
may be an alias.
-/
def validate (c : Command) (written : String) (args : List String) (line : Nat) :
    Except ScriptError (Option Operation) :=
  match c.check args with
  | .ok op => .ok op
  | .error reason => .error (.invalid line written c.usage reason)

end Command

end RasterScript
