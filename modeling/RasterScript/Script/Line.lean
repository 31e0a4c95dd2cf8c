import RasterScript.Text.Blank
import RasterScript.Text.Split

/-!
# Lines of script

A line is a comment, blank, or a command: its fields are the longest runs of characters that are
not white space. There is no quoting and no escaping.
-/

namespace RasterScript

/-- What one line of a script is. -/
inductive Line where
  /-- The first characters that are not blank are `#` or `//`. -/
  | comment
  /-- There are no fields. -/
  | blank
  /-- The name of a command and its argument fields. -/
  | command (name : String) (args : List String)
deriving DecidableEq

namespace Line

/-- The fields of a text. -/
def fields (text : List Char) : List String :=
  ((splitRuns isBlank text).filter fun run => !run.isEmpty).map String.ofList

/-- Whether a text begins a comment once its leading blanks are gone. -/
def isComment (text : List Char) : Bool :=
  match text.dropWhile isBlank with
  | '#' :: _ => true
  | '/' :: '/' :: _ => true
  | _ => false

/-- Classifies the characters of a line. -/
def ofChars (text : List Char) : Line :=
  if isComment text then comment
  else
    match fields text with
    | [] => blank
    | name :: args => command name args

/-- Classifies a line. -/
def ofText (text : String) : Line := ofChars text.toList

/-- The fields of a command with its name first; other lines have none. -/
def toFields : Line → List String
  | comment | blank => []
  | command name args => name :: args

end Line

end RasterScript
