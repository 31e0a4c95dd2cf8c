import RasterScript.Number.Shortest

/-!
# Rejected lines

A line of script that cannot be carried out costs only itself: it is reported and the next one is
read. `Reason` says why a known command refused its arguments, `ScriptError` is the report.
-/

namespace RasterScript

/-- Why the arguments of a known command were refused. Arguments are counted from 0. -/
inductive Reason where
  /-- There are fewer argument fields than the command needs. -/
  | arity (least got : Nat)
  /-- An argument that must be an integer is not one of 32 bits. -/
  | notInteger (index : Nat) (field : String)
  /-- A number is outside the range of the command. -/
  | range (index : Nat) (value : Float)
  /-- A word is not among those the command knows. -/
  | invalidChoice (index : Nat) (field : String)
  /-- A field was asked for that is not there: the table entry promises too few arguments. -/
  | missing (index : Nat)

/-- The reason in words, arguments counted from 1. -/
def Reason.text : Reason → String
  | arity least got =>
    "expected " ++ Integer.text least ++ " argument(s), got " ++ Integer.text got
  | notInteger index field =>
    "argument " ++ Integer.text (index + 1) ++ " '" ++ field ++ "' is not an integer"
  | range index value =>
    "argument " ++ Integer.text (index + 1) ++ " (" ++ Double.text value ++ ") is out of range"
  | invalidChoice index field =>
    "argument " ++ Integer.text (index + 1) ++ " '" ++ field ++ "' is not a valid choice"
  | missing index => "argument " ++ Integer.text (index + 1) ++ " is missing"

/-- A line of script that was skipped, with its number counted from 1. -/
inductive ScriptError where
  /-- No command has this name. -/
  | unknownCommand (line : Nat) (command : String)
  /-- The command, named as in the script, refused its arguments. -/
  | invalid (line : Nat) (command usage : String) (reason : Reason)

namespace ScriptError

/-- The number of the line. -/
def line : ScriptError → Nat
  | unknownCommand line _ => line
  | invalid line _ _ _ => line

/-- The reason, where the command is known. -/
def reason? : ScriptError → Option Reason
  | unknownCommand _ _ => none
  | invalid _ _ _ reason => some reason

/-- The diagnostic: where, which command, and how it is used. -/
def text : ScriptError → String
  | unknownCommand line command =>
    "line " ++ Integer.text line ++ ": " ++ command ++ " invalid command"
  | invalid line command usage _ =>
    "line " ++ Integer.text line ++ ": " ++ command ++ " " ++ usage

end ScriptError

end RasterScript
