import RasterScript.FileStore
import RasterScript.Script.Line
import RasterScript.Script.Standard
import RasterScript.Text.Utf8

/-!
# Sessions

A session carries out a script. It owns the pipeline and the current source image, and each line
runs to its end before the next one is read: it is split into fields, its command is looked up, its
arguments are read, and then the pipeline grows or a directive is carried out.

In batch mode the result is rendered once, after the last line. In watch mode a file is written anew
after every line that names a known command.

Everything a session touches outside itself is in its `World`: the files, and the stream that
diagnostics go to. Every step returns the session and the world as they are afterwards, whether it
succeeded or not.
-/

namespace RasterScript

/-- Where a session is in its life. -/
inductive Phase where
  /-- No source yet; operations are accepted all the same. -/
  | awaitingBinding
  | active
  /-- The script is over; no more lines are taken. -/
  | terminated
deriving DecidableEq

/-- The name of the phase. -/
def Phase.name : Phase → String
  | awaitingBinding => "AwaitingBinding"
  | active => "Active"
  | terminated => "Terminated"

/-- What a line did. -/
inductive Outcome where
  /-- A comment or a blank line. -/
  | skipped
  /-- The name stands for no command. -/
  | unknown
  /-- The arguments were taken; whether they made an operation is another matter. -/
  | accepted
  /-- The arguments were refused. -/
  | rejected
  | bound
  | reset
  | help
  | shown
deriving DecidableEq

namespace Outcome

/-- The name of the outcome. -/
def name : Outcome → String
  | skipped => "Skipped"
  | unknown => "Unknown"
  | accepted => "Accepted"
  | rejected => "Rejected"
  | bound => "Bound"
  | reset => "Reset"
  | help => "Help"
  | shown => "Shown"

/-- Whether the line named a known command. -/
def isProcessed : Outcome → Bool
  | skipped | unknown => false
  | _ => true

end Outcome

/-- What a session has counted. -/
structure Summary where
  /-- The number of the last line taken. -/
  lines : Nat
  accepted : Nat
  rejected : Nat
  unknown : Nat
  renders : Nat
deriving DecidableEq

/--
A stream that diagnostics are written to, one line at a time. What becomes of every line is settled
beforehand: it is taken whole, or writing it fails after some bytes.
-/
structure Diagnostics where
  /-- What the stream has taken, read as UTF-8. -/
  text : String
  /-- How many lines it has been given. -/
  lines : Nat
  /-- After how many bytes the writing of a line fails, where it does. Lines are counted from 0. -/
  fate : Nat → Option Nat

namespace Diagnostics

/-- A stream that takes every line, after what it holds already. -/
def sound (text : String) : Diagnostics := ⟨text, 0, fun _ => none⟩

/-- The first bytes of a text, as far as they are taken, read as UTF-8. -/
def cut (text : String) (taken : Nat) : String :=
  String.ofList (Utf8.decodeLossy ((text.toList.flatMap String.utf8EncodeChar).take taken))

/-- Writes a line and ends it, and tells whether all of it has been taken. -/
def write (d : Diagnostics) (line : String) : Bool × Diagnostics :=
  match d.fate d.lines with
  | none => (true, ⟨d.text ++ (line ++ "\n"), d.lines + 1, d.fate⟩)
  | some taken => (false, ⟨d.text ++ cut (line ++ "\n") taken, d.lines + 1, d.fate⟩)

/-- Writes lines in order, up to the first that is not taken. -/
def writeAll (d : Diagnostics) : List String → Bool × Diagnostics
  | [] => (true, d)
  | line :: lines =>
    match d.write line with
    | (true, d) => writeAll d lines
    | (false, d) => (false, d)

end Diagnostics

/-- What a session acts on. -/
structure World where
  files : FileStore
  diagnostics : Diagnostics

/-- The state of a session. -/
structure Session (σ : Type) where
  registry : Registry
  engine : Engine σ
  /-- The engine's own state. -/
  engineState : σ
  /-- The file that is written anew after every processed line; without one the mode is batch. -/
  watch : Option String
  pipeline : Pipeline
  binding : Option Binding
  phase : Phase
  summary : Summary

/-- What a step of a session leaves behind. -/
structure Step (σ α : Type) where
  result : Except Error α
  session : Session σ
  world : World

namespace Session

variable {σ : Type}

/-- A session that has read nothing yet. -/
def start (registry : Registry) (engine : Engine σ) (engineState : σ) (watch : Option String) :
    Session σ :=
  ⟨registry, engine, engineState, watch, Pipeline.empty, none, .awaitingBinding, ⟨0, 0, 0, 0, 0⟩⟩

/-- Whether a file is written anew after every processed line. -/
def isWatch (s : Session σ) : Bool := s.watch.isSome

/-- Takes an image as the source. -/
def bind (s : Session σ) (binding : Binding) : Session σ :=
  { s with binding := some binding, phase := .active }

/-- Reads the source image at a path. -/
def load (files : FileStore) (path : String) : Except Error Binding :=
  match files.read path with
  | .error error => .error (.bind path (.file error))
  | .ok contents =>
    match contents.decode with
    | .error fault => .error (.bind path fault)
    | .ok encoded => .ok ⟨encoded.image, encoded.container, path⟩

/-- Binds the source image at a path, outside any line. -/
def preload (s : Session σ) (w : World) (path : String) : Step σ Unit :=
  match load w.files path with
  | .ok binding => ⟨.ok (), s.bind binding, w⟩
  | .error error => ⟨.error error, s, w⟩

/-- Writes lines to the diagnostics, one after the other, and goes on with an outcome. -/
def tell {α : Type} (s : Session σ) (w : World) (lines : List String) (fault : OtherFault)
    (value : α) : Step σ α :=
  let (all, diagnostics) := w.diagnostics.writeAll lines
  ⟨if all then .ok value else .error (.other fault), s, { w with diagnostics }⟩

/-- Writes a diagnostic and goes on with an outcome. -/
def report {α : Type} (s : Session σ) (w : World) (message : String) (value : α) : Step σ α :=
  s.tell w [message] .writeDiagnostic value

/-- Carries out a directive. -/
def direct (s : Session σ) (w : World) (directive : Directive) (args : List String) :
    Step σ Outcome :=
  match directive with
  | .read =>
    match load w.files (args.headD "") with
    | .ok binding => ⟨.ok .bound, s.bind binding, w⟩
    | .error error => ⟨.error error, s, w⟩
  | .reset =>
    let s := if s.isWatch then { s with pipeline := Pipeline.empty } else s
    ⟨.ok .reset, s, w⟩
  | .help => s.tell w s.registry.rows .writeHelp .help
  | .show => s.tell w s.pipeline.listing .writeListing .shown

/-- Carries out a command whose line has been counted. -/
def obey (s : Session σ) (w : World) (line : Nat) (name : String) (args : List String) :
    Step σ Outcome :=
  match s.registry.resolve? name with
  | none =>
    let s := { s with summary := { s.summary with unknown := s.summary.unknown + 1 } }
    s.report w (ScriptError.unknownCommand line name).text .unknown
  | some command =>
    match command.validate name args line with
    | .error error =>
      let s := { s with summary := { s.summary with rejected := s.summary.rejected + 1 } }
      s.report w error.text .rejected
    | .ok op =>
      let s := { s with summary := { s.summary with accepted := s.summary.accepted + 1 } }
      match op, command.action with
      | some op, _ => ⟨.ok .accepted, { s with pipeline := s.pipeline.append op }, w⟩
      | none, .transform _ => ⟨.ok .accepted, s, w⟩
      | none, .directive directive => s.direct w directive args

/-- Carries out one line, numbered from 1, without rendering. -/
def processLine (s : Session σ) (w : World) (line : Nat) (text : String) : Step σ Outcome :=
  if s.phase = .terminated then ⟨.error (.other .sessionOver), s, w⟩
  else
    let s := { s with summary := { s.summary with lines := line } }
    match Line.ofText text with
    | .comment | .blank => ⟨.ok .skipped, s, w⟩
    | .command name args => s.obey w line name args

/-- Renders the bound source through the pipeline. -/
def render (s : Session σ) (binding : Binding) : Except Error (Option Encoded) × Session σ :=
  let (result, state) := binding.render s.engine s.pipeline.ops s.engineState
  (result, { s with engineState := state })

/-- Counts a render that was written. -/
def countRender (s : Session σ) : Session σ :=
  { s with summary := { s.summary with renders := s.summary.renders + 1 } }

/--
Writes the watched file anew. It is not touched unless there is a whole new image to write; an error
that concerns this render alone is only reported.
-/
def renderWatch (s : Session σ) (w : World) (path : String) : Step σ Unit :=
  match s.binding with
  | none => ⟨.ok (), s, w⟩
  | some binding =>
    match s.render binding with
    | (.ok (some encoded), s) =>
      match w.files.write path (.picture encoded) with
      | .ok files => ⟨.ok (), s.countRender, { w with files }⟩
      | .error error => ⟨.error (.sink path (.file error)), s, w⟩
    | (.ok none, s) => ⟨.ok (), s, w⟩
    | (.error error, s) =>
      if error.isRecoverable then s.report w error.message ()
      else ⟨.error error, s, w⟩

/-- Carries out one line, and in watch mode renders if the line named a known command. -/
def step (s : Session σ) (w : World) (line : Nat) (text : String) : Step σ Outcome :=
  match s.processLine w line text with
  | ⟨.error error, s, w⟩ => ⟨.error error, s, w⟩
  | ⟨.ok outcome, s, w⟩ =>
    match s.watch with
    | some path =>
      if outcome.isProcessed then
        match s.renderWatch w path with
        | ⟨.ok (), s, w⟩ => ⟨.ok outcome, s, w⟩
        | ⟨.error error, s, w⟩ => ⟨.error error, s, w⟩
      else ⟨.ok outcome, s, w⟩
    | none => ⟨.ok outcome, s, w⟩

end Session

/-! ## Whole scripts -/

/-- The bytes of a script, and how reading it fails after them, if it does. -/
structure Script where
  bytes : List UInt8
  failure : Option StreamFault

namespace Script

/-- Splits bytes after every line feed: the complete lines with theirs, and what is left. -/
def split : List UInt8 → List (List UInt8) × List UInt8
  | [] => ([], [])
  | byte :: rest =>
    let (lines, left) := split rest
    if byte = 0x0a then ([byte] :: lines, left)
    else
      match lines with
      | [] => ([], byte :: left)
      | line :: lines => ((byte :: line) :: lines, left)

/-- The lines of a script that can be read. A failure loses the line it interrupts. -/
def lines (script : Script) : List (List UInt8) :=
  let (lines, left) := split script.bytes
  if script.failure.isSome ∨ left.isEmpty then lines else lines ++ [left]

/-- Drops a line feed at the end, and then a carriage return. -/
def stripNewline (line : List UInt8) : List UInt8 :=
  let line := if line.getLast? = some 0x0a then line.dropLast else line
  if line.getLast? = some 0x0d then line.dropLast else line

/-- The text of a line. -/
def lineText (line : List UInt8) : String :=
  String.ofList (Utf8.decodeLossy (stripNewline line))

end Script

/-- How an output fails. -/
inductive OutputFault where
  /-- Nothing can be written. -/
  | write (fault : StreamFault)
  /-- Writing works, but the final flush does not. -/
  | flush (fault : StreamFault)

/-- Where the final render goes. -/
structure Output where
  /-- The images that have been written, in order. -/
  writes : List Encoded
  fault : Option OutputFault

namespace Output

/-- The image that was written last. -/
def written (out : Output) : Option Encoded := out.writes.getLast?

/-- Writes and flushes an image. -/
def write (out : Output) (encoded : Encoded) : Except StreamFault Unit × Output :=
  match out.fault with
  | none => (.ok (), { out with writes := out.writes ++ [encoded] })
  | some (.write fault) => (.error fault, out)
  | some (.flush fault) => (.error fault, { out with writes := out.writes ++ [encoded] })

end Output

/-- What a run of a session leaves behind. -/
structure Run (σ : Type) where
  result : Except Error Summary
  session : Session σ
  world : World
  output : Output

namespace Session

variable {σ : Type}

/-- Carries out lines in order, numbered from `line` on, up to the first error. -/
def steps (s : Session σ) (w : World) : (line : Nat) → List (List UInt8) → Step σ Unit
  | _, [] => ⟨.ok (), s, w⟩
  | line, bytes :: rest =>
    match s.step w line (Script.lineText bytes) with
    | ⟨.ok _, s, w⟩ => steps s w (line + 1) rest
    | ⟨.error error, s, w⟩ => ⟨.error error, s, w⟩

/-- The render at the end of a batch. -/
def renderFinal (s : Session σ) (out : Output) : Except Error Unit × Session σ × Output :=
  match s.binding with
  | none => (.error .missingSource, s, out)
  | some binding =>
    match s.render binding with
    | (.error error, s) => (.error error, s, out)
    | (.ok none, s) => (.ok (), s, out)
    | (.ok (some encoded), s) =>
      match out.write encoded with
      | (.ok (), out) => (.ok (), s.countRender, out)
      | (.error fault, out) => (.error (.sink "output" fault), s, out)

/-- Carries out a script from its first line, without the end of the session. -/
def runLines (s : Session σ) (w : World) (script : Script) (out : Output) :
    Step σ Unit × Output :=
  match s.steps w 1 script.lines with
  | ⟨.error error, s, w⟩ => (⟨.error error, s, w⟩, out)
  | ⟨.ok (), s, w⟩ =>
    match script.failure with
    | some fault => (⟨.error (.script fault), s, w⟩, out)
    | none =>
      if s.isWatch then (⟨.ok (), s, w⟩, out)
      else
        let (result, s, out) := s.renderFinal out
        (⟨result, s, w⟩, out)

/--
Carries out a script and ends the session. In batch mode the final render goes to the output; in
watch mode nothing does.
-/
def run (s : Session σ) (w : World) (script : Script) (out : Output) : Run σ :=
  let (done, out) := s.runLines w script out
  let s := { done.session with phase := .terminated }
  match done.result with
  | .ok () => ⟨.ok s.summary, s, done.world, out⟩
  | .error error => ⟨.error error, s, done.world, out⟩

end Session

end RasterScript
