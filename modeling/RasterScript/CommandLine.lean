import RasterScript.Session

/-!
# The command line

`Options.ofList?` reads the arguments, and `CommandLine.run` carries them out over a tree of files.
The stages come in a fixed order, each only where it is asked for: the command table, opening the
script, creating the output, binding a source, running the script, dumping the pipeline. The first
that ends the program decides the exit code, and nothing after it happens.

A script file is fetched in blocks while it is carried out, which shows when the script is also the
file that watch mode writes. `CommandLine.paths` says beforehand which part of the tree a run can
touch.
-/

namespace RasterScript

/-- What the command line asks for. -/
structure Options where
  /-- The script to read instead of standard input. -/
  script : Option String
  /-- The file to write the final image to instead of standard output. -/
  output : Option String
  /-- The image to bind before the script starts. -/
  source : Option String
  /-- The file to write anew after every processed line. -/
  watch : Option String
  /-- The file to write the final pipeline to. -/
  dump : Option String
  /-- Whether to show the command table and do nothing else. -/
  commands : Bool

namespace Options

/-- Nothing asked for. -/
def empty : Options := ⟨.none, .none, .none, .none, .none, false⟩

/-- The options that take a value. -/
inductive Valued where
  | script
  | output
  | source
  | watch
  | dump

/-- The option with a long name. -/
def Valued.ofLong? : String → Option Valued
  | "script" => some script
  | "output" => some output
  | "source" => some source
  | "watch" => some watch
  | "dump-pipeline" => some dump
  | _ => .none

/-- The option with a letter. -/
def Valued.ofLetter? : Char → Option Valued
  | 'c' => some script
  | 'o' => some output
  | 'f' => some source
  | 'w' => some watch
  | _ => .none

/-- Gives an option its value. It must have none yet, and the value must not be empty. -/
def set? (options : Options) (option : Valued) (value : String) : Option Options :=
  if value = "" then .none
  else
    match option, options with
    | .script, ⟨.none, output, source, watch, dump, commands⟩ =>
      some ⟨some value, output, source, watch, dump, commands⟩
    | .output, ⟨script, .none, source, watch, dump, commands⟩ =>
      some ⟨script, some value, source, watch, dump, commands⟩
    | .source, ⟨script, output, .none, watch, dump, commands⟩ =>
      some ⟨script, output, some value, watch, dump, commands⟩
    | .watch, ⟨script, output, source, .none, dump, commands⟩ =>
      some ⟨script, output, source, some value, dump, commands⟩
    | .dump, ⟨script, output, source, watch, .none, commands⟩ =>
      some ⟨script, output, source, watch, some value, commands⟩
    | _, _ => .none

/-- One argument, as far as it can be understood by itself. -/
inductive Argument where
  /-- The option that asks for the command table. -/
  | commands
  /-- An option whose value is the next argument. -/
  | opens (option : Valued)
  /-- An option with its value. -/
  | assigns (option : Valued) (value : String)
  | unknown

/-- Splits a text at the first equals sign. -/
def splitEquals (text : List Char) : List Char × Option (List Char) :=
  match text.dropWhile (· ≠ '=') with
  | [] => (text, .none)
  | _ :: value => (text.takeWhile (· ≠ '='), some value)

/-- Understands one argument: a long option after two dashes, or a letter after one. -/
def Argument.ofChars : List Char → Argument
  | '-' :: '-' :: text =>
    let (name, value) := splitEquals text
    match String.ofList name, value with
    | "commands", .none => commands
    | name, value =>
      match Valued.ofLong? name, value with
      | some option, .none => opens option
      | some option, some value => assigns option (String.ofList value)
      | .none, _ => unknown
  | '-' :: letter :: text =>
    match Valued.ofLetter? letter with
    | some option =>
      match text with
      | [] => opens option
      | '=' :: value => assigns option (String.ofList value)
      | value => assigns option (String.ofList value)
    | .none => unknown
  | _ => unknown

/-- Whether an argument can be the value of the option before it: a dash, or no dash in front. -/
def isValue (argument : String) : Bool := argument = "-" ∨ argument.toList.head? ≠ some '-'

/-- Adds the options of further arguments. -/
def addAll? (options : Options) : List String → Option Options
  | [] | ["--"] => some options
  | argument :: rest =>
    match Argument.ofChars argument.toList with
    | .commands =>
      if options.commands then .none else addAll? { options with commands := true } rest
    | .assigns option value => (options.set? option value).bind fun options => addAll? options rest
    | .opens option =>
      match rest with
      | value :: rest =>
        if isValue value then (options.set? option value).bind fun options => addAll? options rest
        else .none
      | [] => .none
    | .unknown => .none

/--
Reads the arguments. Each option may be given once, and there is nothing besides options, except
that two dashes may end them.
-/
def ofList? (arguments : List String) : Option Options := empty.addAll? arguments

end Options

/-- What a program leaves behind. -/
structure Finish where
  outcome : ExitOutcome
  errors : String
  stdout : Option Encoded
  files : FileStore

namespace CommandLine

/-- Ends with a message on the error stream. -/
def fail (outcome : ExitOutcome) (errors message : String) (files : FileStore) : Finish :=
  ⟨outcome, errors ++ "imgsh: " ++ message ++ "\n", none, files⟩

/-- The script: the file asked for, or standard input. A directory opens but cannot be read. -/
def openScript (options : Options) (stdin : List UInt8) (files : FileStore) :
    Except FileError Script :=
  match options.script with
  | none => .ok ⟨stdin, none⟩
  | some path =>
    match files.read path with
    | .ok (.bytes bytes) => .ok ⟨bytes, none⟩
    | .ok (.picture _) => .ok ⟨[], none⟩
    | .error .isDirectory => .ok ⟨[], some (.file .isDirectory)⟩
    | .error error => .error error

/-- How many bytes of a script file are fetched at a time. -/
def blockSize : Nat := 8192

/-- How many bytes have been fetched when so many have been taken: whole blocks. -/
def fetched (taken : Nat) : Nat := (taken + (blockSize - 1)) / blockSize * blockSize

/-- How many bytes of some lines have been taken when the first render is written, if one is. -/
def takenAtRender? {σ : Type} (s : Session σ) (w : World) :
    (line taken : Nat) → List (List UInt8) → Option Nat
  | _, _, [] => none
  | line, taken, bytes :: rest =>
    match s.step w line (Script.lineText bytes) with
    | ⟨.error _, _, _⟩ => none
    | ⟨.ok _, s, w⟩ =>
      if 0 < s.summary.renders then some (taken + bytes.length)
      else takenAtRender? s w (line + 1) (taken + bytes.length) rest

/-- Whether the file to write anew after every line is the script itself. -/
def watchesScript (options : Options) (files : FileStore) : Bool :=
  match options.script.map files.resolve, options.watch.map files.writable with
  | some (.ok script), some (.ok watch) => script = watch
  | _, _ => false

/--
The part of a script that a session gets to see. A script whose own file is watched is gone with
the first render, and of its bytes only those fetched by then remain.
-/
def seen {σ : Type} (script : Script) (options : Options) (s : Session σ) (w : World) : Script :=
  if watchesScript options w.files then
    match takenAtRender? s w 1 0 script.lines with
    | some taken => { script with bytes := script.bytes.take (fetched taken) }
    | none => script
  else script

/-- Empties the output file. -/
def createOutput (options : Options) (files : FileStore) : Except FileError FileStore :=
  match options.output with
  | none => .ok files
  | some path => files.write path (.bytes [])

/-- Puts the image that was written to the output where the output goes. -/
def deliver (options : Options) (written : Option Encoded) (files : FileStore) :
    Option Encoded × FileStore :=
  match options.output, written with
  | some path, some encoded =>
    match files.write path (.picture encoded) with
    | .ok files => (none, files)
    | .error _ => (none, files)
  | _, _ => (written, files)

/-- Writes the pipeline of a finished session. -/
def dump (options : Options) (pipeline : Pipeline) (files : FileStore) :
    Except String FileStore :=
  match options.dump with
  | none => .ok files
  | some path =>
    match files.write path (Contents.ofText pipeline.dump) with
    | .ok files => .ok files
    | .error error => .error ("write pipeline '" ++ path ++ "': " ++ error.message)

/-- Binds the source that was asked for. -/
def preload (options : Options) (session : Session Unit) (world : World) : Step Unit Unit :=
  match options.source with
  | none => ⟨.ok (), session, world⟩
  | some path => session.preload world path

/-- Runs the script of a session whose output has been created, and dumps its pipeline. -/
def runSession (options : Options) (session : Session Unit) (world : World) (script : Script) :
    Finish :=
  let run := session.run world script ⟨[], none⟩
  let (stdout, files) := deliver options run.output.written run.world.files
  let errors := run.world.diagnostics.text
  match run.result with
  | .error error => { fail (.ofError error) errors error.message files with stdout }
  | .ok _ =>
    match dump options run.session.pipeline files with
    | .error message => { fail .failure errors message files with stdout }
    | .ok files => ⟨.success, errors, stdout, files⟩

/-- Carries out the options. -/
def run (options : Options) (stdin : List UInt8) (files : FileStore) : Finish :=
  if options.commands then ⟨.usage, Registry.standard.help, none, files⟩
  else
    match openScript options stdin files with
    | .error error =>
      fail .scriptOpen ""
        ("open script '" ++ options.script.getD "" ++ "': " ++ error.message) files
    | .ok _ =>
      match createOutput options files with
      | .error error =>
        fail .outputOpen ""
          ("create output '" ++ options.output.getD "" ++ "': " ++ error.message) files
      | .ok files =>
        let session := Session.start Registry.standard Engine.plain () options.watch
        match preload options session ⟨files, .sound ""⟩ with
        | ⟨.error error, _, _⟩ => fail (.ofError error) "" error.message files
        | ⟨.ok (), session, world⟩ =>
          -- The output may be the script itself, so the script is read only now.
          match openScript options stdin files with
          | .error error => fail .failure "" (Error.script (.file error)).message files
          | .ok script => runSession options session world (seen script options session world)

/-- The file that a line of script reads. -/
def readPath? (line : List UInt8) : Option String :=
  match Line.ofText (Script.lineText line) with
  | .command name args =>
    match (Registry.standard.resolve? name).map Command.action with
    | some (.directive .read) => args.head?
    | _ => none
  | _ => none

/-- The paths that carrying out the options with a script can touch. -/
def paths (options : Options) (script : List UInt8) : List String :=
  [options.script, options.output, options.source, options.watch, options.dump].filterMap id ++
    (Script.lines ⟨script, none⟩).filterMap readPath?

end CommandLine

end RasterScript
