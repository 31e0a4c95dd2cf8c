import RasterScript.CommandLine

/-!
# The program

Fetches the part of the file system that the command line and the script name, has the library
carry out the run over it, and puts what has changed back. PNG is the only container whose pixels
are read and written here.
-/

open RasterScript

namespace RasterScript.Program

/-- How the program is called. -/
def usage : String :=
  "usage: imgsh [-c SCRIPT] [-o OUTPUT] [-f SOURCE] [-w WATCH] " ++
    "[--dump-pipeline FILE] [--commands]\n"

/-- The path of a place. -/
def pathOf (place : Place) : String := "/" ++ "/".intercalate place

/-- What the file system holds at a place. -/
def fetch (place : Place) : IO (Option Node) := do
  match ← (IO.FS.readBinFile (pathOf place)).toBaseIO with
  | .ok bytes => return some (.file (.bytes bytes.toList))
  | .error (.noFileOrDirectory ..) => return none
  | .error _ => return some .directory

/-- Adds everything on the way along some names to a store. -/
def follow (store : FileStore) (place : Place) : List String → IO FileStore
  | [] => return store
  | name :: names => do
    if name = "" ∨ name = "." then follow store place names
    else if name = ".." then follow store place.dropLast names
    else
      let place := place ++ [name]
      match store.node? place with
      | some _ => follow store place names
      | none =>
        match ← fetch place with
        | some node => follow (store.put place node) place names
        | none => return store

/-- Reads a stream to its end. -/
partial def readAll (input : IO.FS.Stream) (bytes : ByteArray) : IO ByteArray := do
  let more ← input.read 65536
  if more.isEmpty then return bytes else readAll input (bytes ++ more)

/-- An image in its container, as bytes. -/
def encodedBytes (encoded : Encoded) : ByteArray := (Png.write encoded.image).toByteArray

/-- Writes the files that a run has changed. -/
def putBack (before after : FileStore) : IO Unit := do
  for (place, node) in after.nodes do
    match node, before.node? place with
    | .file (.picture encoded), _ => IO.FS.writeBinFile (pathOf place) (encodedBytes encoded)
    | .file (.bytes bytes), some (.file (.bytes old)) =>
      if bytes ≠ old then IO.FS.writeBinFile (pathOf place) bytes.toByteArray
    | .file (.bytes bytes), _ => IO.FS.writeBinFile (pathOf place) bytes.toByteArray
    | .directory, _ => pure ()

/-- Carries out the options: the number to exit with. -/
def run (options : Options) : IO UInt32 := do
  let stdin ←
    if options.commands || options.script.isSome then pure ByteArray.empty
    else readAll (← IO.getStdin) ByteArray.empty
  let start := FileStore.startingIn (FileStore.names (← IO.currentDir).toString |>.filter (· ≠ ""))
  let add (store : FileStore) (path : String) : IO FileStore :=
    follow store (store.startOf path) (FileStore.names path)
  let store ← options.script.toList.foldlM add start
  let script :=
    match options.script.map store.read with
    | some (.ok (.bytes bytes)) => bytes
    | _ => stdin.toList
  let store ← (CommandLine.paths options script).foldlM add store
  let finish := CommandLine.run options stdin.toList store
  putBack store finish.files
  IO.eprint finish.errors
  if let some encoded := finish.stdout then
    let output ← IO.getStdout
    output.write (encodedBytes encoded)
    output.flush
  return finish.outcome.code.toUInt32

end RasterScript.Program

/-- Runs the program with its arguments. -/
def main (arguments : List String) : IO UInt32 := do
  match Options.ofList? arguments with
  | some options => Program.run options
  | none =>
    IO.eprint Program.usage
    return 2
