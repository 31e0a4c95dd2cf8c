import RasterScript.Png.Basic
import RasterScript.Render
import RasterScript.Text.Split

/-!
# A tree of files

The part of a file system that a run can see. Files hold either plain bytes or an encoded image,
and writing a file replaces all of it.

Paths are resolved name by name, from the root if they begin with a slash and else from the working
directory. Only in a directory can a name be followed; `.` and empty names stay where they are, and
`..` goes up and stops at the root.
-/

namespace RasterScript

/-- What a file holds. -/
inductive Contents where
  | bytes (plain : List UInt8)
  | picture (encoded : Encoded)

namespace Contents

/-- A text as bytes. -/
def ofText (text : String) : Contents := bytes text.toUTF8.toList

/-- The image in a file and its container. Of plain bytes, only those of a PNG file are read. -/
def decode : Contents → Except BindFault Encoded
  | picture encoded => .ok encoded
  | bytes plain =>
    match Container.ofBytes? plain, Png.read? plain with
    | some container, some image => .ok ⟨container, image⟩
    | some _, none => .error .undecodable
    | none, _ => .error .unrecognized

end Contents

/-- What a path leads to. -/
inductive Node where
  | file (contents : Contents)
  | directory

/-- A place in the tree, as the names that lead to it from the root. -/
abbrev Place := List String

/-- Files and directories by place. The root itself is always there. -/
structure FileStore where
  /-- The working directory. -/
  current : Place
  nodes : List (Place × Node)

namespace FileStore

/-- What is at a place. -/
def node? (store : FileStore) : Place → Option Node
  | [] => some .directory
  | place => (store.nodes.find? fun entry => entry.1 = place).map (·.2)

/-- Puts a node at a place, instead of what was there. -/
def put (store : FileStore) (place : Place) (node : Node) : FileStore :=
  { store with nodes := (place, node) :: store.nodes.filter fun entry => entry.1 ≠ place }

/-- Makes the directories that lead to a place, where nothing is yet. -/
def reach (store : FileStore) (place : Place) : FileStore :=
  (List.range place.length).foldl
    (fun store n =>
      match store.node? (place.take n) with
      | some _ => store
      | none => store.put (place.take n) .directory)
    store

/-- Only the working directory and what it is in. -/
def startingIn (current : Place) : FileStore :=
  (reach ⟨current, []⟩ current).put current .directory

/-- The longest name, in bytes. -/
def maxName : Nat := 255

/-- The longest path, in bytes. -/
def maxPath : Nat := 4095

/-- Follows names from a place on, to something that is there. -/
def follow (store : FileStore) (place : Place) : List String → Except FileError Place
  | [] => .ok place
  | name :: names =>
    match store.node? place with
    | some .directory =>
      if name = "" ∨ name = "." then follow store place names
      else if name = ".." then follow store place.dropLast names
      else if maxName < name.utf8ByteSize then .error .nameTooLong
      else
        match store.node? (place ++ [name]) with
        | some _ => follow store (place ++ [name]) names
        | none => .error .noEntry
    | _ => .error .notDirectory

/-- The names of a path, split at its slashes. -/
def names (path : String) : List String :=
  (splitRuns (· = '/') path.toList).map String.ofList

/-- Where a path is followed from. -/
def startOf (store : FileStore) (path : String) : Place :=
  if path.toList.head? = some '/' then [] else store.current

/-- What is wrong with a path before any name of it is followed. -/
def pathFault? (path : String) : Option FileError :=
  if path.toList.contains (Char.ofNat 0) then some .interiorNul
  else if path = "" then some .noEntry
  else if maxPath < path.utf8ByteSize then some .nameTooLong
  else none

/-- The place of what is there at a path. -/
def resolve (store : FileStore) (path : String) : Except FileError Place :=
  match pathFault? path with
  | some error => .error error
  | none => store.follow (store.startOf path) (names path)

/-- What is in the file at a path. -/
def read (store : FileStore) (path : String) : Except FileError Contents :=
  match store.resolve path with
  | .error error => .error error
  | .ok place =>
    match store.node? place with
    | some (.file contents) => .ok contents
    | _ => .error .isDirectory

/-- The place of a file of the given name in a directory, whether it is there or not. -/
def fileIn (store : FileStore) (place : Place) (name : String) : Except FileError Place :=
  if name = "." ∨ name = ".." then .error .isDirectory
  else if maxName < name.utf8ByteSize then .error .nameTooLong
  else
    match store.node? (place ++ [name]) with
    | some .directory => .error .isDirectory
    | _ => .ok (place ++ [name])

/--
The place that writing to a path would fill. A slash at the end asks for a directory, whatever is
there.
-/
def writable (store : FileStore) (path : String) : Except FileError Place :=
  match pathFault? path with
  | some error => .error error
  | none =>
    match (names path).reverse.dropWhile (· = "") with
    | [] => .error .isDirectory
    | name :: above =>
      match store.follow (store.startOf path) above.reverse with
      | .error error => .error error
      | .ok place =>
        match store.node? place with
        | some .directory =>
          if path.toList.getLast? = some '/' then .error .isDirectory else store.fileIn place name
        | _ => .error .notDirectory

/-- Writes a file whole, creating it in its directory if need be. -/
def write (store : FileStore) (path : String) (contents : Contents) :
    Except FileError FileStore :=
  (store.writable path).map fun place => store.put place (.file contents)

/-- Puts a node at the end of a path without `..`, in directories made where they are missing. -/
def install (store : FileStore) (path : String) (node : Node) : FileStore :=
  let place := store.startOf path ++ (names path).filter fun name => name ≠ "" ∧ name ≠ "."
  (store.reach place).put place node

end FileStore

end RasterScript
