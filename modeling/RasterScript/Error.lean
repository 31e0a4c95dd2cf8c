import RasterScript.Bounds
import RasterScript.Container
import RasterScript.Operation.Basic

/-!
# What can end a render or a run

Each error is a cause; its wording is in `message` alone. A command line maps the error that ended
it to an `ExitOutcome`, and that to the number it exits with.

Causes that come from outside the library, such as an engine's own, are kept as `reported` text.
-/

namespace RasterScript

/-- Why the file system refused. -/
inductive FileError where
  | noEntry
  | notDirectory
  | isDirectory
  | nameTooLong
  | interiorNul
deriving DecidableEq

/-- The refusal in words. -/
def FileError.message : FileError → String
  | noEntry => "No such file or directory (os error 2)"
  | notDirectory => "Not a directory (os error 20)"
  | isDirectory => "Is a directory (os error 21)"
  | nameTooLong => "File name too long (os error 36)"
  | interiorNul => "file name contained an unexpected NUL byte"

/-- Why a stream failed. -/
inductive StreamFault where
  | file (error : FileError)
  | reported (text : String)
deriving DecidableEq

/-- The failure in words. -/
def StreamFault.message : StreamFault → String
  | file error => error.message
  | reported text => text

/-- Why a source image could not be bound. -/
inductive BindFault where
  | file (error : FileError)
  /-- The first bytes belong to no known container. -/
  | unrecognized
  /-- The container is known, but its contents cannot be decoded. -/
  | undecodable
  /-- A chain of causes, the outermost first. -/
  | reported (chain : List String)
deriving DecidableEq

/-- The cause in words. -/
def BindFault.message : BindFault → String
  | file error => error.message
  | unrecognized => "unrecognized image container"
  | undecodable => "decode image"
  | reported chain => ": ".intercalate chain

/-- Why a filter did not produce its image. -/
inductive RenderFault where
  /-- The destination does not have the size that the operation calls for. -/
  | destination (command : String) (actual expected : Bounds)
  /-- The result of a step would have too many pixels. -/
  | tooLarge (size : Bounds)
  /-- The scaled image that a fill is cut from would have too many pixels. -/
  | coverTooLarge (cover : Bounds)
  /-- A flip or a turn does not fit its destination. -/
  | dimensions
  /-- The bytes of an image to blur are more than 64 bits can count. -/
  | blurOverflow
  /-- The bytes of an image to blur are not as many as its size calls for. -/
  | blurLength
  /-- The weights of a blur add up to nothing. -/
  | blurWeights
  /-- The whole pipeline produced another size than was announced. -/
  | produced (actual expected : Bounds)
  | reported (text : String)
  /-- A fault at one step, counted from 0. -/
  | atStep (index : Nat) (op : Operation) (fault : RenderFault)

/-- The fault in words. -/
def RenderFault.message : RenderFault → String
  | destination command actual expected =>
    command ++ ": destination is " ++ actual.text ++ ", expected " ++ expected.text
  | tooLarge size => size.text ++ " is too large"
  | coverTooLarge cover => "resizefill: cover " ++ cover.text ++ " is too large"
  | dimensions => "The Image's dimensions are either too small or too large"
  | blurOverflow => "blur buffer size overflow"
  | blurLength => "blur_rgba8 expects src matching width*height*4"
  | blurWeights => "gaussian kernel sum is zero"
  | produced actual expected =>
    "pipeline produced " ++ actual.text ++ ", expected " ++ expected.text
  | reported text => text
  | atStep index op fault =>
    "step " ++ Integer.text index ++ " (" ++ op.text ++ "): " ++ fault.message

/-- Why a container did not take an image. -/
inductive EncodeFault where
  /-- There are no pixels. -/
  | emptyImage (container : Container) (size : Bounds)
  /-- A side is longer than a GIF can say. -/
  | gifSides
  /-- A side is longer than a JPEG can say. -/
  | jpegSides (size : Bounds)
  | reported (text : String)
deriving DecidableEq

/-- The fault in words. -/
def EncodeFault.message : EncodeFault → String
  | emptyImage container size => container.name ++ ": image is empty (" ++ size.text ++ ")"
  | gifSides => "gif: The Image's dimensions are either too small or too large"
  | jpegSides size =>
    "jpeg: Format error encoding Jpeg:\nInvalid image size (" ++ Integer.text size.width ++ " x " ++
      Integer.text size.height ++
      ") to encode as JPEG: width and height must be >= 1 and <= 65535"
  | reported text => text

/-- Any other fatal condition. -/
inductive OtherFault where
  /-- The session takes no more lines. -/
  | sessionOver
  /-- A diagnostic could not be written. -/
  | writeDiagnostic
  /-- The command table could not be written. -/
  | writeHelp
  /-- The listing of the pipeline could not be written. -/
  | writeListing
  /-- The outermost of a chain of causes. -/
  | reported (text : String)
deriving DecidableEq

/-- The condition in words. -/
def OtherFault.message : OtherFault → String
  | sessionOver => "session already terminated"
  | writeDiagnostic => "write diagnostic"
  | writeHelp => "write command table"
  | writeListing => "write pipeline listing"
  | reported text => text

/-- Everything that can end a render or a run. -/
inductive Error where
  /-- The source at a path could not be read or decoded. -/
  | bind (path : String) (fault : BindFault)
  /-- An output could not be written. -/
  | sink (target : String) (fault : StreamFault)
  /-- The script could not be read to its end. -/
  | script (fault : StreamFault)
  /-- The script ended and no source is bound. -/
  | missingSource
  | render (fault : RenderFault)
  | encode (fault : EncodeFault)
  | other (fault : OtherFault)

namespace Error

/-- The error in words. -/
def message : Error → String
  | bind path fault => "read '" ++ path ++ "': " ++ fault.message
  | sink target fault => "write " ++ target ++ ": " ++ fault.message
  | script fault => "read script: " ++ fault.message
  | missingSource => "no source image: use 'read <file>' or preload a source"
  | render fault => "render error: " ++ fault.message
  | encode fault => "encode error: " ++ fault.message
  | other fault => fault.message

/-- Whether a script can go on: only the current render is lost. -/
def isRecoverable : Error → Bool
  | render _ | encode _ => true
  | _ => false

end Error

/-- How a command line ends. -/
inductive ExitOutcome where
  /-- The script ran to its end. -/
  | success
  /-- The command table was shown. -/
  | usage
  /-- The script could not be opened. -/
  | scriptOpen
  /-- The output could not be created or written. -/
  | outputOpen
  /-- The script ended without a source. -/
  | missingSource
  /-- A source could not be bound. -/
  | bindFailed
  /-- Any other error. -/
  | failure
deriving DecidableEq

namespace ExitOutcome

/-- The outcome of an error. -/
def ofError : Error → ExitOutcome
  | .bind _ _ => bindFailed
  | .sink _ _ => outputOpen
  | .missingSource => missingSource
  | .script _ | .render _ | .encode _ | .other _ => failure

/-- The number to exit with. -/
def code : ExitOutcome → Nat
  | success => 0
  | usage => 1
  | scriptOpen => 2
  | outputOpen => 3
  | missingSource => 4
  | bindFailed => 5
  | failure => 6

/-- The name of the outcome. -/
def name : ExitOutcome → String
  | success => "Success"
  | usage => "Usage"
  | scriptOpen => "ScriptOpen"
  | outputOpen => "OutputOpen"
  | missingSource => "MissingSource"
  | bindFailed => "BindFailed"
  | failure => "Failure"

end ExitOutcome

end RasterScript
