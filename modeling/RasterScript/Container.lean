/-!
# Image containers

The file formats that hold images. A container is recognised by the first bytes of a file, whatever
the file is called. Three of them can be written; the others can at most be read.
-/

namespace RasterScript

/-- A file format for images. -/
inductive Container where
  | png
  | jpeg
  | gif
  /-- A format that is not written, by the usual extension of its files. -/
  | other (name : String)
deriving DecidableEq

namespace Container

/-- The name of the container. -/
def name : Container → String
  | png => "png"
  | jpeg => "jpeg"
  | gif => "gif"
  | other name => name

/-- The container of a given name. -/
def ofName : String → Container
  | "png" => png
  | "jpeg" => jpeg
  | "gif" => gif
  | name => other name

/-- Whether bytes begin with a signature, in which `none` stands for any byte. -/
def matchesSignature : List (Option UInt8) → List UInt8 → Bool
  | [], _ => true
  | _ :: _, [] => false
  | none :: signature, _ :: bytes => matchesSignature signature bytes
  | some wanted :: signature, byte :: bytes => wanted == byte && matchesSignature signature bytes

/-- A signature without gaps. -/
def exactly (bytes : List UInt8) : List (Option UInt8) := bytes.map some

/-- A signature that is the text of its bytes. -/
def spelled (text : String) : List (Option UInt8) :=
  exactly (text.toList.map fun c => UInt8.ofNat c.toNat)

/-- The signatures, in the order in which they are tried. -/
def signatures : List (List (Option UInt8) × Container) := [
  (exactly [0x89, 0x50, 0x4e, 0x47, 0x0d, 0x0a, 0x1a, 0x0a], png),
  (exactly [0xff, 0xd8, 0xff], jpeg),
  (spelled "GIF89a", gif),
  (spelled "GIF87a", gif),
  (spelled "RIFF" ++ [none, none, none, none] ++ spelled "WEBP", other "webp"),
  (exactly [0x4d, 0x4d, 0x00, 0x2a], other "tiff"),
  (exactly [0x49, 0x49, 0x2a, 0x00], other "tiff"),
  (spelled "DDS ", other "dds"),
  (spelled "BM", other "bmp"),
  (exactly [0x00, 0x00, 0x01, 0x00], other "ico"),
  (spelled "#?RADIANCE", other "hdr"),
  (exactly [0x00, 0x00] ++ [none, none] ++ spelled "ftypavif", other "avif"),
  (exactly [0x76, 0x2f, 0x31, 0x01], other "exr"),
  (spelled "qoif", other "qoi"),
  (spelled "P1", other "pbm"),
  (spelled "P2", other "pbm"),
  (spelled "P3", other "pbm"),
  (spelled "P4", other "pbm"),
  (spelled "P5", other "pbm"),
  (spelled "P6", other "pbm"),
  (spelled "P7", other "pbm"),
  (spelled "farbfeld", other "ff")]

/-- The container that bytes begin like, if any. -/
def ofBytes? (bytes : List UInt8) : Option Container :=
  (signatures.find? fun (signature, _) => matchesSignature signature bytes).map (·.2)

end Container

end RasterScript
