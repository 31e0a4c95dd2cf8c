import RasterScript.Image
import RasterScript.Png.Checksum
import RasterScript.Png.Inflate

/-!
# PNG files

A file is a signature and a row of chunks, each with a length, a name, its data and a check sum.
`Png.write` puts all pixels into one chunk without compressing them. `Png.read?` takes any file
with eight bits a sample whose rows come in order; other files are refused, and so are those that
make a single colour transparent.
-/

namespace RasterScript

namespace Png

/-- The first bytes of every file. -/
def signature : List UInt8 := [0x89, 0x50, 0x4e, 0x47, 0x0d, 0x0a, 0x1a, 0x0a]

/-- A number in four bytes, the highest first. -/
def fourBytes (n : Nat) : List UInt8 :=
  [UInt8.ofNat (n / 0x1000000), UInt8.ofNat (n / 0x10000), UInt8.ofNat (n / 0x100), UInt8.ofNat n]

/-- The name of a chunk as bytes. -/
def nameBytes (name : String) : List UInt8 := name.toList.map fun c => UInt8.ofNat c.toNat

/-! ## Writing -/

/-- One chunk. -/
def chunk (name : String) (data : List UInt8) : List UInt8 :=
  fourBytes data.length ++ nameBytes name ++ data ++ fourBytes (crc (nameBytes name ++ data))

/-- The rows of an image, each behind the number of its filter, which is none. -/
def rows (image : Image) : List UInt8 :=
  (List.range image.height).flatMap fun y =>
    0 :: (List.range image.width).flatMap fun x =>
      let p := image.pixel x y
      [p.red, p.green, p.blue, p.alpha]

/-- The longest block of plain bytes. -/
def maxPlain : Nat := 65535

/-- A block of plain bytes. -/
def plainBlock (last : Bool) (data : List UInt8) : List UInt8 :=
  let complement := maxPlain - data.length
  [if last then 1 else 0, UInt8.ofNat data.length, UInt8.ofNat (data.length / 256),
    UInt8.ofNat complement, UInt8.ofNat (complement / 256)] ++ data

/-- Bytes cut into `blocks` blocks of plain bytes. -/
def plainBlocks : (blocks : Nat) → List UInt8 → List UInt8
  | 0, _ => []
  | blocks + 1, data =>
    plainBlock (blocks = 0) (data.take maxPlain) ++ plainBlocks blocks (data.drop maxPlain)

/-- Bytes in the form that compressed data have, but not compressed. -/
def deflated (data : List UInt8) : List UInt8 :=
  [0x78, 0x01] ++ plainBlocks (data.length / maxPlain + 1) data ++ fourBytes (adler data)

/-- An image as the bytes of a file. -/
def write (image : Image) : List UInt8 :=
  signature ++
    chunk "IHDR" (fourBytes image.width ++ fourBytes image.height ++ [8, 6, 0, 0, 0]) ++
    chunk "IDAT" (deflated (rows image)) ++ chunk "IEND" []

/-! ## Reading -/

/-- The value of bytes, the highest first. -/
def valueOf (bytes : List UInt8) : Nat := bytes.foldl (fun value byte => 256 * value + byte.toNat) 0

/-- The chunks of a file by name, up to the one that ends it. -/
def chunks? : (fuel : Nat) → List UInt8 → Option (List (List UInt8 × List UInt8))
  | 0, _ => none
  | fuel + 1, bytes =>
    let length := valueOf (bytes.take 4)
    let name := (bytes.drop 4).take 4
    let data := (bytes.drop 8).take length
    let check := ((bytes.drop 8).drop length).take 4
    if check.length < 4 ∨ valueOf check ≠ crc (name ++ data) then none
    else if name = nameBytes "IEND" then some []
    else (chunks? fuel (bytes.drop (12 + length))).map ((name, data) :: ·)

/-- How a pixel is stored. -/
inductive Layout where
  | gray
  | color
  | indexed
  | grayAlpha
  | colorAlpha

namespace Layout

/-- The layout with a number. -/
def ofNumber? : UInt8 → Option Layout
  | 0 => some gray
  | 2 => some color
  | 3 => some indexed
  | 4 => some grayAlpha
  | 6 => some colorAlpha
  | _ => none

/-- The number of bytes of a pixel. -/
def size : Layout → Nat
  | gray | indexed => 1
  | grayAlpha => 2
  | color => 3
  | colorAlpha => 4

end Layout

/-- The colours that indexed pixels stand for, and how opaque they are. -/
structure Palette where
  colors : Array UInt8
  alphas : Array UInt8

/-- The pixel whose bytes begin at a place. -/
def pixelAt (layout : Layout) (palette : Palette) (bytes : Array UInt8) (place : Nat) : Pixel :=
  let at0 := bytes.getD place 0
  let at1 := bytes.getD (place + 1) 0
  match layout with
  | .gray => ⟨at0, at0, at0, 255⟩
  | .grayAlpha => ⟨at0, at0, at0, at1⟩
  | .color => ⟨at0, at1, bytes.getD (place + 2) 0, 255⟩
  | .colorAlpha => ⟨at0, at1, bytes.getD (place + 2) 0, bytes.getD (place + 3) 0⟩
  | .indexed =>
    let first := 3 * at0.toNat
    ⟨palette.colors.getD first 0, palette.colors.getD (first + 1) 0,
      palette.colors.getD (first + 2) 0, palette.alphas.getD at0.toNat 255⟩

/-- The one of three neighbours that is closest to what their slope foretells. -/
def foretold (left up corner : UInt8) : UInt8 :=
  let (a, b, c) := ((left.toNat : Int), (up.toNat : Int), (corner.toNat : Int))
  let (da, db, dc) := ((b - c).natAbs, (a - c).natAbs, (a + b - 2 * c).natAbs)
  if da ≤ db ∧ da ≤ dc then left else if db ≤ dc then up else corner

/-- What the filter of a row adds to a byte. -/
def filterTerm (filter left up corner : UInt8) : UInt8 :=
  match filter with
  | 1 => left
  | 2 => up
  | 3 => UInt8.ofNat ((left.toNat + up.toNat) / 2)
  | 4 => foretold left up corner
  | _ => 0

/--
Undoes the filters of rows of `stride` bytes. The byte to the left is a whole pixel of `step` bytes
away, and there are zeros around the image.
-/
def unfiltered (raw : Array UInt8) (stride step height : Nat) : Array UInt8 :=
  (List.range height).foldl
    (fun done y =>
      let filter := raw.getD (y * (stride + 1)) 0
      (List.range stride).foldl
        (fun done x =>
          let left := if step ≤ x then done.getD (y * stride + x - step) 0 else 0
          let up := if 0 < y then done.getD ((y - 1) * stride + x) 0 else 0
          let corner := if 0 < y ∧ step ≤ x then done.getD ((y - 1) * stride + x - step) 0 else 0
          done.push (raw.getD (y * (stride + 1) + 1 + x) 0 + filterTerm filter left up corner))
        done)
    (Array.emptyWithCapacity (height * stride))

/-- The bytes that compressed bytes stand for. -/
def inflated? (bytes : List UInt8) : Option (Array UInt8) :=
  match bytes with
  | method :: flags :: rest =>
    if method.toNat % 16 = 8 ∧ (256 * method.toNat + flags.toNat) % 31 = 0 ∧
        flags.toNat / 32 % 2 = 0 then
      match inflate? rest.toArray with
      | some (data, stop) =>
        if valueOf ((rest.drop stop).take 4) = adler data.toList then some data else none
      | none => none
    else none
  | _ => none

/-- Whether a pixel is an index into the palette. -/
def Layout.isIndexed : Layout → Bool
  | .indexed => true
  | _ => false

/-- The data of all chunks with a name. -/
def dataOf (chunks : List (List UInt8 × List UInt8)) (name : String) : List UInt8 :=
  (chunks.filter fun chunk => chunk.1 = nameBytes name).flatMap (·.2)

/-- The image with the given chunks. -/
def ofChunks? (chunks : List (List UInt8 × List UInt8)) : Option Image := do
  let header := dataOf chunks "IHDR"
  let layout ← header[9]?.bind Layout.ofNumber?
  let bounds := Bounds.ofInts (valueOf (header.take 4)) (valueOf ((header.drop 4).take 4))
  let stride := bounds.width * layout.size
  let transparency := dataOf chunks "tRNS"
  if header.drop 10 ≠ [0, 0, 0] ∨ header[8]? ≠ some 8 ∨ bounds.isEmpty ∨ !bounds.isAllocatable ∨
      !(layout.isIndexed || transparency.isEmpty) then
    none
  else
    let raw ← inflated? (dataOf chunks "IDAT")
    if raw.size < bounds.height * (stride + 1) then none
    else
      let palette : Palette := ⟨(dataOf chunks "PLTE").toArray, transparency.toArray⟩
      let bytes := unfiltered raw stride layout.size bounds.height
      some (Image.generate bounds fun x y =>
        pixelAt layout palette bytes (y * stride + x * layout.size))

/-- The image in the bytes of a file. -/
def read? (bytes : List UInt8) : Option Image :=
  if bytes.take 8 = signature then (chunks? bytes.length (bytes.drop 8)).bind ofChunks? else none

end Png

end RasterScript
