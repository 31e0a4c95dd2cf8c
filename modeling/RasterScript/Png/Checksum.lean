/-!
# Checksums

The two sums that guard the bytes of a PNG file: a cyclic redundancy check behind every chunk, and
Adler's sum behind the compressed pixels.
-/

namespace RasterScript

namespace Png

/-- One step of the division by the check polynomial, the lowest bit first. -/
def crcBit (crc : UInt32) : UInt32 :=
  if crc &&& 1 = 1 then (crc >>> 1) ^^^ 0xedb88320 else crc >>> 1

/-- Takes one more byte into a cyclic redundancy check. -/
def crcByte (crc : UInt32) (byte : UInt8) : UInt32 :=
  (List.range 8).foldl (fun crc _ => crcBit crc) (crc ^^^ byte.toUInt32)

/-- The cyclic redundancy check of some bytes. -/
def crc (bytes : List UInt8) : Nat :=
  (bytes.foldl crcByte 0xffffffff ^^^ 0xffffffff).toNat

/-- The modulus of Adler's sum. -/
def adlerModulus : Nat := 65521

/-- Adler's sum of some bytes: the sum of the bytes, and the sum of all those sums above it. -/
def adler (bytes : List UInt8) : Nat :=
  let (low, high) := bytes.foldl
    (fun (low, high) byte =>
      let low := (low + byte.toNat) % adlerModulus
      (low, (high + low) % adlerModulus))
    (1, 0)
  high * 65536 + low

end Png

end RasterScript
