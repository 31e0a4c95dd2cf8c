/-!
# Decompression

The compressed pixels of a PNG file are a sequence of bits, the lowest bit of each byte first. They
come in blocks: plain bytes, or symbols in a prefix code that is either fixed or spelled out at the
front of the block. A symbol is a byte, the end of the block, or the length of a piece that is
repeated from what has been written already.

Every reader takes its bits off the front of a `BitSource` and is `none` if they do not make sense.
Each step reads at least one bit, so the number of bits bounds the number of steps.
-/

namespace RasterScript

namespace Png

/-- Bytes and how many of their bits have been read. -/
structure BitSource where
  bytes : Array UInt8
  position : Nat

namespace BitSource

/-- The next bit. -/
def bit? (source : BitSource) : Option (Nat × BitSource) :=
  match source.bytes[source.position / 8]? with
  | some byte =>
    some (byte.toNat / Nat.pow 2 (source.position % 8) % 2,
      { source with position := source.position + 1 })
  | none => none

/-- A number of the given length in bits, the lowest bit first. -/
def bits? (source : BitSource) : (length : Nat) → Option (Nat × BitSource)
  | 0 => some (0, source)
  | length + 1 =>
    match source.bit? with
    | some (low, source) =>
      (source.bits? length).map fun (high, source) => (low + 2 * high, source)
    | none => none

/-- The source from the next whole byte on. -/
def aligned (source : BitSource) : BitSource :=
  { source with position := (source.position + 7) / 8 * 8 }

end BitSource

/-! ## Prefix codes -/

/--
A prefix code: the symbols with codes of one bit, of two bits and so on. Codes of one length are
consecutive numbers, and come after all shorter codes continued with any bits.
-/
abbrev PrefixCode := List (Array Nat)

namespace PrefixCode

/-- The longest code, in bits. -/
def maxLength : Nat := 15

/-- The code in which symbol `n` has the length at place `n`; a length of zero leaves it out. -/
def ofLengths (lengths : List Nat) : PrefixCode :=
  (List.range maxLength).map fun n =>
    ((lengths.zipIdx.filter fun entry => entry.1 = n + 1).map (·.2)).toArray

/--
Reads a symbol. `ahead` is how far the bits read so far are past the last code of their length.
-/
def symbol? : PrefixCode → (ahead : Nat) → BitSource → Option (Nat × BitSource)
  | [], _, _ => none
  | symbols :: longer, ahead, source =>
    match source.bit? with
    | some (bit, source) =>
      let place := 2 * ahead + bit
      match symbols[place]? with
      | some symbol => some (symbol, source)
      | none => symbol? longer (place - symbols.size) source
    | none => none

/-- The fixed code for bytes and lengths. -/
def fixedSymbols : PrefixCode :=
  ofLengths (List.replicate 144 8 ++ List.replicate 112 9 ++ List.replicate 24 7 ++
    List.replicate 8 8)

/-- The fixed code for distances. -/
def fixedDistances : PrefixCode := ofLengths (List.replicate 30 5)

end PrefixCode

/-! ## Blocks -/

/-- What each length symbol stands for: the least length, and how many bits are added to it. -/
def lengthRanges : List (Nat × Nat) := [
  (3, 0), (4, 0), (5, 0), (6, 0), (7, 0), (8, 0), (9, 0), (10, 0), (11, 1), (13, 1), (15, 1),
  (17, 1), (19, 2), (23, 2), (27, 2), (31, 2), (35, 3), (43, 3), (51, 3), (59, 3), (67, 4), (83, 4),
  (99, 4), (115, 4), (131, 5), (163, 5), (195, 5), (227, 5), (258, 0)]

/-- What each distance symbol stands for: the least distance, and how many bits are added to it. -/
def distanceRanges : List (Nat × Nat) := [
  (1, 0), (2, 0), (3, 0), (4, 0), (5, 1), (7, 1), (9, 2), (13, 2), (17, 3), (25, 3), (33, 4),
  (49, 4), (65, 5), (97, 5), (129, 6), (193, 6), (257, 7), (385, 7), (513, 8), (769, 8), (1025, 9),
  (1537, 9), (2049, 10), (3073, 10), (4097, 11), (6145, 11), (8193, 12), (12289, 12), (16385, 13),
  (24577, 13)]

/-- The number that a symbol stands for in a table of ranges. -/
def inRange? (ranges : List (Nat × Nat)) (symbol : Nat) (source : BitSource) :
    Option (Nat × BitSource) :=
  match ranges[symbol]? with
  | some (least, extra) => (source.bits? extra).map fun (more, source) => (least + more, source)
  | none => none

/-- Writes `length` bytes again, each from `distance` bytes before. -/
def repeated (distance : Nat) : (length : Nat) → Array UInt8 → Array UInt8
  | 0, written => written
  | length + 1, written =>
    repeated distance length (written.push (written.getD (written.size - distance) 0))

/-- Carries out the symbols of a block up to its end. -/
def symbols? (codes distances : PrefixCode) :
    (fuel : Nat) → Array UInt8 → BitSource → Option (Array UInt8 × BitSource)
  | 0, _, _ => none
  | fuel + 1, written, source =>
    match codes.symbol? 0 source with
    | none => none
    | some (symbol, source) =>
      if symbol < 256 then symbols? codes distances fuel (written.push (UInt8.ofNat symbol)) source
      else if symbol = 256 then some (written, source)
      else
        match inRange? lengthRanges (symbol - 257) source with
        | none => none
        | some (length, source) =>
          match distances.symbol? 0 source with
          | none => none
          | some (symbol, source) =>
            match inRange? distanceRanges symbol source with
            | none => none
            | some (distance, source) =>
              if written.size < distance then none
              else symbols? codes distances fuel (repeated distance length written) source

/-- The order in which a block spells out the lengths of the code for code lengths. -/
def lengthOrder : List Nat := [16, 17, 18, 0, 8, 7, 9, 6, 10, 5, 11, 4, 12, 3, 13, 2, 14, 1, 15]

/-- Several numbers of three bits. -/
def triples? : (count : Nat) → BitSource → Option (List Nat × BitSource)
  | 0, source => some ([], source)
  | count + 1, source =>
    match source.bits? 3 with
    | some (n, source) => (triples? count source).map fun (rest, source) => (n :: rest, source)
    | none => none

/--
Reads code lengths in the code for code lengths, up to `wanted` of them. Three of its symbols
repeat the length before, or zero.
-/
def lengths? (code : PrefixCode) (wanted : Nat) :
    (fuel : Nat) → Array Nat → BitSource → Option (Array Nat × BitSource)
  | 0, _, _ => none
  | fuel + 1, lengths, source =>
    if wanted ≤ lengths.size then
      if lengths.size = wanted then some (lengths, source) else none
    else
      match code.symbol? 0 source with
      | none => none
      | some (symbol, source) =>
        if symbol < 16 then lengths? code wanted fuel (lengths.push symbol) source
        else
          let (length, least, extra) :=
            if symbol = 16 then (lengths.back?, 3, 2)
            else if symbol = 17 then (some 0, 3, 3)
            else (some 0, 11, 7)
          match length, source.bits? extra with
          | some length, some (more, source) =>
            lengths? code wanted fuel (lengths ++ Array.replicate (least + more) length) source
          | _, _ => none

/-- The two codes that are spelled out at the front of a block. -/
def codes? (source : BitSource) : Option (PrefixCode × PrefixCode × BitSource) := do
  let (symbols, source) ← source.bits? 5
  let (distances, source) ← source.bits? 5
  let (given, source) ← source.bits? 4
  let (triples, source) ← triples? (given + 4) source
  let order := lengthOrder.zip triples
  let code := PrefixCode.ofLengths ((List.range 19).map fun n => (order.lookup n).getD 0)
  let wanted := symbols + 257 + (distances + 1)
  let (lengths, source) ← lengths? code wanted (wanted + 1) #[] source
  let lengths := lengths.toList
  some (PrefixCode.ofLengths (lengths.take (symbols + 257)),
    PrefixCode.ofLengths (lengths.drop (symbols + 257)), source)

/-- A block of plain bytes. -/
def plainBlock? (written : Array UInt8) (source : BitSource) :
    Option (Array UInt8 × BitSource) := do
  let (length, source) ← source.aligned.bits? 16
  let (complement, source) ← source.bits? 16
  let start := source.position / 8
  if length + complement = 65535 ∧ start + length ≤ source.bytes.size then
    some (written ++ source.bytes.extract start (start + length),
      { source with position := 8 * (start + length) })
  else none

/-- One block of any kind, and whether it is the last. -/
def block? (fuel : Nat) (written : Array UInt8) (source : BitSource) :
    Option (Bool × Array UInt8 × BitSource) := do
  let (last, source) ← source.bits? 1
  let (kind, source) ← source.bits? 2
  let (written, source) ←
    match kind with
    | 0 => plainBlock? written source
    | 1 => symbols? .fixedSymbols .fixedDistances fuel written source
    | 2 =>
      match codes? source with
      | some (symbols, distances, source) => symbols? symbols distances fuel written source
      | none => none
    | _ => none
  some (last = 1, written, source)

/-- All blocks. -/
def blocks? : (fuel : Nat) → Array UInt8 → BitSource → Option (Array UInt8 × BitSource)
  | 0, _, _ => none
  | fuel + 1, written, source =>
    match block? (fuel + 1) written source with
    | some (true, written, source) => some (written, source)
    | some (false, written, source) => blocks? fuel written source
    | none => none

/-- Decompresses bytes: what they stand for, and the place of the first byte that was not read. -/
def inflate? (bytes : Array UInt8) : Option (Array UInt8 × Nat) :=
  (blocks? (8 * bytes.size + 1) #[] ⟨bytes, 0⟩).map fun (written, source) =>
    (written, source.aligned.position / 8)

end Png

end RasterScript
