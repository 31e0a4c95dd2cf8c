/-!
# Lossy decoding of UTF-8

Script bytes need not be valid UTF-8. Every longest piece that begins a character but cannot be
completed, and every byte that cannot begin one, decodes to the replacement character.
-/

namespace RasterScript

/-- U+FFFD, which stands for bytes that are not text. -/
def replacementChar : Char := Char.ofNat 0xfffd

namespace Utf8

/-- The six payload bits of a continuation byte. -/
def payload (byte : UInt8) : Nat := byte.toNat % 64

/--
How a character begins: the number of continuation bytes, the bounds of the first of them, and the
bits that the leading byte contributes. The bounds leave out overlong forms, surrogates, and codes
past U+10FFFF.
-/
def lead? (byte : UInt8) : Option (Nat × Nat × Nat × Nat) :=
  let b := byte.toNat
  if 0xc2 ≤ b ∧ b ≤ 0xdf then some (1, 0x80, 0xbf, b - 0xc0)
  else if b = 0xe0 then some (2, 0xa0, 0xbf, 0)
  else if b = 0xed then some (2, 0x80, 0x9f, 0xd)
  else if 0xe1 ≤ b ∧ b ≤ 0xef then some (2, 0x80, 0xbf, b - 0xe0)
  else if b = 0xf0 then some (3, 0x90, 0xbf, 0)
  else if 0xf1 ≤ b ∧ b ≤ 0xf3 then some (3, 0x80, 0xbf, b - 0xf0)
  else if b = 0xf4 then some (3, 0x80, 0x8f, 4)
  else none

/-- What is pending in the middle of a character. -/
structure Pending where
  /-- Continuation bytes still to come, at least one. -/
  owed : Nat
  /-- The least value the next byte may have. -/
  low : Nat
  /-- The greatest value the next byte may have. -/
  high : Nat
  /-- The bits gathered so far. -/
  bits : Nat

/-- Reads a byte at the start of a character: what is written, and what is then pending. -/
def start (byte : UInt8) : List Char × Option Pending :=
  if byte.toNat < 0x80 then ([Char.ofNat byte.toNat], none)
  else
    match lead? byte with
    | some (owed, low, high, bits) => ([], some ⟨owed, low, high, bits⟩)
    | none => ([replacementChar], none)

/--
Decodes the bytes that follow. A byte that does not continue the pending character ends it with
one replacement character and is then read afresh.
-/
def decodeFrom : Option Pending → List UInt8 → List Char
  | none, [] => []
  | some _, [] => [replacementChar]
  | none, byte :: rest =>
    let (written, pending) := start byte
    written ++ decodeFrom pending rest
  | some p, byte :: rest =>
    if p.low ≤ byte.toNat ∧ byte.toNat ≤ p.high then
      let bits := p.bits * 64 + payload byte
      if p.owed = 1 then Char.ofNat bits :: decodeFrom none rest
      else decodeFrom (some ⟨p.owed - 1, 0x80, 0xbf, bits⟩) rest
    else
      let (written, pending) := start byte
      replacementChar :: (written ++ decodeFrom pending rest)

/-- Decodes bytes as UTF-8, with replacement characters for what is not text. -/
def decodeLossy (bytes : List UInt8) : List Char := decodeFrom none bytes

end Utf8

end RasterScript
