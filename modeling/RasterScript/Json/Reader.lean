import RasterScript.Json.Value
import RasterScript.Number.Scaled

/-!
# Reading JSON

`Json.ofChars?` reads a text that holds exactly one value. Each reader below takes one piece off
the front and returns what follows it. Values nest, so the readers call each other; the first
argument bounds how often, and twice the length of the text is always enough.
-/

namespace RasterScript

namespace Json

/-- Drops the four characters that may stand between tokens. -/
def skipBlanks (text : List Char) : List Char :=
  text.dropWhile fun c => c = ' ' ∨ c = '\n' ∨ c = '\t' ∨ c = '\r'

/-- The value of a hexadecimal digit. -/
def hexValue? (c : Char) : Option Nat :=
  if c.isDigit then some (c.toNat - '0'.toNat)
  else if 'a' ≤ c ∧ c ≤ 'f' then some (c.toNat - 'a'.toNat + 10)
  else if 'A' ≤ c ∧ c ≤ 'F' then some (c.toNat - 'A'.toNat + 10)
  else none

/-- Four hexadecimal digits. -/
def hexQuad? : List Char → Option (Nat × List Char)
  | a :: b :: c :: d :: rest => do
    let a ← hexValue? a
    let b ← hexValue? b
    let c ← hexValue? c
    let d ← hexValue? d
    some (((a * 16 + b) * 16 + c) * 16 + d, rest)
  | _ => none

/-- The character that an escape of one letter stands for. -/
def unescape? : Char → Option Char
  | '"' => some '"'
  | '\\' => some '\\'
  | '/' => some '/'
  | 'b' => some '\x08'
  | 'f' => some '\x0c'
  | 'n' => some '\n'
  | 'r' => some '\r'
  | 't' => some '\t'
  | _ => none

/--
The rest of an escape after `\u`: one quad, or a high and a low surrogate in two of them. A
surrogate that is not part of such a pair is refused.
-/
def unicodeEscape? (text : List Char) : Option (Char × List Char) :=
  match hexQuad? text with
  | none => none
  | some (code, rest) =>
    if code < 0xd800 ∨ 0xdfff < code then some (Char.ofNat code, rest)
    else if code ≤ 0xdbff then
      match rest with
      | '\\' :: 'u' :: more =>
        match hexQuad? more with
        | some (low, rest) =>
          if 0xdc00 ≤ low ∧ low ≤ 0xdfff then
            some (Char.ofNat (0x10000 + (code - 0xd800) * 0x400 + (low - 0xdc00)), rest)
          else none
        | none => none
      | _ => none
    else none

/-- The rest of a string literal after its opening quote. -/
def stringRest? : Nat → List Char → Option (List Char × List Char)
  | 0, _ => none
  | _ + 1, [] => none
  | _ + 1, '"' :: rest => some ([], rest)
  | fuel + 1, '\\' :: 'u' :: text =>
    match unicodeEscape? text with
    | some (c, rest) => (stringRest? fuel rest).map fun (cs, rest) => (c :: cs, rest)
    | none => none
  | fuel + 1, '\\' :: letter :: text =>
    match unescape? letter with
    | some c => (stringRest? fuel text).map fun (cs, rest) => (c :: cs, rest)
    | none => none
  | fuel + 1, c :: text =>
    if c = '\\' ∨ c.toNat < 0x20 then none
    else (stringRest? fuel text).map fun (cs, rest) => (c :: cs, rest)

/-- The characters that a number may be made of. -/
def isNumeric (c : Char) : Bool :=
  c.isDigit ∨ c = '-' ∨ c = '+' ∨ c = '.' ∨ c = 'e' ∨ c = 'E'

/-- Whether the part of a number before its point is written without needless zeros. -/
def isPlainWhole (digits : List Char) : Bool := digits = ['0'] ∨ digits.head? ≠ some '0'

/-- Whether a number has a digit in each place that calls for one. -/
def isWellFormed (body : List Char) : Bool :=
  let whole := body.takeWhile Char.isDigit
  !whole.isEmpty && isPlainWhole whole &&
    match body.dropWhile Char.isDigit with
    | '.' :: c :: _ => c.isDigit
    | ['.'] => false
    | _ => true

/-- A whole number is an integer if it fits in 64 bits, signed or not, and is not `-0`. -/
def ofWhole (negative : Bool) (digits : List Char) : Json :=
  let value := digitsValue digits
  if negative then
    if 0 < value ∧ value ≤ 0x8000000000000000 then integer (-(value : Int))
    else real (Decimal.ofLeading true digits [] 0)
  else if value < 0x10000000000000000 then integer value
  else real (Decimal.ofLeading false digits [] 0)

/-- A number with a fraction or an exponent: `rest` is what follows the fraction. -/
def ofParts? (negative : Bool) (whole fraction rest : List Char) : Option Json :=
  (Decimal.exponent? rest).map fun exponent =>
    real (Decimal.ofLeading negative whole fraction exponent)

/-- The value of the text of a number. -/
def ofNumberText? (text : List Char) : Option Json :=
  let (negative, body) :=
    match text with
    | '-' :: rest => (true, rest)
    | rest => (false, rest)
  let whole := body.takeWhile Char.isDigit
  if isWellFormed body then
    match body.dropWhile Char.isDigit with
    | [] => some (ofWhole negative whole)
    | '.' :: rest =>
      ofParts? negative whole (rest.takeWhile Char.isDigit) (rest.dropWhile Char.isDigit)
    | rest => ofParts? negative whole [] rest
  else none

mutual
/-- One value. -/
def value? : Nat → List Char → Option (Json × List Char)
  | 0, _ => none
  | fuel + 1, text =>
    match skipBlanks text with
    | 'n' :: 'u' :: 'l' :: 'l' :: rest => some (null, rest)
    | 't' :: 'r' :: 'u' :: 'e' :: rest => some (boolean true, rest)
    | 'f' :: 'a' :: 'l' :: 's' :: 'e' :: rest => some (boolean false, rest)
    | '"' :: rest =>
      (stringRest? (rest.length + 1) rest).map fun (cs, rest) => (string (String.ofList cs), rest)
    | '[' :: rest =>
      match skipBlanks rest with
      | ']' :: rest => some (array [], rest)
      | rest => (items? fuel rest).map fun (items, rest) => (array items, rest)
    | '{' :: rest =>
      match skipBlanks rest with
      | '}' :: rest => some (object [], rest)
      | rest => (members? fuel rest).map fun (members, rest) => (object members, rest)
    | rest =>
      (ofNumberText? (rest.takeWhile isNumeric)).map fun number =>
        (number, rest.dropWhile isNumeric)

/-- The items of an array, and the bracket that ends it. -/
def items? : Nat → List Char → Option (List Json × List Char)
  | 0, _ => none
  | fuel + 1, text =>
    match value? fuel text with
    | none => none
    | some (item, rest) =>
      match skipBlanks rest with
      | ',' :: rest => (items? fuel rest).map fun (items, rest) => (item :: items, rest)
      | ']' :: rest => some ([item], rest)
      | _ => none

/-- The members of an object, and the brace that ends it. -/
def members? : Nat → List Char → Option (List (String × Json) × List Char)
  | 0, _ => none
  | fuel + 1, text =>
    match skipBlanks text with
    | '"' :: rest =>
      match stringRest? (rest.length + 1) rest with
      | none => none
      | some (name, rest) =>
        match skipBlanks rest with
        | ':' :: rest =>
          match value? fuel rest with
          | none => none
          | some (value, rest) =>
            match skipBlanks rest with
            | ',' :: rest =>
              (members? fuel rest).map fun (members, rest) =>
                ((String.ofList name, value) :: members, rest)
            | '}' :: rest => some ([(String.ofList name, value)], rest)
            | _ => none
        | _ => none
    | _ => none
end

/-- Reads a text that holds one value and nothing after it but blanks. -/
def ofChars? (text : List Char) : Option Json :=
  match value? (2 * text.length + 2) text with
  | some (value, rest) => if (skipBlanks rest).isEmpty then some value else none
  | none => none

end Json

end RasterScript
