import RasterScript.Number.Shortest

/-!
# JSON values and their text

A `Json` number keeps the distinction that its text makes: a whole number of at most 64 bits is an
`integer`, anything with a fraction or an exponent, too large, or written `-0` is a `real`. Of the
digits of a `real` those that fit in 64 bits are kept.

There are two written forms, without any white space and with two spaces of indentation a level.
-/

namespace RasterScript

/-- A JSON value. The members of an object keep their order. -/
inductive Json where
  | null
  | boolean (value : Bool)
  | integer (value : Int)
  | real (value : Decimal)
  | string (value : String)
  | array (items : List Json)
  | object (members : List (String × Json))

namespace Json

/-- A hexadecimal digit, in lower case. -/
def hexDigit (n : Nat) : Char := Nat.digitChar (n % 16)

/-- A character inside a string literal. -/
def escape (c : Char) : List Char :=
  if c = '"' then ['\\', '"']
  else if c = '\\' then ['\\', '\\']
  else if c.toNat = 0x08 then ['\\', 'b']
  else if c.toNat = 0x0c then ['\\', 'f']
  else if c = '\n' then ['\\', 'n']
  else if c = '\r' then ['\\', 'r']
  else if c = '\t' then ['\\', 't']
  else if c.toNat < 0x20 then
    ['\\', 'u', '0', '0', hexDigit (c.toNat / 16), hexDigit c.toNat]
  else [c]

/-- A string literal, quotes included. -/
def quote (value : String) : List Char := '"' :: value.toList.flatMap escape ++ ['"']

/-- A value that holds no other values. -/
def scalar : Json → List Char
  | boolean true => "true".toList
  | boolean false => "false".toList
  | integer value => Integer.chars value
  | real value => NumberStyle.pointed.chars value
  | string value => quote value
  | null | array _ | object _ => "null".toList

mutual
/-- A value without white space. -/
def compact : Json → List Char
  | array items => '[' :: compactItems items ++ [']']
  | object members => '{' :: compactMembers members ++ ['}']
  | value => scalar value

/-- The items of an array, separated by commas. -/
def compactItems : List Json → List Char
  | [] => []
  | [item] => compact item
  | item :: items => compact item ++ ',' :: compactItems items

/-- The members of an object, separated by commas. -/
def compactMembers : List (String × Json) → List Char
  | [] => []
  | [(name, value)] => quote name ++ ':' :: compact value
  | (name, value) :: members => quote name ++ ':' :: compact value ++ ',' :: compactMembers members
end

/-- A new line, indented by two spaces a level. -/
def newline (level : Nat) : List Char := '\n' :: List.replicate (2 * level) ' '

mutual
/-- A value spread over lines, nested `level` deep. Empty arrays and objects stay on one line. -/
def pretty (level : Nat) : Json → List Char
  | array [] => ['[', ']']
  | object [] => ['{', '}']
  | array items => '[' :: prettyItems (level + 1) items ++ newline level ++ [']']
  | object members => '{' :: prettyMembers (level + 1) members ++ newline level ++ ['}']
  | value => scalar value

/-- The items of an array, each on a line of its own. -/
def prettyItems (level : Nat) : List Json → List Char
  | [] => []
  | [item] => newline level ++ pretty level item
  | item :: items => newline level ++ pretty level item ++ ',' :: prettyItems level items

/-- The members of an object, each on a line of its own. -/
def prettyMembers (level : Nat) : List (String × Json) → List Char
  | [] => []
  | [(name, value)] => newline level ++ quote name ++ ':' :: ' ' :: pretty level value
  | (name, value) :: members =>
    newline level ++ quote name ++ ':' :: ' ' :: pretty level value ++
      ',' :: prettyMembers level members
end

/-- The value of an object's member; a later member of the same name replaces an earlier one. -/
def member? (value : Json) (name : String) : Option Json :=
  match value with
  | object members => (members.reverse.find? (·.1 = name)).map (·.2)
  | _ => none

end Json

end RasterScript
