import RemarkAtlas.Json.Value
import RemarkAtlas.Number.Shortest

/-!
JSON text, in one line or indented by two blanks a level.  Members are written in the order in which
the object lists them; text outside ASCII is written as it is.
-/

namespace RemarkAtlas

namespace DoubleText

/-- Magnitudes from `10 ^ -5` on, up to and without `10 ^ 16`, are written without an exponent. -/
def leastPlainExponent : Int := -5

def plainExponentLimit : Int := 16

def plain (digits : List Char) (place : Int) : List Char :=
  if place ≤ 0 then ['0', '.'] ++ List.replicate (-place).toNat '0' ++ digits
  else if digits.length ≤ place then
    digits ++ List.replicate (place.toNat - digits.length) '0' ++ ['.', '0']
  else digits.take place.toNat ++ ['.'] ++ digits.drop place.toNat

def scientific (digits : List Char) (exponent : Int) : List Char :=
  let mantissa := match digits with
    | first :: second :: rest => first :: '.' :: second :: rest
    | few => few
  let sign := if exponent < 0 then '-' else '+'
  mantissa ++ ['e', sign] ++ Nat.toDigits 10 exponent.natAbs

def dropTrailingZeros (digits : List Char) : List Char :=
  (digits.reverse.dropWhile (· == '0')).reverse

def magnitude (number : Double) : List Char :=
  match number.shortest with
  | none => ['0', '.', '0']
  | some decimal =>
    let digits := Nat.toDigits 10 decimal.digits
    let place : Int := digits.length + decimal.power
    let digits := dropTrailingZeros digits
    if leastPlainExponent ≤ place - 1 ∧ place - 1 < plainExponentLimit then plain digits place
    else scientific digits (place - 1)

end DoubleText

def Double.text (number : Double) : String :=
  let magnitude := if number.isZero then ['0', '.', '0'] else DoubleText.magnitude number
  String.ofList (if number.negative then '-' :: magnitude else magnitude)

def JsonNumber.text : JsonNumber → String
  | .integer value => toString value
  | .double value => value.text

namespace JsonString

def hexDigit (value : Nat) : Char := Nat.digitChar value

def escapeChar (char : Char) : List Char :=
  if char = '"' then ['\\', '"']
  else if char = '\\' then ['\\', '\\']
  else if char = '\x08' then ['\\', 'b']
  else if char = '\x0c' then ['\\', 'f']
  else if char = '\n' then ['\\', 'n']
  else if char = '\r' then ['\\', 'r']
  else if char = '\t' then ['\\', 't']
  else if char.toNat < 0x20 then
    ['\\', 'u', '0', '0', hexDigit (char.toNat / 16), hexDigit (char.toNat % 16)]
  else [char]

def escape (text : List Char) : List Char := text.flatMap escapeChar

def quote (text : String) : String := String.ofList ('"' :: escape text.toList ++ ['"'])

def run (reversed : List Char) : List String :=
  if reversed.isEmpty then [] else [String.ofList reversed.reverse]

/-- Escaped text in the pieces in which it is written: runs of plain characters, and single escapes.
-/
def piecesFrom : List Char → List Char → List String
  | reversed, [] => run reversed
  | reversed, char :: rest =>
    if escapeChar char = [char] then piecesFrom (char :: reversed) rest
    else run reversed ++ String.ofList (escapeChar char) :: piecesFrom [] rest

def pieces (text : String) : List String := "\"" :: piecesFrom [] text.toList ++ ["\""]

end JsonString

namespace Json

mutual

def compact : Json → String
  | .null => "null"
  | .bool true => "true"
  | .bool false => "false"
  | .number value => value.text
  | .string value => JsonString.quote value
  | .array items => "[" ++ compactItems items ++ "]"
  | .object members => "\x7b" ++ compactMembers members ++ "\x7d"

def compactItems : List Json → String
  | [] => ""
  | [item] => compact item
  | item :: rest => compact item ++ "," ++ compactItems rest

def compactMembers : List (String × Json) → String
  | [] => ""
  | [(key, value)] => JsonString.quote key ++ ":" ++ compact value
  | (key, value) :: rest =>
    JsonString.quote key ++ ":" ++ compact value ++ "," ++ compactMembers rest

end

def lineBreak (level : Nat) : String := String.ofList ('\n' :: List.replicate (2 * level) ' ')

mutual

def pretty (level : Nat) : Json → String
  | .array (item :: rest) =>
    "[" ++ lineBreak (level + 1) ++ pretty (level + 1) item ++ prettyItems (level + 1) rest ++
      lineBreak level ++ "]"
  | .object ((key, value) :: rest) =>
    "\x7b" ++ lineBreak (level + 1) ++ JsonString.quote key ++ ": " ++ pretty (level + 1) value ++
      prettyMembers (level + 1) rest ++ lineBreak level ++ "\x7d"
  | value => compact value

def prettyItems (level : Nat) : List Json → String
  | [] => ""
  | item :: rest => "," ++ lineBreak level ++ pretty level item ++ prettyItems level rest

def prettyMembers (level : Nat) : List (String × Json) → String
  | [] => ""
  | (key, value) :: rest =>
    "," ++ lineBreak level ++ JsonString.quote key ++ ": " ++ pretty level value ++
      prettyMembers level rest

end

def indentation (level : Nat) : List String := List.replicate level "  "

mutual

/-- The indented text of a value in the pieces in which it is written. -/
def pieces (level : Nat) : Json → List String
  | .string value => JsonString.pieces value
  | .array [] => ["[", "]"]
  | .array (item :: rest) =>
    ["[", "\n"] ++ indentation (level + 1) ++ pieces (level + 1) item ++
      itemPieces (level + 1) rest ++ "\n" :: indentation level ++ ["]"]
  | .object [] => ["\x7b", "\x7d"]
  | .object ((key, value) :: rest) =>
    ["\x7b", "\n"] ++ indentation (level + 1) ++ JsonString.pieces key ++ ": " ::
      pieces (level + 1) value ++ memberPieces (level + 1) rest ++ "\n" :: indentation level ++
      ["\x7d"]
  | value => [compact value]

def itemPieces (level : Nat) : List Json → List String
  | [] => []
  | item :: rest => ",\n" :: indentation level ++ pieces level item ++ itemPieces level rest

def memberPieces (level : Nat) : List (String × Json) → List String
  | [] => []
  | (key, value) :: rest =>
    ",\n" :: indentation level ++ JsonString.pieces key ++ ": " :: pieces level value ++
      memberPieces level rest

end

end Json

end RemarkAtlas
