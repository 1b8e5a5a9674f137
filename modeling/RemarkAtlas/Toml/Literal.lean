import RemarkAtlas.Number.Double

/-!
The numbers, dates and times of TOML.  A filter never looks into them, so only their form and their
range are checked.
-/

namespace RemarkAtlas.TomlLiteral

def isDecimal (char : Char) : Bool := '0' ≤ char && char ≤ '9'

def isOctal (char : Char) : Bool := '0' ≤ char && char ≤ '7'

def isBinary (char : Char) : Bool := char == '0' || char == '1'

def isHexadecimal (char : Char) : Bool :=
  isDecimal char || ('a' ≤ char && char ≤ 'f') || ('A' ≤ char && char ≤ 'F')

def digits? (isDigit : Char → Bool) : List Char → Option (List Char)
  | [] => none
  | [digit] => if isDigit digit then some [digit] else none
  | digit :: '_' :: rest =>
    if isDigit digit then (digits? isDigit rest).map (digit :: ·) else none
  | digit :: rest => if isDigit digit then (digits? isDigit rest).map (digit :: ·) else none

def digitValue (char : Char) : Nat :=
  if isDecimal char then char.toNat - '0'.toNat
  else if 'a' ≤ char then char.toNat - 'a'.toNat + 10
  else char.toNat - 'A'.toNat + 10

def value (base : Nat) (digits : List Char) : Nat :=
  digits.foldl (fun value digit => value * base + digitValue digit) 0

def wholeDigits? (text : List Char) : Option (List Char) :=
  match digits? isDecimal text with
  | some ('0' :: _ :: _) => none
  | digits => digits

def splitSign : List Char → Bool × List Char
  | '-' :: rest => (true, rest)
  | '+' :: rest => (false, rest)
  | text => (false, text)

def integerLimit : Nat := UInt64.size / 2

def isShort (base : Nat) : Option (List Char) → Bool
  | some digits => value base digits < integerLimit
  | none => false

def isInteger (text : List Char) : Bool :=
  match text with
  | '0' :: 'x' :: rest => isShort 16 (digits? isHexadecimal rest)
  | '0' :: 'o' :: rest => isShort 8 (digits? isOctal rest)
  | '0' :: 'b' :: rest => isShort 2 (digits? isBinary rest)
  | _ =>
    let (negative, rest) := splitSign text
    match wholeDigits? rest with
    | some digits => value 10 digits < integerLimit || (negative && value 10 digits == integerLimit)
    | none => false

def isFinite (digits : List Char) (power : Int) : Bool :=
  let significand := value 10 digits
  let significant := digits.dropWhile (· == '0')
  let size : Int := significant.length + power
  if significand = 0 ∨ size ≤ 308 then true
  else if 309 < size then false
  else (Double.ofRatio false (significand * Nat.pow 10 power.toNat)
    (Nat.pow 10 (-power).toNat)).isSome

def exponent? (text : List Char) : Option Int :=
  let (negative, rest) := splitSign text
  (digits? isDecimal rest).map fun digits =>
    if negative then -(value 10 digits : Int) else value 10 digits

def isExponentMark (char : Char) : Bool := char == 'e' || char == 'E'

/-- A number with a fraction, an exponent or both; numbers above the largest double are refused, but
not those below its negative. -/
def isFraction (text : List Char) : Bool :=
  let (negative, rest) := splitSign text
  let (mantissa, scale) := rest.span fun char => !isExponentMark char
  let exponent := match scale with
    | [] => some 0
    | _ :: digits => exponent? digits
  let (whole, point) := mantissa.span (· != '.')
  let fraction := match point with
    | [] => some []
    | _ :: digits => digits? isDecimal digits
  match wholeDigits? whole, fraction, exponent with
  | some whole, some fraction, some exponent =>
    !(point.isEmpty && scale.isEmpty) &&
      (negative || isFinite (whole ++ fraction) (exponent - fraction.length))
  | _, _, _ => false

def isSpecial (text : List Char) : Bool :=
  let rest := (splitSign text).2
  rest == ['i', 'n', 'f'] || rest == ['n', 'a', 'n']

def pair? (low high : Nat) : List Char → Option (Nat × List Char)
  | first :: second :: rest =>
    if isDecimal first && isDecimal second then
      let number := value 10 [first, second]
      if low ≤ number ∧ number ≤ high then some (number, rest) else none
    else none
  | _ => none

def isLeapYear (year : Nat) : Bool := year % 4 == 0 && (year % 100 != 0 || year % 400 == 0)

def daysInMonth (year month : Nat) : Nat :=
  if month = 2 then if isLeapYear year then 29 else 28
  else if month = 4 ∨ month = 6 ∨ month = 9 ∨ month = 11 then 30
  else 31

def afterDate? : List Char → Option (List Char)
  | first :: second :: third :: fourth :: '-' :: rest =>
    if [first, second, third, fourth].all isDecimal then
      match pair? 1 12 rest with
      | some (month, '-' :: rest) =>
        let year := value 10 [first, second, third, fourth]
        (pair? 1 (daysInMonth year month) rest).map (·.2)
      | _ => none
    else none
  | _ => none

def afterSecondFraction? : List Char → Option (List Char)
  | '.' :: rest =>
    match rest.span isDecimal with
    | ([], _) => none
    | (_, rest) => some rest
  | rest => some rest

def afterTime? (text : List Char) : Option (List Char) :=
  match pair? 0 23 text with
  | some (_, ':' :: rest) =>
    match pair? 0 59 rest with
    | some (_, ':' :: rest) => (pair? 0 60 rest).bind fun (_, rest) => afterSecondFraction? rest
    | _ => none
  | _ => none

def isOffset : List Char → Bool
  | [] => true
  | ['Z'] => true
  | ['z'] => true
  | sign :: rest =>
    (sign == '+' || sign == '-') &&
      match pair? 0 23 rest with
      | some (_, ':' :: rest) => (pair? 0 59 rest).any fun (_, rest) => rest.isEmpty
      | _ => false

def isTime (text : List Char) : Bool := (afterTime? text).any List.isEmpty

def isDate (text : List Char) : Bool :=
  match afterDate? text with
  | none => false
  | some [] => true
  | some (separator :: rest) =>
    (separator == 'T' || separator == 't' || separator == ' ') && (afterTime? rest).any isOffset

def isLiteral (text : List Char) : Bool :=
  isInteger text || isFraction text || isSpecial text || isTime text || isDate text

end RemarkAtlas.TomlLiteral
