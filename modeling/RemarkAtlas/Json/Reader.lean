import RemarkAtlas.Json.Outline
import RemarkAtlas.Json.Value

/-!
Reading JSON: strings are unescaped, numbers must be in range, of members with one key the last one
counts, and containers nest at most 127 deep.
-/

namespace RemarkAtlas

namespace JsonString

def hexValue? (char : Char) : Option Nat :=
  if '0' ≤ char ∧ char ≤ '9' then some (char.toNat - '0'.toNat)
  else if 'a' ≤ char ∧ char ≤ 'f' then some (char.toNat - 'a'.toNat + 10)
  else if 'A' ≤ char ∧ char ≤ 'F' then some (char.toNat - 'A'.toNat + 10)
  else none

def unit? (first second third fourth : Char) : Option Nat := do
  let first ← hexValue? first
  let second ← hexValue? second
  let third ← hexValue? third
  let fourth ← hexValue? fourth
  return ((first * 16 + second) * 16 + third) * 16 + fourth

def isLeadingSurrogate (unit : Nat) : Bool := 0xd800 ≤ unit && unit ≤ 0xdbff

def isTrailingSurrogate (unit : Nat) : Bool := 0xdc00 ≤ unit && unit ≤ 0xdfff

def shortEscape? : Char → Option Char
  | '"' => some '"'
  | '\\' => some '\\'
  | '/' => some '/'
  | 'b' => some '\x08'
  | 'f' => some '\x0c'
  | 'n' => some '\n'
  | 'r' => some '\r'
  | 't' => some '\t'
  | _ => none

def unescape : List Char → Option (List Char)
  | [] => some []
  | '\\' :: 'u' :: first :: second :: third :: fourth :: rest =>
    match unit? first second third fourth with
    | none => none
    | some unit =>
      if isTrailingSurrogate unit then none
      else if isLeadingSurrogate unit then
        match rest with
        | '\\' :: 'u' :: fifth :: sixth :: seventh :: eighth :: rest =>
          match unit? fifth sixth seventh eighth with
          | none => none
          | some trailing =>
            if isTrailingSurrogate trailing then
              let code := 0x10000 + (unit - 0xd800) * 0x400 + (trailing - 0xdc00)
              (unescape rest).map (Char.ofNat code :: ·)
            else none
        | _ => none
      else (unescape rest).map (Char.ofNat unit :: ·)
  | '\\' :: letter :: rest =>
    match shortEscape? letter with
    | none => none
    | some char => (unescape rest).map (char :: ·)
  | char :: rest => if char = '\\' then none else (unescape rest).map (char :: ·)

def ofBody? (body : Bytes) : Option String := do
  let text ← Utf8.decode body
  let chars ← unescape text.toList
  return String.ofList chars

end JsonString

namespace JsonLiteral

def wordLimit : Nat := UInt64.size

def digitValue (digit : UInt8) : Nat := digit.toNat - 0x30

def appendDigits (number : Nat) : List UInt8 → Nat × List UInt8
  | [] => (number, [])
  | digit :: rest =>
    let longer := number * 10 + digitValue digit
    if longer < wordLimit then appendDigits longer rest else (number, digit :: rest)

/-- A literal whose whole part fits in a word and that has neither fraction nor exponent is an
integer, except for a negative zero and for what lies below the signed words. -/
def integer? (literal : JsonLiteral) : Option Int :=
  match literal.fraction, literal.exponent, appendDigits 0 literal.whole with
  | none, none, (magnitude, []) =>
    if literal.negative then
      if 0 < magnitude ∧ magnitude ≤ wordLimit / 2 then some (-magnitude) else none
    else some magnitude
  | _, _, _ => none

def digitsValue (digits : List UInt8) : Nat :=
  digits.foldl (fun value digit => value * 10 + digitValue digit) 0

/-- The double of a literal: its leading digits, as many as fit in 64 bits, and a power of ten. -/
def double? (literal : JsonLiteral) : Option Double :=
  let (whole, dropped) := appendDigits 0 literal.whole
  let fraction := literal.fraction.getD []
  let (significand, unused) := appendDigits whole fraction
  let exponent : Int := match literal.exponent with
    | none => 0
    | some (true, digits) => -(digitsValue digits : Int)
    | some (false, digits) => digitsValue digits
  let scale : Int := (dropped.length : Int) - (fraction.length - unused.length : Nat)
  Double.ofDecimal literal.negative significand (scale + exponent)

def value? (literal : JsonLiteral) : Option JsonNumber :=
  match literal.integer? with
  | some value => some (.integer value)
  | none => literal.double?.map .double

end JsonLiteral

namespace Json

def depthLimit : Nat := 127

mutual

def ofOutline? (depth : Nat) : Outline → Option Json
  | .null => some .null
  | .bool value => some (.bool value)
  | .number literal => literal.value?.map .number
  | .string body => (JsonString.ofBody? body).map .string
  | .array items =>
    match depth with
    | 0 => none
    | inner + 1 => (itemsOfOutlines? inner items).map .array
  | .object members =>
    match depth with
    | 0 => none
    | inner + 1 => (membersOfOutlines? inner members).map fun members =>
        .object (Members.ofList members)

def itemsOfOutlines? (depth : Nat) : List Outline → Option (List Json)
  | [] => some []
  | outline :: rest =>
    match ofOutline? depth outline, itemsOfOutlines? depth rest with
    | some item, some items => some (item :: items)
    | _, _ => none

def membersOfOutlines? (depth : Nat) : List (Bytes × Outline) → Option (List (String × Json))
  | [] => some []
  | (key, outline) :: rest =>
    match JsonString.ofBody? key, ofOutline? depth outline, membersOfOutlines? depth rest with
    | some key, some value, some members => some ((key, value) :: members)
    | _, _, _ => none

end

def ofBytes? (text : Bytes) : Option Json := (Outline.ofBytes? text).bind (ofOutline? depthLimit)

end Json

end RemarkAtlas
