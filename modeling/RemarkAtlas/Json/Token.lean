import RemarkAtlas.Text.Utf8

/-!
The tokens of a JSON text.  A string token keeps the bytes between its quotes and a number token the
digits of its literal, so a text can be checked without reading what is never looked at.
-/

namespace RemarkAtlas

structure JsonLiteral where
  negative : Bool
  whole : List UInt8
  fraction : Option (List UInt8)
  exponent : Option (Bool × List UInt8)
  deriving DecidableEq, Repr

inductive JsonToken where
  | openArray
  | closeArray
  | openObject
  | closeObject
  | comma
  | colon
  | null
  | bool (value : Bool)
  | number (literal : JsonLiteral)
  | string (body : Bytes)
  deriving DecidableEq, Repr

inductive JsonScan where
  | between
  | word (reversed : Bytes)
  | string (reversed : Bytes)
  | escape (reversed : Bytes)
  | hexEscape (reversed : Bytes) (missing : Nat)
  deriving DecidableEq, Repr

namespace JsonLiteral

def isDigit (byte : UInt8) : Bool := 0x30 ≤ byte && byte ≤ 0x39

def digits? (bytes : Bytes) : Option (List UInt8 × Bytes) :=
  match bytes.span isDigit with
  | ([], _) => none
  | (digits, rest) => some (digits, rest)

def fraction? : Bytes → Option (Option (List UInt8) × Bytes)
  | 0x2e :: rest => (digits? rest).map fun (digits, rest) => (some digits, rest)
  | rest => some (none, rest)

def signedDigits? : Bytes → Option (Bool × List UInt8)
  | 0x2b :: rest => whole false rest
  | 0x2d :: rest => whole true rest
  | rest => whole false rest
where
  whole (negative : Bool) (bytes : Bytes) : Option (Bool × List UInt8) :=
    match digits? bytes with
    | some (digits, []) => some (negative, digits)
    | _ => none

def exponent? : Bytes → Option (Option (Bool × List UInt8))
  | [] => some none
  | mark :: rest => if mark = 0x65 ∨ mark = 0x45 then (signedDigits? rest).map some else none

def unsigned? (negative : Bool) (bytes : Bytes) : Option JsonLiteral := do
  let (whole, rest) ← digits? bytes
  if whole.head? = some 0x30 ∧ 1 < whole.length then none
  else
    let (fraction, rest) ← fraction? rest
    let exponent ← exponent? rest
    return { negative, whole, fraction, exponent }

def ofBytes? : Bytes → Option JsonLiteral
  | 0x2d :: rest => unsigned? true rest
  | bytes => unsigned? false bytes

end JsonLiteral

namespace JsonToken

def ofWord? (word : Bytes) : Option JsonToken :=
  if word = [0x6e, 0x75, 0x6c, 0x6c] then some .null
  else if word = [0x74, 0x72, 0x75, 0x65] then some (.bool true)
  else if word = [0x66, 0x61, 0x6c, 0x73, 0x65] then some (.bool false)
  else (JsonLiteral.ofBytes? word).map .number

def ofPunctuation? (byte : UInt8) : Option JsonToken :=
  if byte = 0x5b then some .openArray
  else if byte = 0x5d then some .closeArray
  else if byte = 0x7b then some .openObject
  else if byte = 0x7d then some .closeObject
  else if byte = 0x2c then some .comma
  else if byte = 0x3a then some .colon
  else none

end JsonToken

namespace JsonScan

def isBlank (byte : UInt8) : Bool :=
  byte == 0x20 || byte == 0x09 || byte == 0x0a || byte == 0x0d

def isWordByte (byte : UInt8) : Bool :=
  JsonLiteral.isDigit byte || (0x61 ≤ byte && byte ≤ 0x7a) || byte == 0x45 ||
    byte == 0x2b || byte == 0x2d || byte == 0x2e

def isHexDigit (byte : UInt8) : Bool :=
  JsonLiteral.isDigit byte || (0x61 ≤ byte && byte ≤ 0x66) || (0x41 ≤ byte && byte ≤ 0x46)

def isShortEscape (byte : UInt8) : Bool :=
  [0x22, 0x5c, 0x2f, 0x62, 0x66, 0x6e, 0x72, 0x74].contains byte

def stepBetween (tokens : List JsonToken) (byte : UInt8) : Option (List JsonToken × JsonScan) :=
  if isBlank byte then some (tokens, .between)
  else if byte = 0x22 then some (tokens, .string [])
  else if isWordByte byte then some (tokens, .word [byte])
  else (JsonToken.ofPunctuation? byte).map fun token => (token :: tokens, .between)

def step (tokens : List JsonToken) (byte : UInt8) : JsonScan → Option (List JsonToken × JsonScan)
  | .between => stepBetween tokens byte
  | .word reversed =>
    if isWordByte byte then some (tokens, .word (byte :: reversed))
    else (JsonToken.ofWord? reversed.reverse).bind fun token => stepBetween (token :: tokens) byte
  | .string reversed =>
    if byte = 0x22 then some (.string reversed.reverse :: tokens, .between)
    else if byte = 0x5c then some (tokens, .escape (byte :: reversed))
    else if byte < 0x20 then none
    else some (tokens, .string (byte :: reversed))
  | .escape reversed =>
    if isShortEscape byte then some (tokens, .string (byte :: reversed))
    else if byte = 0x75 then some (tokens, .hexEscape (byte :: reversed) 3)
    else none
  | .hexEscape reversed missing =>
    if isHexDigit byte then
      match missing with
      | 0 => some (tokens, .string (byte :: reversed))
      | still + 1 => some (tokens, .hexEscape (byte :: reversed) still)
    else none

def finish (tokens : List JsonToken) : JsonScan → Option (List JsonToken)
  | .between => some tokens.reverse
  | .word reversed =>
    (JsonToken.ofWord? reversed.reverse).map fun token => (token :: tokens).reverse
  | _ => none

def run (tokens : List JsonToken) (scan : JsonScan) : Bytes → Option (List JsonToken)
  | [] => scan.finish tokens
  | byte :: rest =>
    match scan.step tokens byte with
    | some (tokens, scan) => run tokens scan rest
    | none => none

end JsonScan

def JsonToken.scan (text : Bytes) : Option (List JsonToken) := JsonScan.run [] .between text

end RemarkAtlas
