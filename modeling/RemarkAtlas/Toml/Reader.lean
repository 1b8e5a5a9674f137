import RemarkAtlas.Text.Utf8
import RemarkAtlas.Toml.Literal
import RemarkAtlas.Toml.Text
import RemarkAtlas.Toml.Value

/-!
Reading TOML texts.
-/

namespace RemarkAtlas.TomlReader

open TomlText (Reader isBlank isPrintable)

def skipBlanks (text : List Char) : List Char := text.dropWhile isBlank

def afterLineBreak? : List Char → Option (List Char)
  | '\n' :: rest => some rest
  | '\r' :: '\n' :: rest => some rest
  | _ => none

def skipComment (text : List Char) : List Char :=
  match text with
  | '#' :: rest => rest.dropWhile isPrintable
  | _ => text

def afterLine? (text : List Char) : Option (List Char) :=
  match skipComment (skipBlanks text) with
  | [] => some []
  | rest => afterLineBreak? rest

def skipLinesUpTo : Nat → List Char → List Char
  | 0, text => text
  | limit + 1, text =>
    let rest := skipComment (skipBlanks text)
    match afterLineBreak? rest with
    | some rest => skipLinesUpTo limit rest
    | none => rest

def skipLines (text : List Char) : List Char := skipLinesUpTo (text.length + 1) text

def keyLimit : Nat := 80

def dottedKeyUpTo : Nat → Reader (List String)
  | 0, _ => none
  | limit + 1, text => do
    let (key, rest) ← TomlText.simpleKey (skipBlanks text)
    match skipBlanks rest with
    | '.' :: rest =>
      let (keys, rest) ← dottedKeyUpTo limit rest
      return (key :: keys, rest)
    | rest => return ([key], rest)

def dottedKey : Reader (List String) := dottedKeyUpTo (keyLimit - 1)

def isLiteralChar (char : Char) : Bool :=
  char.isAlphanum || char == '+' || char == '-' || char == '_' || char == '.' || char == ':'

def literalText (text : List Char) : List Char × List Char :=
  let (first, rest) := text.span isLiteralChar
  match TomlLiteral.afterDate? first, rest with
  | some [], ' ' :: after =>
    match after.span isLiteralChar with
    | ([], _) => (first, rest)
    | (second, rest) => (first ++ [' '] ++ second, rest)
  | _, _ => (first, rest)

def simpleValue (text : List Char) : Option (Toml × List Char) :=
  match text with
  | '"' :: _ => (TomlText.anyString text).map fun (value, rest) => (.string value, rest)
  | '\'' :: _ => (TomlText.anyString text).map fun (value, rest) => (.string value, rest)
  | _ =>
    let (literal, rest) := literalText text
    if literal = ['t', 'r', 'u', 'e'] then some (.boolean true, rest)
    else if literal = ['f', 'a', 'l', 's', 'e'] then some (.boolean false, rest)
    else if TomlLiteral.isLiteral literal then some (.literal (String.ofList literal), rest)
    else none

def items (readValue : Reader Toml) : Nat → Reader (List Toml)
  | 0, _ => none
  | limit + 1, text =>
    match skipLines text with
    | ']' :: rest => some ([], rest)
    | text => do
      let (item, rest) ← readValue text
      match skipLines rest with
      | ',' :: rest =>
        let (others, rest) ← items readValue limit rest
        return (item :: others, rest)
      | ']' :: rest => return ([item], rest)
      | _ => none

def assignment (readValue : Reader Toml) : Reader (List String × String × Toml) := fun text => do
  let (keys, rest) ← dottedKey text
  match keys.getLast?, rest with
  | some key, '=' :: rest =>
    let (value, rest) ← readValue (skipBlanks rest)
    return ((keys.dropLast, key, value), rest)
  | _, _ => none

def members (readValue : Reader Toml) : Nat → TomlMembers → Reader TomlMembers
  | 0, _, _ => none
  | limit + 1, before, text => do
    let ((keys, key, value), rest) ← assignment readValue text
    let before ← before.putDotted? value key keys
    match skipBlanks rest with
    | ',' :: rest => members readValue limit before rest
    | '}' :: rest => return (before, rest)
    | _ => none

def depthLimit : Nat := 79

def value : Nat → Reader Toml
  | 0, text =>
    match text with
    | '[' :: _ => none
    | '{' :: _ => none
    | _ => simpleValue text
  | depth + 1, text =>
    match text with
    | '[' :: rest => (items (value depth) (rest.length + 1) rest).map fun (items, rest) =>
        (.array items, rest)
    | '{' :: rest =>
      match skipBlanks rest with
      | '}' :: rest => some (.table .braces [], rest)
      | _ => (members (value depth) (rest.length + 1) [] rest).map fun (members, rest) =>
          (.table .braces members, rest)
    | _ => simpleValue text

structure Progress where
  members : TomlMembers
  header : List String

def openHeader? (progress : Progress) (keys : List String)
    (openTable? : String → TomlMembers → Option TomlMembers) : Option Progress := do
  let key ← keys.getLast?
  let members ← progress.members.changeUnder? (openTable? key) keys.dropLast
  return { members, header := keys }

def header? (progress : Progress) : Reader Progress
  | '[' :: '[' :: text => do
    let (keys, rest) ← dottedKey text
    match rest with
    | ']' :: ']' :: rest =>
      return (← openHeader? progress keys TomlMembers.openNextTable?, rest)
    | _ => none
  | '[' :: text => do
    let (keys, rest) ← dottedKey text
    match rest with
    | ']' :: rest => return (← openHeader? progress keys TomlMembers.openTable?, rest)
    | _ => none
  | _ => none

def assignment? (progress : Progress) : Reader Progress := fun text => do
  let ((keys, key, value), rest) ← assignment (value depthLimit) text
  let members ← progress.members.changeUnder? (TomlMembers.putDotted? value key keys)
    progress.header
  return ({ progress with members }, rest)

def lines? : Nat → Progress → List Char → Option Progress
  | 0, _, _ => none
  | limit + 1, progress, text =>
    match skipLines text with
    | [] => some progress
    | text => do
      let (progress, rest) ← match text with
        | '[' :: _ => header? progress text
        | _ => assignment? progress text
      lines? limit progress (← afterLine? rest)

def ofText? (text : String) : Option TomlMembers :=
  let chars := match text.toList with
    | '\ufeff' :: rest => rest
    | chars => chars
  (lines? (chars.length + 1) { members := [], header := [] } chars).map (·.members)

end RemarkAtlas.TomlReader
