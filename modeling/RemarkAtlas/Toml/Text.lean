/-!
The texts of TOML: bare keys, and strings in single or double quotes, in one line or in several.
-/

namespace RemarkAtlas.TomlText

abbrev Reader (Value : Type) := List Char → Option (Value × List Char)

def isBlank (char : Char) : Bool := char == ' ' || char == '\t'

def isPrintable (char : Char) : Bool := char == '\t' || (' ' ≤ char && char != '\x7f')

def isBareKeyChar (char : Char) : Bool := char.isAlphanum || char == '_' || char == '-'

def hexValue? (char : Char) : Option Nat :=
  if '0' ≤ char ∧ char ≤ '9' then some (char.toNat - '0'.toNat)
  else if 'a' ≤ char ∧ char ≤ 'f' then some (char.toNat - 'a'.toNat + 10)
  else if 'A' ≤ char ∧ char ≤ 'F' then some (char.toNat - 'A'.toNat + 10)
  else none

def coded? (digits : List Char) : Option Char := do
  let values ← digits.mapM hexValue?
  let code := values.foldl (fun code value => code * 16 + value) 0
  if code.isValidChar then some (Char.ofNat code) else none

def shortEscape? : Char → Option Char
  | 'b' => some '\x08'
  | 't' => some '\t'
  | 'n' => some '\n'
  | 'f' => some '\x0c'
  | 'r' => some '\r'
  | '"' => some '"'
  | '\\' => some '\\'
  | _ => none

def prepend (char : Option Char) (read : Option (List Char × List Char)) :
    Option (List Char × List Char) :=
  match char, read with
  | some char, some (text, rest) => some (char :: text, rest)
  | _, _ => none

def quoted : Reader (List Char)
  | [] => none
  | '"' :: rest => some ([], rest)
  | '\\' :: 'u' :: a :: b :: c :: d :: rest => prepend (coded? [a, b, c, d]) (quoted rest)
  | '\\' :: 'U' :: a :: b :: c :: d :: e :: f :: g :: h :: rest =>
    prepend (coded? [a, b, c, d, e, f, g, h]) (quoted rest)
  | '\\' :: letter :: rest => prepend (shortEscape? letter) (quoted rest)
  | char :: rest =>
    if isPrintable char && char != '\\' then prepend (some char) (quoted rest) else none

def literal : Reader (List Char)
  | [] => none
  | '\'' :: rest => some ([], rest)
  | char :: rest => if isPrintable char then prepend (some char) (literal rest) else none

def endsLine (text : List Char) : Bool :=
  match text.dropWhile isBlank with
  | '\n' :: _ => true
  | '\r' :: '\n' :: _ => true
  | _ => false

/-- A text in three double quotes, after them.  While `joining`, blanks and line breaks are left
out.  Up to two quotes may stand right before the closing ones. -/
def quotedLines (joining : Bool) : Reader (List Char)
  | [] => none
  | '"' :: '"' :: '"' :: '"' :: '"' :: rest => some (['"', '"'], rest)
  | '"' :: '"' :: '"' :: '"' :: rest => some (['"'], rest)
  | '"' :: '"' :: '"' :: rest => some ([], rest)
  | '\r' :: '\n' :: rest =>
    if joining then quotedLines true rest else prepend (some '\n') (quotedLines false rest)
  | '\n' :: rest =>
    if joining then quotedLines true rest else prepend (some '\n') (quotedLines false rest)
  | '\\' :: 'u' :: a :: b :: c :: d :: rest =>
    prepend (coded? [a, b, c, d]) (quotedLines false rest)
  | '\\' :: 'U' :: a :: b :: c :: d :: e :: f :: g :: h :: rest =>
    prepend (coded? [a, b, c, d, e, f, g, h]) (quotedLines false rest)
  | '\\' :: letter :: rest =>
    if endsLine (letter :: rest) then quotedLines true rest
    else prepend (shortEscape? letter) (quotedLines false rest)
  | char :: rest =>
    if joining && isBlank char then quotedLines true rest
    else if isPrintable char && char != '\\' then prepend (some char) (quotedLines false rest)
    else none

def literalLines : Reader (List Char)
  | [] => none
  | '\'' :: '\'' :: '\'' :: '\'' :: '\'' :: rest => some (['\'', '\''], rest)
  | '\'' :: '\'' :: '\'' :: '\'' :: rest => some (['\''], rest)
  | '\'' :: '\'' :: '\'' :: rest => some ([], rest)
  | '\r' :: '\n' :: rest => prepend (some '\n') (literalLines rest)
  | '\n' :: rest => prepend (some '\n') (literalLines rest)
  | char :: rest => if isPrintable char then prepend (some char) (literalLines rest) else none

def dropFirstLineBreak : List Char → List Char
  | '\n' :: rest => rest
  | '\r' :: '\n' :: rest => rest
  | rest => rest

def anyString : Reader String
  | '"' :: '"' :: '"' :: rest => (quotedLines false (dropFirstLineBreak rest)).map ofChars
  | '\'' :: '\'' :: '\'' :: rest => (literalLines (dropFirstLineBreak rest)).map ofChars
  | '"' :: rest => (quoted rest).map ofChars
  | '\'' :: rest => (literal rest).map ofChars
  | _ => none
where
  ofChars (read : List Char × List Char) : String × List Char := (String.ofList read.1, read.2)

def simpleKey : Reader String
  | '"' :: rest => (quoted rest).map fun (text, rest) => (String.ofList text, rest)
  | '\'' :: rest => (literal rest).map fun (text, rest) => (String.ofList text, rest)
  | text =>
    match text.span isBareKeyChar with
    | ([], _) => none
    | (key, rest) => some (String.ofList key, rest)

end RemarkAtlas.TomlText
