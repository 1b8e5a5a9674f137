import RemarkAtlas.Record.Location
import RemarkAtlas.Text.Utf8

/-!
Text inside a page, and the names of pages.  The five characters with a meaning of their own are
written as entities; distinct passes have pages of distinct names.
-/

namespace RemarkAtlas.Html

def escapeChar (char : Char) : List Char :=
  if char = '&' then ['&', 'a', 'm', 'p', ';']
  else if char = '<' then ['&', 'l', 't', ';']
  else if char = '>' then ['&', 'g', 't', ';']
  else if char = '"' then ['&', 'q', 'u', 'o', 't', ';']
  else if char = '\'' then ['&', '#', 'x', '2', '7', ';']
  else [char]

def escapeChars (text : List Char) : List Char := text.flatMap escapeChar

def escape (text : String) : String := String.ofList (escapeChars text.toList)

def sourcePage (file : String) : String :=
  String.ofList (file.toList.map fun char => if char = '/' then '|' else char) ++ ".html"

def isPageByte (byte : UInt8) : Bool :=
  (0x30 ≤ byte && byte ≤ 0x39) || (0x41 ≤ byte && byte ≤ 0x5a) || (0x61 ≤ byte && byte ≤ 0x7a) ||
    byte == 0x2d

/-- Letters, digits and hyphens stand for themselves, every other byte for its two hexadecimal
digits after an underscore. -/
def pageByte (byte : UInt8) : List Char :=
  if isPageByte byte then [Char.ofNat byte.toNat]
  else ['_', Nat.digitChar (byte.toNat / 16), Nat.digitChar (byte.toNat % 16)]

def passPage (name : String) : String :=
  "pass-" ++ String.ofList ((Utf8.encode name).flatMap pageByte) ++ ".html"

def lineAnchor (line : UInt32) : String := "line-" ++ toString line.toNat

def locationLink (location : Location) : String :=
  escape (sourcePage location.file) ++ "#" ++ lineAnchor location.line

end RemarkAtlas.Html
