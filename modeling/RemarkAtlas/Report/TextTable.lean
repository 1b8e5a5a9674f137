import RemarkAtlas.Corpus.Ranking

/-!
The hottest records as a boxed table for the terminal.  Texts that are too long for their column are
cut, with three dots in place of what is missing.
-/

namespace RemarkAtlas.TextTable

def cutFront (width : Nat) (text : List Char) : List Char :=
  if text.length ≤ width then text
  else ['.', '.', '.'] ++ text.drop (text.length - (width - 3))

def cutBack (width : Nat) (text : List Char) : List Char :=
  if text.length ≤ width then text else text.take (width - 3) ++ ['.', '.', '.']

def padLeft (width : Nat) (text : List Char) : List Char :=
  List.replicate (width - text.length) ' ' ++ text

def padRight (width : Nat) (text : List Char) : List Char :=
  text ++ List.replicate (width - text.length) ' '

def countWidth : Nat := 10

def kindWidth : Nat := 7

def locationWidth : Nat := 28

def messageWidth : Nat := 48

def rule (left middle right : Char) : String :=
  let bar (width : Nat) : List Char := List.replicate (width + 2) '━'
  String.ofList ([' ', ' ', left] ++ bar countWidth ++ [middle] ++ bar kindWidth ++ [middle] ++
    bar locationWidth ++ [middle] ++ bar messageWidth ++ [right])

def row (count kind location message : List Char) : String :=
  String.ofList ("  ┃ ".toList ++ padLeft countWidth count ++ " ┃ ".toList ++
    padRight kindWidth kind ++ " ┃ ".toList ++ padRight locationWidth location ++ " ┃ ".toList ++
    padRight messageWidth message ++ " ┃".toList)

def title : String := "  HOTTEST OPTIMIZATION RECORDS"

def headings : String := row "COUNT".toList "KIND".toList "LOCATION".toList "MESSAGE".toList

def countText : Option UInt64 → String
  | some value => toString value.toNat
  | none => "-"

def recordRow (policy : PrecisionPolicy) (sighting : Sighting) : String :=
  let record := sighting.record
  let location := match record.location? with
    | some location => location.text
    | none => ""
  row (countText (policy.hotness record)).toList (cutBack kindWidth record.kind.tag.toList)
    (cutFront locationWidth location.toList) (cutBack messageWidth record.messageText.toList)

def remainder (limit total : Nat) : List String :=
  if limit < total then
    ["", "   (Showing top " ++ toString limit ++ " of " ++ toString total ++ " records)"]
  else []

def lines (policy : PrecisionPolicy) (limit : Nat) (records : List Sighting) : List String :=
  [title, rule '┏' '┳' '┓', headings, rule '┣' '╋' '┫'] ++
    (records.take limit).map (recordRow policy) ++ [rule '┗' '┻' '┛'] ++
    remainder limit records.length

def render (policy : PrecisionPolicy) (limit : Nat) (records : List Sighting) : String :=
  "\n".intercalate (lines policy limit records)

end RemarkAtlas.TextTable
