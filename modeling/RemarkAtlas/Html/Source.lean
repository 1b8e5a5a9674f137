import RemarkAtlas.Html.Table

/-!
The page of a source file: its lines, each with its records below it.  Records on lines that the
file does not have follow in sections of their own, and a file that cannot be read has sections
only.
-/

namespace RemarkAtlas.Html

def lineRow (line : UInt32) (text : String) : String :=
  "<tr id=\"" ++ lineAnchor line ++ "\">" ++ cell (toString line.toNat) ++
    cell ("<pre>" ++ escape text ++ "</pre>") ++ "</tr>\n"

def lineTable (policy : PrecisionPolicy) (sources : CompilerSources) (records : List Sighting) :
    String :=
  recordsTable policy sources (Ranking.rank policy records)

def lineRecords (policy : PrecisionPolicy) (sources : CompilerSources)
    (byLine : List (UInt32 × List Sighting)) (line : UInt32) : String :=
  match byLine.lookup line with
  | some records => row ["", lineTable policy sources records]
  | none => ""

def lineSection (policy : PrecisionPolicy) (sources : CompilerSources)
    (group : UInt32 × List Sighting) : String :=
  "<h2 id=\"" ++ lineAnchor group.1 ++ "\">Line " ++ toString group.1.toNat ++ "</h2>\n" ++
    lineTable policy sources group.2

def listing (policy : PrecisionPolicy) (sources : CompilerSources)
    (byLine : List (UInt32 × List Sighting)) (lines : List String) : String :=
  String.join (lines.zipIdx.map fun (text, index) =>
    let line := UInt32.ofNat (index + 1)
    lineRow line text ++ lineRecords policy sources byLine line)

def isOutside (lineCount : Nat) (line : UInt32) : Bool := line == 0 || lineCount < line.toNat

def sourceBody (policy : PrecisionPolicy) (sources : CompilerSources) (records : List Sighting)
    (source : Option String) : String :=
  let byLine := Corpus.byLine records
  match source with
  | some text =>
    let lines := Text.lines text
    let outside := byLine.filter fun group => isOutside lines.length group.1
    table "" (listing policy sources byLine lines) ++
      String.join (outside.map (lineSection policy sources))
  | none => String.join (byLine.map (lineSection policy sources))

end RemarkAtlas.Html
