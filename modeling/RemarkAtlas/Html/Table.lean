import RemarkAtlas.Corpus.Functions
import RemarkAtlas.Corpus.Message
import RemarkAtlas.Corpus.Passes
import RemarkAtlas.Html.Escape

/-!
The tables of the report: records, functions and passes.
-/

namespace RemarkAtlas.Html

def link (address inner : String) : String :=
  "<a href=\"" ++ address ++ "\">" ++ inner ++ "</a>"

def cell (inner : String) : String := "<td>" ++ inner ++ "</td>"

def heading (text : String) : String := "<th>" ++ text ++ "</th>"

def headingRow (texts : List String) : String :=
  "<tr>" ++ String.join (texts.map heading) ++ "</tr>\n"

def row (cells : List String) : String := "<tr>" ++ String.join (cells.map cell) ++ "</tr>\n"

def table (head body : String) : String := "<table>\n" ++ head ++ body ++ "</table>\n"

def shown {Value : Type} (view : Value → String) : Option Value → String
  | some value => view value
  | none => ""

def markup : Markup where
  plain := escape
  item item := "<code>" ++ escape item.text ++ "</code>"
  link location inner := link (locationLink location) inner

def passLink (name : String) : String := link (escape (passPage name)) (escape name)

def placeLink (location : Location) : String := link (locationLink location) (escape location.text)

def fileLink (file : String) : String := link (escape (sourcePage file)) (escape file)

def inliningText (frames : List InliningFrame) : String :=
  " &larr; ".intercalate (frames.map fun frame => escape frame.function)

def emitterText (sources : CompilerSources) (emitter : CompilerLocation) : String :=
  match sources.link? emitter with
  | some address => link (escape address) (escape emitter.text)
  | none => escape emitter.text

def countText (value : UInt64) : String := toString value.toNat

def recordHeadings : List String :=
  ["Hotness", "Kind", "Pass", "Function", "Location", "Message", "Inlining chain", "Emitted by"]

def recordRow (policy : PrecisionPolicy) (sources : CompilerSources) (sighting : Sighting) :
    String :=
  let record := sighting.record
  "<tr class=\"" ++ escape record.effectiveOutcome.tag ++ "\">" ++
    cell (shown countText (policy.hotness record)) ++
    cell (escape record.kind.tag) ++
    cell (shown passLink sighting.passName?) ++
    cell (escape (record.function?.getD "")) ++
    cell (shown placeLink record.location?) ++
    cell ("<pre>" ++ markup.render record ++ "</pre>") ++
    cell (shown inliningText record.inlining?) ++
    cell (shown (emitterText sources) record.emitter?) ++ "</tr>\n"

def recordsTable (policy : PrecisionPolicy) (sources : CompilerSources) (records : List Sighting) :
    String :=
  table (headingRow recordHeadings) (String.join (records.map (recordRow policy sources)))

def functionRow (summary : FunctionSummary) : String :=
  row [escape summary.name, shown countText summary.activity.hotness,
    shown fileLink summary.activity.sourceFile, shown placeLink summary.activity.peak]

def functionsTable (summaries : List FunctionSummary) : String :=
  table (headingRow ["Function", "Hotness", "Source file", "Peak"])
    (String.join (summaries.map functionRow))

def passRow (summary : PassSummary) : String :=
  let name := match summary.name with
    | some name => passLink name
    | none => escape summary.displayName
  row [name, toString summary.topLevel, toString summary.total]

def passesTable (summaries : List PassSummary) : String :=
  table (headingRow ["Pass", "Top-level", "Total"]) (String.join (summaries.map passRow))

end RemarkAtlas.Html
