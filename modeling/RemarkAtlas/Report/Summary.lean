import RemarkAtlas.Corpus.Functions
import RemarkAtlas.Corpus.Message
import RemarkAtlas.Corpus.Passes
import RemarkAtlas.Json.Printer

/-!
The summary of a corpus: its functions, its passes and its hottest records, and how it is written as
JSON.  Values that are absent are left out, except for the name of a pass.
-/

namespace RemarkAtlas

structure FunctionEntry where
  name : String
  unit : Option String
  hotness : Option UInt64
  sourceFile : Option String
  peak : Option Location
  deriving DecidableEq, Repr

structure HotRecord where
  kind : String
  pass : Option String
  function : Option String
  location : Option Location
  count : Option UInt64
  message : String
  deriving DecidableEq, Repr

structure Summary where
  version : String
  unitCount : Nat
  preciseOnly : Bool
  functions : List FunctionEntry
  passes : List PassSummary
  hottest : List HotRecord
  generatedAt : String
  deriving DecidableEq, Repr

namespace Summary

def formatVersion : String := "1.0.0"

def functionEntry (summary : FunctionSummary) : FunctionEntry :=
  { name := summary.name
    unit := summary.first.unit.filename.map (·.text)
    hotness := summary.activity.hotness
    sourceFile := summary.activity.sourceFile
    peak := summary.activity.peak }

def hotRecord (policy : PrecisionPolicy) (sighting : Sighting) : HotRecord :=
  { kind := sighting.record.kind.tag
    pass := sighting.passName?
    function := sighting.record.function?
    location := sighting.record.location?
    count := policy.hotness sighting.record
    message := Markup.bare.render sighting.record }

def ofUnits (policy : PrecisionPolicy) (limit : Nat) (generatedAt : String)
    (units : List CompilationUnit) : Summary :=
  { version := formatVersion
    unitCount := units.length
    preciseOnly := policy.preciseOnly
    functions := (FunctionSummary.ofUnits policy units).map functionEntry
    passes := PassSummary.ofUnits units
    hottest := ((Ranking.rank policy (Corpus.allRecords units)).take limit).map (hotRecord policy)
    generatedAt }

def optionalMember {Value : Type} (key : String) (toJson : Value → Json) :
    Option Value → List (String × Json)
  | some value => [(key, toJson value)]
  | none => []

def wordJson (value : UInt64) : Json := .natural value.toNat

def locationJson (location : Location) : Json :=
  .object [("file", .string location.file), ("line", .natural location.line.toNat),
    ("column", .natural location.column.toNat)]

def functionJson (entry : FunctionEntry) : Json :=
  .object ([("name", .string entry.name)] ++
    optionalMember "translation_unit" .string entry.unit ++
    optionalMember "hotness" wordJson entry.hotness ++
    optionalMember "source_file" .string entry.sourceFile ++
    optionalMember "peak_location" locationJson entry.peak)

def passJson (summary : PassSummary) : Json :=
  let name := match summary.name with
    | some name => .string name
    | none => .null
  .object [("name", name), ("top_level", .natural summary.topLevel),
    ("total", .natural summary.total)]

def recordJson (record : HotRecord) : Json :=
  .object ([("kind", .string record.kind)] ++
    optionalMember "pass" .string record.pass ++
    optionalMember "function" .string record.function ++
    optionalMember "location" locationJson record.location ++
    optionalMember "count" wordJson record.count ++
    [("message", .string record.message)])

def toJson (summary : Summary) : Json :=
  .object [("version", .string summary.version),
    ("translation_units", .natural summary.unitCount),
    ("precise_counts_only", .bool summary.preciseOnly),
    ("functions", .array (summary.functions.map functionJson)),
    ("passes", .array (summary.passes.map passJson)),
    ("hottest_records", .array (summary.hottest.map recordJson)),
    ("generated_at", .string summary.generatedAt)]

def render (summary : Summary) : String := summary.toJson.pretty 0

def pieces (summary : Summary) : List Bytes := (summary.toJson.pieces 0).map Utf8.encode

end Summary

end RemarkAtlas
