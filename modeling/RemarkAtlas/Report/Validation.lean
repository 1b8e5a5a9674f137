import RemarkAtlas.Report.Run

/-!
Checking a single record file, and telling the version.
-/

namespace RemarkAtlas

namespace Validation

def yesOrNo (value : Bool) : String := if value then "yes" else "no"

def statistics (unit : CompilationUnit) : List String :=
  let generator := unit.generator
  ["✓ Valid optimization record file",
    "  Format: " ++ unit.format,
    "  Generator: " ++ generator.name ++ " " ++ generator.version ++
      " (" ++ generator.target ++ ")",
    "  Passes: " ++ toString unit.passes.length,
    "  Top-level Records: " ++ toString unit.records.length,
    "  All Records: " ++ toString unit.allRecords.length,
    "  Distinct Pass Names: " ++ toString (PassSummary.ofUnits [unit]).length,
    "  Profile Counts: " ++ yesOrNo (PrecisionPolicy.ofUnits [unit]).preciseOnly]

def printLines (lines : List String) : String := String.join (lines.map (· ++ "\n"))

def run (path : Path) (options : Document.Options) (disk : FileSystem) : Outcome :=
  let start := "Validating record file: " ++ path.text
  match RecordFile.loadUnit disk options path with
  | .error fault =>
    { result := .error (.recordFile path fault), printed := printLines [start], disk }
  | .ok unit => { result := .ok (), printed := printLines (start :: statistics unit), disk }

end Validation

def versionText : String :=
  Validation.printLines
    ["Optrecord Studio v0.1.0", "Summary Schema: v" ++ Summary.formatVersion, "",
      "Browsable reports for compiler optimization records."]

end RemarkAtlas
