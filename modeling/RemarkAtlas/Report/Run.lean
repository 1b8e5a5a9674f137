import RemarkAtlas.Corpus.NoiseFilter
import RemarkAtlas.Load.FilterFile
import RemarkAtlas.Load.RecordFile
import RemarkAtlas.Report.Output
import RemarkAtlas.Report.TextTable

/-!
The report on a build directory: record files are found, loaded and filtered, and the requested
pages, summary and table are made.
-/

namespace RemarkAtlas

structure ReportRequest where
  buildDirectory : Path
  siteDirectory : Option Path := none
  summaryFile : Option Path := none
  limit : Nat := 20
  printTable : Bool := true
  filter : NoiseFilter := {}
  options : Document.Options := {}
  compilerSources : CompilerSources := {}
  skipInvalid : Bool := false
  deriving Repr

inductive RequestFault where
  | noBuildDirectory (path : Path)
  | limitZero
  | limitTooLarge
  | siteNotDirectory (path : Path)
  | nothingRequested
  deriving DecidableEq, Repr

def RequestFault.message : RequestFault → String
  | noBuildDirectory path => "Build directory does not exist: " ++ path.text
  | limitZero => "top_records must be greater than 0"
  | limitTooLarge => "top_records is too large (max 10000)"
  | siteNotDirectory path => "Output path is not a directory: " ++ path.text
  | nothingRequested =>
    "Nothing to do: request an HTML report, a JSON summary, or a text summary"

inductive CommandFault where
  | request (fault : RequestFault)
  | filterFile (path : Path) (fault : FilterFault)
  | scan (fault : LoadFault)
  | load (fault : LoadFault)
  | site (fault : OutputFault)
  | summary (fault : OutputFault)
  | recordFile (path : Path) (fault : LoadFault)
  deriving Repr

def CommandFault.message : CommandFault → String
  | request fault => fault.message
  | filterFile path _ => "Failed to load filter config " ++ path.text
  | scan _ => "Failed to scan build directory"
  | load _ => "Failed to load record files"
  | site _ => "Failed to write HTML report"
  | summary _ => "Failed to write JSON summary"
  | recordFile path _ => "Invalid record file " ++ path.text

structure Outcome where
  result : Except CommandFault Unit
  printed : String
  disk : FileSystem

namespace ReportRequest

def greatestLimit : Nat := 10000

def check (request : ReportRequest) (disk : FileSystem) : Except RequestFault Unit :=
  let isTaken (path : Path) : Bool := disk.exists? path && !disk.isDirectory path
  if !disk.isDirectory request.buildDirectory then
    .error (.noBuildDirectory request.buildDirectory)
  else if request.limit = 0 then .error .limitZero
  else if greatestLimit < request.limit then .error .limitTooLarge
  else
    match request.siteDirectory.filter isTaken with
    | some path => .error (.siteNotDirectory path)
    | none =>
      if request.siteDirectory.isNone && request.summaryFile.isNone && !request.printTable then
        .error .nothingRequested
      else .ok ()

def units (request : ReportRequest) (disk : FileSystem) :
    Except CommandFault (List CompilationUnit) := do
  let files ← (RecordFile.findFiles disk request.buildDirectory).mapError .scan
  let units ← (RecordFile.loadUnits disk request.options request.skipInvalid files).mapError .load
  return if request.filter.enabled then units.map request.filter.apply else units

def doubleRule : String := String.ofList (List.replicate 80 '=')

def tableText (policy : PrecisionPolicy) (limit : Nat) (units : List CompilationUnit) : String :=
  let ranked := Ranking.rank policy (Corpus.allRecords units)
  let trust := if policy.preciseOnly then "profile data only" else "all estimates"
  String.join (["", doubleRule, "OPTIMIZATION RECORD SUMMARY", doubleRule,
    "Translation units: " ++ toString units.length,
    "Records:           " ++ toString ranked.length,
    "Counts:            " ++ trust,
    "", TextTable.render policy limit ranked, doubleRule].map (· ++ "\n"))

def writeSite (request : ReportRequest) (policy : PrecisionPolicy) (units : List CompilationUnit) :
    Writing Unit := do
  match request.siteDirectory with
  | none => return ()
  | some directory =>
    let _ ← Output.writeSite policy request.compilerSources units directory
    return ()

def writeSummary (request : ReportRequest) (policy : PrecisionPolicy) (generatedAt : String)
    (units : List CompilationUnit) : Writing Unit :=
  match request.summaryFile with
  | none => return ()
  | some path =>
    Output.writeSummary (Summary.ofUnits policy request.limit generatedAt units) path

def run (request : ReportRequest) (generatedAt : String) (disk : FileSystem) : Outcome :=
  match request.units disk with
  | .error fault => { result := .error fault, printed := "", disk }
  | .ok units =>
    let policy := PrecisionPolicy.ofUnits units
    match (request.writeSite policy units).run disk with
    | .error fault disk => { result := .error (.site fault), printed := "", disk }
    | .ok () disk =>
      match (request.writeSummary policy generatedAt units).run disk with
      | .error fault disk => { result := .error (.summary fault), printed := "", disk }
      | .ok () disk =>
        let printed := if request.printTable then tableText policy request.limit units else ""
        { result := .ok (), printed, disk }

end ReportRequest

end RemarkAtlas
