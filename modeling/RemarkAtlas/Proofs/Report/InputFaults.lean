import RemarkAtlas.CommandLine.Invocation
import RemarkAtlas.Proofs.Load.Directory
import RemarkAtlas.Proofs.Report.Noise

/-!
Reports that fail on what they read.  Everything is read before anything is written, so such a
report leaves the disk as it was and prints nothing.
-/

namespace RemarkAtlas

inductive CommandFault.IsOfInput : CommandFault → Prop
  | request (fault : RequestFault) : IsOfInput (.request fault)
  | filterFile (path : Path) (fault : FilterFault) : IsOfInput (.filterFile path fault)
  | scan (fault : LoadFault) : IsOfInput (.scan fault)
  | load (fault : LoadFault) : IsOfInput (.load fault)

namespace ReportRequest

variable {request : ReportRequest} {disk : FileSystem}

theorem units_eq_error {fault : CommandFault} :
    request.units disk = .error fault ↔
      (∃ scanFault, RecordFile.findFiles disk request.buildDirectory = .error scanFault ∧
        .scan scanFault = fault) ∨
      ∃ paths, RecordFile.findFiles disk request.buildDirectory = .ok paths ∧ ∃ loadFault,
        RecordFile.loadUnits disk request.options request.skipInvalid paths = .error loadFault ∧
          .load loadFault = fault := by
  have never (units : List CompilationUnit) : (pure (if request.filter.enabled then
      units.map request.filter.apply else units) : Except CommandFault _) ≠ .error fault := by
    simp [pure, Except.pure]
  simp only [units, Except.bind_eq_error, Except.mapError_eq_error, Except.mapError_eq_ok, never,
    and_false, exists_false, or_false]

theorem units_fails :
    (∃ fault, request.units disk = .error fault) ↔
      (∃ fault, RecordFile.findFiles disk request.buildDirectory = .error fault) ∨
      request.skipInvalid = false ∧
        RecordFile.HasInvalid disk request.options request.buildDirectory := by
  simp only [units_eq_error]
  constructor
  · rintro ⟨fault, ⟨scanFault, finds, _⟩ | ⟨paths, finds, loadFault, loads, _⟩⟩
    · exact Or.inl ⟨scanFault, finds⟩
    · exact Or.inr ((RecordFile.loadUnits_fails finds).mp ⟨loadFault, loads⟩)
  · rintro (⟨scanFault, finds⟩ | invalid)
    · exact ⟨_, Or.inl ⟨scanFault, finds, rfl⟩⟩
    · cases finds : RecordFile.findFiles disk request.buildDirectory with
      | error scanFault => exact ⟨_, Or.inl ⟨scanFault, rfl, rfl⟩⟩
      | ok paths =>
          obtain ⟨loadFault, loads⟩ := (RecordFile.loadUnits_fails finds).mpr invalid
          exact ⟨_, Or.inr ⟨paths, rfl, loadFault, loads, rfl⟩⟩

theorem units_fault {fault : CommandFault} (fails : request.units disk = .error fault) :
    fault.IsOfInput := by
  rcases units_eq_error.mp fails with ⟨scanFault, _, rfl⟩ | ⟨_, _, loadFault, _, rfl⟩
  · exact .scan scanFault
  · exact .load loadFault

theorem run_fault {generatedAt : String} {fault : CommandFault} {units : List CompilationUnit}
    (loads : request.units disk = .ok units)
    (fails : (request.run generatedAt disk).result = .error fault) : ¬ fault.IsOfInput := by
  rw [run, loads] at fails
  dsimp only at fails
  intro ofInput
  split at fails
  case h_1 =>
    cases fails
    cases ofInput
  case h_2 =>
    split at fails
    case h_1 =>
      cases fails
      cases ofInput
    case h_2 => cases fails

end ReportRequest

namespace CommandLine

inductive FailsOnInput (report : ReportArguments) (options : Document.Options) (disk : FileSystem) :
    Prop
  | filter {fault : CommandFault} (fails : loadFilter report disk = .error fault)
  | arguments {request : ReportRequest} {fault : RequestFault}
      (isRequest : reportRequest report options disk = .ok request)
      (rejects : request.check disk = .error fault)
  | scan {fault : LoadFault}
      (fails : RecordFile.findFiles disk report.buildDirectory = .error fault)
  | record (strict : report.skipInvalid = false)
      (invalid : RecordFile.HasInvalid disk options report.buildDirectory)

variable {report : ReportArguments} {options : Document.Options} {disk : FileSystem}

theorem loadFilter_fault {fault : CommandFault} (fails : loadFilter report disk = .error fault) :
    fault.IsOfInput := by
  rw [loadFilter] at fails
  split at fails
  case isTrue => cases fails
  case isFalse =>
    split at fails
    case h_1 => cases fails
    case h_2 path _ =>
      obtain ⟨filterFault, _, rfl⟩ := Except.mapError_eq_error.mp fails
      exact .filterFile path filterFault

theorem reportRequest_eq_error {fault : CommandFault} :
    reportRequest report options disk = .error fault ↔ loadFilter report disk = .error fault := by
  rw [reportRequest]
  cases loadFilter report disk <;> simp [bind, Except.bind, pure, Except.pure]

theorem reportRequest_eq_ok {request : ReportRequest}
    (isRequest : reportRequest report options disk = .ok request) :
    request.buildDirectory = report.buildDirectory ∧ request.options = options ∧
      request.skipInvalid = report.skipInvalid := by
  rw [reportRequest] at isRequest
  cases loads : loadFilter report disk with
  | error fault =>
      rw [loads] at isRequest
      cases isRequest
  | ok filter =>
      rw [loads] at isRequest
      obtain rfl := Except.ok.inj isRequest
      exact ⟨rfl, rfl, rfl⟩

/-- With a filter and sensible arguments, only the record files are left to fail. -/
theorem failsOnInput_iff {request : ReportRequest}
    (isRequest : reportRequest report options disk = .ok request)
    (checks : request.check disk = .ok ()) :
    FailsOnInput report options disk ↔ ∃ fault, request.units disk = .error fault := by
  obtain ⟨sameDirectory, sameOptions, sameSkip⟩ := reportRequest_eq_ok isRequest
  rw [ReportRequest.units_fails, sameDirectory, sameOptions, sameSkip]
  constructor
  · intro fails
    cases fails with
    | filter fails => cases isRequest.symm.trans (reportRequest_eq_error.mpr fails)
    | arguments isOther rejects =>
        obtain rfl := Except.ok.inj (isRequest.symm.trans isOther)
        cases checks.symm.trans rejects
    | scan fails => exact Or.inl ⟨_, fails⟩
    | record strict invalid => exact Or.inr ⟨strict, invalid⟩
  · rintro (⟨_, fails⟩ | ⟨strict, invalid⟩)
    · exact .scan fails
    · exact .record strict invalid

/-- A report fails on its input before it has done anything, or never. -/
theorem runReport_cases (report : ReportArguments) (options : Document.Options)
    (generatedAt : String) (disk : FileSystem) :
    (FailsOnInput report options disk ∧ ∃ fault, fault.IsOfInput ∧
      runReport report options generatedAt disk = ⟨.error fault, "", disk⟩) ∨
    (¬ FailsOnInput report options disk ∧ ∀ fault,
      (runReport report options generatedAt disk).result = .error fault → ¬ fault.IsOfInput) := by
  rw [runReport]
  cases isRequest : reportRequest report options disk with
  | error fault =>
      have fails := reportRequest_eq_error.mp isRequest
      exact Or.inl ⟨.filter fails, fault, loadFilter_fault fails, rfl⟩
  | ok request =>
      dsimp only
      cases checks : request.check disk with
      | error fault => exact Or.inl ⟨.arguments isRequest checks, _, .request fault, rfl⟩
      | ok _ =>
          rw [failsOnInput_iff isRequest checks]
          cases loads : request.units disk with
          | error fault =>
              refine Or.inl ⟨⟨fault, rfl⟩, fault, ReportRequest.units_fault loads, ?_⟩
              dsimp only
              rw [ReportRequest.run, loads]
          | ok units => exact Or.inr ⟨by simp, fun fault => ReportRequest.run_fault loads⟩

theorem run_failsOnInput {arguments : List String} {environmentFilter : Option String}
    {invocation : Invocation} (generatedAt : String) (disk : FileSystem)
    (parsed : parse {} environmentFilter arguments = .ok invocation)
    (isReport : invocation.command = .report report) :
    let exit := run arguments environmentFilter generatedAt disk
    (FailsOnInput report invocation.options disk ↔
      ∃ fault, exit.fault = some fault ∧ fault.IsOfInput) ∧
    (FailsOnInput report invocation.options disk →
      exit.code = 1 ∧ exit.printed = "" ∧ exit.disk = disk) := by
  intro exit
  have exit_eq : exit =
      .ofOutcome (runReport report invocation.options generatedAt disk) := by
    simp only [exit, run, parsed, Invocation.run, isReport]
  rw [exit_eq]
  rcases runReport_cases report invocation.options generatedAt disk with
    ⟨fails, fault, ofInput, outcome⟩ | ⟨never, otherFault⟩
  · rw [outcome]
    exact ⟨iff_of_true fails ⟨fault, rfl, ofInput⟩, fun _ => ⟨rfl, rfl, rfl⟩⟩
  · refine ⟨iff_of_false never ?_, fun fails => absurd fails never⟩
    rintro ⟨fault, isFault, ofInput⟩
    rw [Exit.ofOutcome] at isFault
    split at isFault
    case h_1 => cases isFault
    case h_2 resultFault result =>
      obtain rfl := Option.some.inj isFault
      exact otherFault _ result ofInput

def truncatedDisk : FileSystem where
  root := .directory [("build", .directory
    [("a.opt-record.json", .file (Utf8.encode ((ReportRequest.documentWith []).pretty 0))),
      ("sub", .directory [("z.opt-record.json.gz", .file [0x1f, 0x8b, 0x08])])])]
  workingDirectory := []

def lockedDisk : FileSystem :=
  { truncatedDisk with limits := { unreadable := [["build", "sub"]] } }

def pagesAndSummary : List String := ["report", "build", "-o", "out", "--json", "out/summary.json"]

def pagesRequest : ReportArguments where
  buildDirectory := ⟨"build"⟩
  siteDirectory := some ⟨"out"⟩
  summaryFile := some ⟨"out/summary.json"⟩
  limit := 20
  quiet := false
  noFilter := false
  filterFile := none
  skipInvalid := false
  compilerSources := {}

/-- Nothing is wrong with the arguments, but the directory cannot be scanned. -/
theorem lockedDisk_unscannable :
    (reportRequest pagesRequest {} lockedDisk >>= fun request =>
      (request.check lockedDisk).mapError .request) = .ok () ∧
    RecordFile.findFiles lockedDisk ⟨"build"⟩ = .error (.unscannable ⟨"build"⟩) :=
  ⟨rfl, rfl⟩

theorem truncatedFile_leavesNothing :
    let invocation : Invocation := { command := .report pagesRequest, options := {} }
    parse {} none pagesAndSummary = .ok invocation ∧
    (∃ unit, RecordFile.loadUnit truncatedDisk {} ⟨"build/a.opt-record.json"⟩ = .ok unit) ∧
    ∀ disk ∈ [truncatedDisk, lockedDisk], FailsOnInput pagesRequest {} disk ∧
      (run pagesAndSummary none "now" disk).code = 1 ∧
      (run pagesAndSummary none "now" disk).printed = "" ∧
      (run pagesAndSummary none "now" disk).disk = disk := by
  intro invocation
  have parsed : parse {} none pagesAndSummary = .ok invocation := rfl
  have isRead : (ReportRequest.documentWith []).IsRead Json.depthLimit :=
    ReportRequest.isRead_documentWith (List.forall_mem_nil _)
  have loads := @RecordFile.loadUnit_pretty truncatedDisk ⟨"build/a.opt-record.json"⟩ _ {} _ 0
    isRead rfl rfl
  have fails : RecordFile.loadUnit truncatedDisk {} ⟨"build/sub/z.opt-record.json.gz"⟩ =
      .error (.unreadable ⟨"build/sub/z.opt-record.json.gz"⟩) := rfl
  have isFound : truncatedDisk.HasRecordFile ⟨"build"⟩ ⟨"build/sub/z.opt-record.json.gz"⟩ :=
    ⟨_, _, rfl, ["sub", "z.opt-record.json.gz"], [0x1f, 0x8b, 0x08],
      by simp [Entry.files, Entry.filesBelow], rfl, rfl⟩
  refine ⟨parsed, ⟨_, loads⟩, List.forall_mem_cons.mpr ⟨?_, List.forall_mem_singleton.mpr ?_⟩⟩
  · have onInput : FailsOnInput pagesRequest {} truncatedDisk :=
      .record rfl ⟨_, _, isFound, fails⟩
    exact ⟨onInput, (run_failsOnInput "now" truncatedDisk parsed rfl).2 onInput⟩
  · have onInput : FailsOnInput pagesRequest {} lockedDisk := .scan lockedDisk_unscannable.2
    exact ⟨onInput, (run_failsOnInput "now" lockedDisk parsed rfl).2 onInput⟩

end CommandLine

end RemarkAtlas
