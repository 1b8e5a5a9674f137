import Mathlib.Data.List.Infix
import RemarkAtlas.Proofs.Load.Skipping
import RemarkAtlas.Proofs.Report.Noise

/-!
Reports that skip invalid record files.  Apart from the time that is noted, they are the reports on
the build directory without these files.
-/

namespace RemarkAtlas

namespace Output

inductive EndAlike {Value : Type} (related : FileSystem → FileSystem → Prop) :
    EStateM.Result OutputFault FileSystem Value → EStateM.Result OutputFault FileSystem Value → Prop
  | ok (value : Value) {after otherAfter : FileSystem} (left : related after otherAfter) :
      EndAlike related (.ok value after) (.ok value otherAfter)
  | error (fault : OutputFault) (after otherAfter : FileSystem) :
      EndAlike related (.error fault after) (.error fault otherAfter)

variable {gone : Place → Bool} {disk other : FileSystem} {path : Path}

theorem EndAlike.imp {Value : Type} {related weaker : FileSystem → FileSystem → Prop}
    {run otherRun : EStateM.Result OutputFault FileSystem Value}
    (ends : EndAlike related run otherRun)
    (implies : ∀ after otherAfter, related after otherAfter → weaker after otherAfter) :
    EndAlike weaker run otherRun := by
  cases ends with
  | ok value left => exact .ok value (implies _ _ left)
  | error fault after otherAfter => exact .error fault after otherAfter

theorem EndAlike.bind {Value Result : Type} {first : Writing Value}
    {next otherNext : Value → Writing Result} {middle last : FileSystem → FileSystem → Prop}
    (firstAlike : EndAlike middle (first disk) (first other))
    (nextAlike : ∀ value after otherAfter, first disk = .ok value after → middle after otherAfter →
      EndAlike last (next value after) (otherNext value otherAfter)) :
    EndAlike last ((first >>= next) disk) ((first >>= otherNext) other) := by
  change EndAlike last (EStateM.bind first next disk) (EStateM.bind first otherNext other)
  unfold EStateM.bind
  generalize ran : first disk = result at firstAlike ⊢
  generalize first other = otherResult at firstAlike ⊢
  cases firstAlike with
  | error fault after otherAfter => exact .error fault after otherAfter
  | ok value left => exact nextAlike value _ _ ran left

theorem makeParent_lacking (lacks : FileSystem.Lacks gone disk other)
    (clear : ∀ place, gone place = true → ¬ disk.RunsThrough path place) :
    EndAlike (FileSystem.Lacks gone) (makeParent path disk) (makeParent path other) := by
  rw [makeParent_eq, makeParent_eq]
  cases isParent : path.parent? with
  | none => exact .ok () lacks
  | some parent =>
      dsimp only
      rw [lacks.exists? (FileSystem.avoids_outer clear isParent List.prefix_rfl rfl)]
      split
      · exact .ok () lacks
      · obtain ⟨sameResult, stay⟩ := lacks.makeDirectories fun ancestor member => by
          obtain ⟨isPrefix, sameStart⟩ := Path.ancestorsUpTo_isPrefix _ ancestor member
          exact FileSystem.avoids_outer clear isParent isPrefix sameStart
        rw [makeDirectory_eq, makeDirectory_eq, FileSystem.createDirectory,
          FileSystem.createDirectory, Path.ancestors, sameResult]
        split
        · exact .ok () stay.lacks
        · exact .error _ _ _

theorem createFile_lacking (lacks : FileSystem.Lacks gone disk other)
    {fill otherFill : Room → Bytes × Option OutputFault}
    (sameFault : (fill (disk.room path)).2 = (otherFill (disk.room path)).2) :
    EndAlike (fun after otherAfter => otherAfter.room path = after.room path)
      (createFile path fill disk) (createFile path otherFill other) := by
  have writable := lacks.write?_isSome path (fill (disk.room path)).1 (otherFill (disk.room path)).1
  rw [createFile_eq, createFile_eq, ← lacks.room path, ← sameFault]
  cases written : disk.write? path (fill (disk.room path)).1 with
  | none =>
      rw [written] at writable
      rw [Option.isNone_iff_eq_none.mp (Option.isSome_eq_false_iff.mp writable.symm)]
      exact .error _ _ _
  | some after =>
      rw [written] at writable
      obtain ⟨otherAfter, otherWritten⟩ := Option.isSome_iff_exists.mp writable.symm
      have sameRoom : otherAfter.room path = after.room path := by
        rw [FileSystem.room_write lacks.sound written,
          FileSystem.room_write lacks.otherSound otherWritten, lacks.room path]
      rw [otherWritten]
      cases (fill (disk.room path)).2 with
      | none => exact .ok () sameRoom
      | some fault => exact .error _ _ _

theorem room_createFile (sound : disk.IsSound) (fill : Room → Bytes × Option OutputFault) :
    (diskLeft (createFile path fill disk)).room path = disk.room path := by
  rw [createFile_eq]
  cases written : disk.write? path (fill (disk.room path)).1 with
  | none => rfl
  | some after =>
      have sameRoom := FileSystem.room_write sound written
      cases (fill (disk.room path)).2 <;> exact sameRoom

theorem writeSummary_lacking (lacks : FileSystem.Lacks gone disk other)
    (clear : ∀ place, gone place = true → ¬ disk.RunsThrough path place)
    {summary otherSummary : Summary} (written : summary = otherSummary ∨
      (diskLeft (writeSummary summary path disk)).room path = none) :
    EndAlike (fun after otherAfter => otherAfter.room path = after.room path)
      (writeSummary summary path disk) (writeSummary otherSummary path other) := by
  have sameCheck : checkPath disk path = checkPath other path := by
    rw [checkPath, checkPath, lacks.isDirectory]
  rw [writeSummary_eq] at written
  rw [writeSummary_eq, writeSummary_eq, ← sameCheck]
  cases checks : checkPath disk path with
  | error cause => exact .error _ _ _
  | ok _ =>
      refine (makeParent_lacking lacks clear).bind fun _ middle _ makes left => ?_
      refine createFile_lacking left ?_
      rcases written with rfl | noBound
      · rfl
      · -- Every write to a file without a bound succeeds.
        rw [checks] at noBound
        dsimp only at noBound
        rw [bind_of_ok makes, writeBuffered, room_createFile left.sound] at noBound
        have succeeds (pieces : List Bytes) :
            ((BufferedFile.create none).writeAll pieces).1 = true :=
          BufferedFile.writeAll_succeeds rfl
        simp only [noBound, succeeds]

end Output

namespace ReportRequest

open RecordFile (invalidPlaces withoutInvalid)

/-- Two outcomes of one report that differ in the time that is noted in the summary, and on disks
that need not be the same. -/
structure SameButTime (summaryFile : Option Path) (time otherTime : String)
    (outcome other : Outcome) : Prop where
  result : outcome.result = other.result
  printed : outcome.printed = other.printed
  summary (succeeds : outcome.result = .ok ()) {path : Path} (isSummary : summaryFile = some path) :
    ∃ summary : Summary,
      outcome.disk.content? path = some ((outcome.disk.room path).keep
        (Utf8.encode { summary with generatedAt := time }.render)) ∧
      other.disk.content? path = some ((outcome.disk.room path).keep
        (Utf8.encode { summary with generatedAt := otherTime }.render))

variable {request : ReportRequest} {disk other : FileSystem} {units : List CompilationUnit}

theorem units_skipping (request : ReportRequest) (sound : disk.IsSound) (tree : disk.root.IsTree)
    (isDirectory : disk.isDirectory request.buildDirectory) :
    let skipping := { request with skipInvalid := true }.units disk
    let strict := { request with skipInvalid := false }.units
      (withoutInvalid disk request.options request.buildDirectory)
    (∃ fault, skipping = .error fault ∧ strict = .error fault) ∨
      ∃ units, skipping = .ok units ∧ strict = .ok units := by
  intro skipping strict
  rcases RecordFile.loadUnits_withoutInvalid sound tree request.options isDirectory with
    ⟨fails, failsLeft⟩ | ⟨found, left, units, finds, findsLeft, loads, loadsLeft⟩
  · refine Or.inl ⟨.scan (.unscannable request.buildDirectory), ?_, ?_⟩
    · simp only [skipping, ReportRequest.units, fails]
      rfl
    · simp only [strict, ReportRequest.units, failsLeft]
      rfl
  · refine Or.inr
      ⟨if request.filter.enabled then units.map request.filter.apply else units, ?_, ?_⟩
    · simp only [skipping, ReportRequest.units, finds]
      dsimp only [bind, Except.bind, Except.mapError]
      rw [loads]
      rfl
    · simp only [strict, ReportRequest.units, findsLeft]
      dsimp only [bind, Except.bind, Except.mapError]
      rw [loadsLeft]
      rfl

theorem run_eq (request : ReportRequest) (noSite : request.siteDirectory = none) (time : String)
    (hasUnits : request.units disk = .ok units) :
    request.run time disk =
      match request.writeSummary (.ofUnits units) time units disk with
      | .error fault after => { result := .error (.summary fault), printed := "", disk := after }
      | .ok () after =>
        let printed :=
          if request.printTable then tableText (.ofUnits units) request.limit units else ""
        { result := .ok (), printed, disk := after } := by
  have site : request.writeSite (.ofUnits units) units disk = .ok () disk := by
    rw [writeSite, noSite]
    rfl
  rw [run, hasUnits]
  cases written : request.writeSummary (.ofUnits units) time units disk with
  | ok _ after => simp only [EStateM.run, site, written]
  | error fault after => simp only [EStateM.run, site, written]

theorem writeSummary_lacking {gone : Place → Bool} (lacks : FileSystem.Lacks gone disk other)
    (clear : ∀ path, request.summaryFile = some path →
      ∀ place, gone place = true → ¬ disk.RunsThrough path place)
    (policy : PrecisionPolicy) {time otherTime : String} (units : List CompilationUnit)
    (noted : time = otherTime ∨ ∀ path, request.summaryFile = some path →
      (Output.diskLeft (request.writeSummary policy time units disk)).room path = none) :
    Output.EndAlike (fun after otherAfter => ∀ path, request.summaryFile = some path →
        otherAfter.room path = after.room path)
      (request.writeSummary policy time units disk)
      (request.writeSummary policy otherTime units other) := by
  rw [writeSummary] at noted
  rw [writeSummary, writeSummary]
  cases isSummary : request.summaryFile with
  | none =>
      refine .ok () fun path isPath => ?_
      cases isPath
  | some path =>
      rw [isSummary] at noted
      have ends := Output.writeSummary_lacking lacks (clear path isSummary) (noted.imp
        (congrArg (Summary.ofUnits policy request.limit · units)) fun noBound => noBound path rfl)
      refine ends.imp fun after otherAfter sameRoom found isPath => ?_
      obtain rfl := Option.some.inj isPath
      exact sameRoom

/-- A report without pages on a disk and on one that lacks files, if both hold the same units. -/
theorem run_lacking (request : ReportRequest) {gone : Place → Bool} {skips : Bool}
    (lacks : FileSystem.Lacks gone disk other) (clear : ∀ path, request.summaryFile = some path →
      ∀ place, gone place = true → ¬ disk.RunsThrough path place)
    (noSite : request.siteDirectory = none) (here : request.units disk = .ok units)
    (there : { request with skipInvalid := skips }.units other = .ok units)
    {time otherTime : String} (noted : time = otherTime ∨ ∀ path, request.summaryFile = some path →
      (request.run time disk).disk.room path = none) :
    SameButTime request.summaryFile time otherTime (request.run time disk)
      ({ request with skipInvalid := skips }.run otherTime other) := by
  have run := run_eq request noSite time here
  have otherRun := run_eq { request with skipInvalid := skips } noSite otherTime there
  have leaves : (request.run time disk).disk =
      Output.diskLeft (request.writeSummary (.ofUnits units) time units disk) := by
    rw [run]
    cases request.writeSummary (.ofUnits units) time units disk <;> rfl
  rw [leaves] at noted
  have ends : Output.EndAlike (fun after otherAfter => ∀ path, request.summaryFile = some path →
        otherAfter.room path = after.room path)
      (request.writeSummary (.ofUnits units) time units disk)
      ({ request with skipInvalid := skips }.writeSummary (.ofUnits units) otherTime units other) :=
    writeSummary_lacking lacks clear (.ofUnits units) units noted
  have same : (request.run time disk).result =
        ({ request with skipInvalid := skips }.run otherTime other).result ∧
      (request.run time disk).printed =
        ({ request with skipInvalid := skips }.run otherTime other).printed ∧
      ((request.run time disk).result = .ok () → ∀ path, request.summaryFile = some path →
        ({ request with skipInvalid := skips }.run otherTime other).disk.room path =
          (request.run time disk).disk.room path) := by
    rw [run, otherRun]
    generalize request.writeSummary (.ofUnits units) time units disk = written,
      { request with skipInvalid := skips }.writeSummary (.ofUnits units) otherTime units other =
        otherWritten at ends ⊢
    cases ends with
    | ok _ sameRoom => exact ⟨rfl, rfl, fun _ => sameRoom⟩
    | error _ _ _ =>
        refine ⟨rfl, rfl, fun succeeds => ?_⟩
        cases succeeds
  obtain ⟨sameResult, samePrinted, sameRoom⟩ := same
  refine ⟨sameResult, samePrinted, fun succeeds path isSummary => ?_⟩
  have first := run_summary lacks.sound here isSummary succeeds
  have second := run_summary lacks.otherSound there isSummary (sameResult.symm.trans succeeds)
  rw [sameRoom succeeds path isSummary] at second
  exact ⟨Summary.ofUnits (.ofUnits units) request.limit "" units, first, second⟩

/-- Skipping invalid files loads the valid ones. Hence a report without pages that skips them is a
report on the build directory from which they were removed, with the same summary apart from the
time, unless the path of the summary leads through one of them. In a file that can be full the
length of the summary counts, so there both reports must note the same time. -/
theorem run_skipping :
    (∀ disk options paths, RecordFile.LoadsValid disk options paths) ∧
    ∀ (request : ReportRequest) (disk : FileSystem), disk.IsSound → disk.root.IsTree →
      disk.isDirectory request.buildDirectory → request.siteDirectory = none →
      (∀ path, request.summaryFile = some path →
        ∀ place ∈ invalidPlaces disk request.options request.buildDirectory,
          ¬ disk.RunsThrough path place) →
      ∀ time otherTime,
        let skipping := { request with skipInvalid := true }.run time disk
        (time = otherTime ∨ ∀ path, request.summaryFile = some path →
          skipping.disk.room path = none) →
        SameButTime request.summaryFile time otherTime skipping
          ({ request with skipInvalid := false }.run otherTime
            (withoutInvalid disk request.options request.buildDirectory)) := by
  refine ⟨RecordFile.loadUnits_loadsValid, ?_⟩
  intro request disk sound tree isDirectory noSite clear time otherTime skipping noted
  have lacks := RecordFile.lacks_withoutInvalid sound tree request.options request.buildDirectory
  rcases units_skipping request sound tree isDirectory with
    ⟨fault, here, there⟩ | ⟨units, here, there⟩
  · -- If the build directory cannot be scanned, neither report gets any further.
    simp only [skipping, run, here, there]
    refine ⟨rfl, rfl, fun succeeds => ?_⟩
    cases succeeds
  · refine run_lacking { request with skipInvalid := true } lacks ?_ noSite here there noted
    exact fun path isSummary place removed =>
      clear path isSummary place (List.contains_iff_mem.mp removed)

def emptiedBuild : List (Bytes × Entry) :=
  [("a.opt-record.json", .file (Utf8.encode ((documentWith []).pretty 0))),
    ("b.opt-record.json", .file [])]

def emptiedDisk : FileSystem where
  root := .directory [("build", .directory emptiedBuild)]
  workingDirectory := []

def replacingRequest : ReportRequest where
  buildDirectory := ⟨"build"⟩
  summaryFile := some ⟨"build/b.opt-record.json"⟩

theorem isTree_emptiedDisk : emptiedDisk.root.IsTree := by
  have build : Entry.IsTree (.directory emptiedBuild) :=
    .directory (by decide) (by simp only [emptiedBuild]; decide)
      (by simp [emptiedBuild, Entry.IsTree.file])
  exact .directory (by simp) (by simp; decide) (List.forall_mem_singleton.mpr build)

def emptyFile : Place := ["build", "b.opt-record.json"]

theorem invalidPlaces_emptiedDisk : invalidPlaces emptiedDisk {} ⟨"build"⟩ = [emptyFile] := by
  have loads := @RecordFile.loadUnit_pretty emptiedDisk ⟨"build/a.opt-record.json"⟩ _ {} _ 0
    (isRead_documentWith (List.forall_mem_nil _)) rfl rfl
  have isLoaded := RecordFile.unit?_eq_some.mpr loads
  have notLoaded : RecordFile.unit? emptiedDisk {} ⟨"build/b.opt-record.json"⟩ = none := rfl
  have leads : emptiedDisk.lookup ⟨"build"⟩ true = .found ["build"] (.directory emptiedBuild) := rfl
  have first : Path.below ⟨"build"⟩ ["a.opt-record.json"] = ⟨"build/a.opt-record.json"⟩ := rfl
  have second : Path.below ⟨"build"⟩ ["b.opt-record.json"] = ⟨"build/b.opt-record.json"⟩ := rfl
  have isRecord : Path.isRecordFile ⟨"build/b.opt-record.json"⟩ = true := rfl
  simp only [invalidPlaces, leads]
  simp [emptiedBuild, emptyFile, Entry.files, Entry.filesBelow, first, second, isLoaded, notLoaded,
    isRecord]

/-- The path of the summary ends at the empty file and does not lead on from it. -/
theorem not_runsThrough_emptiedDisk :
    ¬ emptiedDisk.RunsThrough ⟨"build/b.opt-record.json"⟩ emptyFile := by
  rintro ⟨left, more, meets⟩
  have unlinked : ∀ outer ∈ emptyFile.inits,
      emptiedDisk.root.linkAt? (FileSystem.goAlong [] outer) = none := by decide
  have onlyWhole : ∀ outer ∈ emptyFile.inits,
      FileSystem.goAlong [] outer = emptyFile → outer = emptyFile := by decide
  obtain ⟨outer, isPath, spells⟩ := meets.of_unlinked fun outer isPrefix =>
    unlinked outer ((List.mem_inits _ _).mpr isPrefix)
  obtain rfl := onlyWhole outer ((List.mem_inits _ _).mpr ⟨left, isPath⟩) spells
  exact more (List.append_cancel_left (isPath.trans (List.append_nil _).symm))

/-- The empty file is found and skipped. -/
theorem units_emptiedDisk :
    ∃ units, { replacingRequest with skipInvalid := true }.units emptiedDisk = .ok units := by
  have scans : (emptiedDisk.findRecordFiles? ⟨"build"⟩).isSome = true := by decide +kernel
  obtain ⟨found, finds⟩ := Option.isSome_iff_exists.mp scans
  have isFound : RecordFile.findFiles emptiedDisk replacingRequest.buildDirectory = .ok found :=
    RecordFile.findFiles_eq_ok.mpr finds
  rw [ReportRequest.units, isFound]
  dsimp only [bind, Except.bind, Except.mapError]
  rw [RecordFile.loadUnits_skipping]
  exact ⟨_, rfl⟩

theorem emptiedDisk_skipped :
    let skipping := { replacingRequest with skipInvalid := true }.run "now" emptiedDisk
    let strict := { replacingRequest with skipInvalid := false }.run "later"
      (withoutInvalid emptiedDisk {} ⟨"build"⟩)
    emptiedDisk.IsSound ∧ emptiedDisk.root.IsTree ∧ emptiedDisk.isDirectory ⟨"build"⟩ ∧
    (∀ place ∈ invalidPlaces emptiedDisk {} ⟨"build"⟩,
      ¬ emptiedDisk.RunsThrough ⟨"build/b.opt-record.json"⟩ place) ∧
    skipping.result = .ok () ∧ strict.result = .ok () ∧ skipping.printed = strict.printed ∧
    ∃ summary : Summary,
      skipping.disk.content? ⟨"build/b.opt-record.json"⟩ =
        some (Utf8.encode { summary with generatedAt := "now" }.render) ∧
      strict.disk.content? ⟨"build/b.opt-record.json"⟩ =
        some (Utf8.encode { summary with generatedAt := "later" }.render) := by
  intro skipping strict
  have sound : emptiedDisk.IsSound := ⟨_, rfl⟩
  have clear : ∀ place ∈ invalidPlaces emptiedDisk {} ⟨"build"⟩,
      ¬ emptiedDisk.RunsThrough ⟨"build/b.opt-record.json"⟩ place := by
    rw [invalidPlaces_emptiedDisk]
    exact List.forall_mem_singleton.mpr not_runsThrough_emptiedDisk
  obtain ⟨units, here⟩ := units_emptiedDisk
  have run : skipping = _ := run_eq { replacingRequest with skipInvalid := true } rfl "now" here
  have writes : { replacingRequest with skipInvalid := true }.writeSummary (.ofUnits units) "now"
      units emptiedDisk = .ok () (emptiedDisk.put emptyFile (.file
        (Utf8.encode (Summary.ofUnits (.ofUnits units) 20 "now" units).render))) :=
    Output.writeSummary_of_fits rfl rfl rfl rfl
  rw [writes] at run
  have succeeds : skipping.result = .ok () := by rw [run]
  have noBound : skipping.disk.room ⟨"build/b.opt-record.json"⟩ = none := by
    rw [run]
    rfl
  have report := run_skipping.2 replacingRequest emptiedDisk sound isTree_emptiedDisk rfl rfl
    (fun path isSummary => Option.some.inj isSummary ▸ clear) "now" "later"
    (Or.inr fun path isSummary => Option.some.inj isSummary ▸ noBound)
  obtain ⟨summary, written, strictWritten⟩ := report.summary succeeds rfl
  rw [noBound] at written strictWritten
  exact ⟨sound, isTree_emptiedDisk, rfl, clear, succeeds, report.result.symm.trans succeeds,
    report.printed, summary, written, strictWritten⟩

end ReportRequest

end RemarkAtlas
