import RemarkAtlas.Proofs.Corpus.Noise
import RemarkAtlas.Proofs.Load.RecordFile
import RemarkAtlas.Proofs.Report.TwoRuns
import RemarkAtlas.Report.Run

/-!
Reports on build directories that differ in noise.  The filter comes before everything else that
looks at the records, so the noise is neither seen in what is written nor in what is printed.
-/

namespace RemarkAtlas.ReportRequest

open Output (SameSources RunsAlike)

variable {request : ReportRequest} {disk other : FileSystem} {units kept : List CompilationUnit}

def loaded (request : ReportRequest) (disk : FileSystem) :
    Except CommandFault (List CompilationUnit) := do
  let files ← (RecordFile.findFiles disk request.buildDirectory).mapError .scan
  (RecordFile.loadUnits disk request.options request.skipInvalid files).mapError .load

theorem units_of_loaded (enabled : request.filter.enabled = true)
    (loads : request.loaded disk = .ok units) :
    request.units disk = .ok (units.map request.filter.apply) := by
  have units_eq : request.units disk = (request.loaded disk >>= fun units =>
      .ok (if request.filter.enabled then units.map request.filter.apply else units)) := by
    rw [ReportRequest.units, loaded, bind_assoc]
    rfl
  rw [units_eq, loads, enabled]
  rfl

def outputs (request : ReportRequest) (units : List CompilationUnit) : List Path :=
  request.siteDirectory.toList.flatMap (fun directory =>
    (Html.pages (.ofUnits units) request.compilerSources units).map fun page =>
      directory.join page.name) ++ request.summaryFile.toList

theorem writeSite_alike (policy : PrecisionPolicy) (alike : disk.Alike other)
    (sameSources : ∀ directory, request.siteDirectory = some directory →
      SameSources policy request.compilerSources kept directory disk other) :
    RunsAlike disk other
      (request.siteDirectory.toList.flatMap fun directory =>
        (Html.pages policy request.compilerSources kept).map fun page =>
          directory.join page.name)
      (request.writeSite policy kept disk) (request.writeSite policy kept other) := by
  rw [writeSite]
  cases isSite : request.siteDirectory with
  | none => exact .pure alike ()
  | some directory =>
      have runs := RunsAlike.bind_pure ()
        (Output.writeSite_alike alike (sameSources directory isSite))
      simpa using runs

theorem writeSummary_alike (policy : PrecisionPolicy) (generatedAt : String)
    (alike : disk.Alike other) :
    RunsAlike disk other request.summaryFile.toList
      (request.writeSummary policy generatedAt kept disk)
      (request.writeSummary policy generatedAt kept other) := by
  rw [writeSummary]
  cases request.summaryFile with
  | none => exact .pure alike ()
  | some path => exact Output.writeSummary_alike alike _ path

structure SameOutcome (disk other : FileSystem) (written : List Path) (first second : Outcome) :
    Prop where
  result : first.result = second.result
  printed : first.printed = second.printed
  stay : disk.StayAlike other first.disk second.disk
  shared (succeeds : first.result = .ok ()) : ∀ path ∈ written, first.disk.SharedAt second.disk path

theorem run_alike (generatedAt : String) (alike : disk.Alike other)
    (here : request.units disk = .ok kept) (there : request.units other = .ok kept)
    (sameSources : ∀ directory, request.siteDirectory = some directory →
      SameSources (.ofUnits kept) request.compilerSources kept directory disk other) :
    SameOutcome disk other (request.outputs kept) (request.run generatedAt disk)
      (request.run generatedAt other) := by
  rw [run, run, here, there]
  have site := writeSite_alike (.ofUnits kept) alike sameSources
  dsimp only [EStateM.run]
  generalize request.writeSite (.ofUnits kept) kept disk = siteRun,
    request.writeSite (.ofUnits kept) kept other = otherSiteRun at site ⊢
  cases site with
  | error fault stay => exact ⟨rfl, rfl, stay, fun succeeds => nomatch succeeds⟩
  | @ok _ middle otherMiddle stay pages =>
      have summary : RunsAlike middle otherMiddle request.summaryFile.toList
          (request.writeSummary (.ofUnits kept) generatedAt kept middle)
          (request.writeSummary (.ofUnits kept) generatedAt kept otherMiddle) :=
        writeSummary_alike _ generatedAt stay.alike
      dsimp only
      generalize request.writeSummary (.ofUnits kept) generatedAt kept middle = summaryRun,
        request.writeSummary (.ofUnits kept) generatedAt kept otherMiddle = otherSummaryRun
        at summary ⊢
      cases summary with
      | error fault last => exact ⟨rfl, rfl, stay.trans last, fun succeeds => nomatch succeeds⟩
      | ok _ last written =>
          refine ⟨rfl, rfl, stay.trans last, fun _ => List.forall_mem_append.mpr ⟨?_, written⟩⟩
          exact fun path isPage => last.shared (pages path isPage)

theorem writeSite_sound {policy : PrecisionPolicy} {after : FileSystem} (sound : disk.IsSound)
    (writes : request.writeSite policy kept disk = .ok () after) : after.IsSound := by
  rw [writeSite] at writes
  cases isSite : request.siteDirectory with
  | none =>
      rw [isSite] at writes
      cases writes
      exact sound
  | some directory =>
      rw [isSite] at writes
      obtain ⟨size, _, writesSite, last⟩ := Output.bind_eq_ok.mp writes
      cases last
      have startSound := sound.createDirectory directory
      exact (Output.writePages_keeps startSound (Output.writeSite_inv writesSite).1).sound

theorem run_summary {generatedAt : String} {path : Path} (sound : disk.IsSound)
    (hasUnits : request.units disk = .ok kept) (isSummary : request.summaryFile = some path)
    (succeeds : (request.run generatedAt disk).result = .ok ()) :
    (request.run generatedAt disk).disk.content? path =
      some (((request.run generatedAt disk).disk.room path).keep (Utf8.encode
        (Summary.ofUnits (.ofUnits kept) request.limit generatedAt kept).render)) := by
  rw [run, hasUnits] at succeeds ⊢
  dsimp only [EStateM.run] at succeeds ⊢
  cases site : request.writeSite (.ofUnits kept) kept disk with
  | error fault middle =>
      rw [site] at succeeds
      cases succeeds
  | ok _ middle =>
      rw [site] at succeeds
      dsimp only at succeeds ⊢
      cases writes : request.writeSummary (.ofUnits kept) generatedAt kept middle with
      | error fault after =>
          rw [writes] at succeeds
          cases succeeds
      | ok _ after =>
          rw [writeSummary, isSummary] at writes
          exact Output.writeSummary_content (writeSite_sound sound site) writes

/-- Two reports with the same time noted, on build directories whose record files differ in noise.
-/
theorem run_withNoise (request : ReportRequest) (enabled : request.filter.enabled = true)
    {units noisy : List CompilationUnit}
    (hasNoise : List.Forall₂ (CompilationUnit.HasNoise request.filter) units noisy) :
    let kept := units.map request.filter.apply
    let policy := PrecisionPolicy.ofUnits kept
    noisy.map request.filter.apply = kept ∧
    (policy.preciseOnly = true ↔
      ∃ unit ∈ units, ∃ top ∈ unit.records, request.filter.isNoise unit top = false ∧
        ∃ depth record, (depth, record) ∈ top.flatten 0 ∧
          ∃ count, record.count? = some count ∧ count.isPrecise = true) ∧
    ∀ generatedAt disk other, disk.Alike other →
      request.loaded disk = .ok units → request.loaded other = .ok noisy →
      (∀ directory, request.siteDirectory = some directory →
        SameSources policy request.compilerSources kept directory disk other) →
      let clean := request.run generatedAt disk
      let seen := request.run generatedAt other
      clean.result = seen.result ∧ clean.printed = seen.printed ∧
      (∀ path spot, clean.disk.spot? path = some spot → disk.AgreeAt other spot.place →
        clean.disk.content? path = seen.disk.content? path ∧
          clean.disk.read? path = seen.disk.read? path) ∧
      (clean.result = .ok () →
        (∀ directory, request.siteDirectory = some directory →
          ∀ page ∈ Html.pages policy request.compilerSources kept, ∃ content,
            clean.disk.content? (directory.join page.name) = some content ∧
              seen.disk.content? (directory.join page.name) = some content) ∧
        ∀ path, request.summaryFile = some path →
          let summary := Summary.ofUnits policy request.limit generatedAt kept
          let stored := (clean.disk.room path).keep (Utf8.encode summary.render)
          clean.disk.content? path = some stored ∧ seen.disk.content? path = some stored) := by
  intro kept policy
  have same : noisy.map request.filter.apply = kept := NoiseFilter.map_apply_hasNoise hasNoise
  refine ⟨same, PrecisionPolicy.preciseOnly_filtered request.filter units, ?_⟩
  intro generatedAt disk other alike here there sameSources clean seen
  have unitsHere : request.units disk = .ok kept := units_of_loaded enabled here
  have unitsThere : request.units other = .ok kept := same ▸ units_of_loaded enabled there
  have outcome := run_alike generatedAt alike unitsHere unitsThere sameSources
  refine ⟨outcome.result, outcome.printed, ?_, ?_⟩
  · intro path spot leads agree
    exact outcome.stay.alike.content? leads (outcome.stay.agree agree)
  · intro succeeds
    have shared := List.forall_mem_append.mp (outcome.shared succeeds)
    refine ⟨?_, ?_⟩
    · intro directory isSite page member
      refine FileSystem.SharedAt.content? outcome.stay.alike (shared.1 _ ?_)
      rw [isSite]
      simpa using ⟨page, member, rfl⟩
    · intro path isSummary summary stored
      have here := run_summary alike.sound unitsHere isSummary succeeds
      have there := run_summary alike.otherSound unitsThere isSummary
        (outcome.result.symm.trans succeeds)
      rw [← outcome.stay.alike.room path] at there
      exact ⟨here, there⟩

def countedNote (quality file : String) (children : List Record) : Record :=
  .remark ⟨.note, none, none⟩ ⟨none, [], some ⟨quality, 7⟩, some ⟨file, 1, 1⟩, none⟩ children

def countedNoteJson (quality file : String) (children : List Json) : Json :=
  .object [("children", .array children),
    ("count", .object [("quality", .string quality), ("value", .natural 7)]),
    ("kind", .string "note"),
    ("location", .object [("column", .natural 1), ("file", .string file), ("line", .natural 1)]),
    ("message", .array [])]

def unitWith (records : List Record) : CompilationUnit where
  filename := none
  format := "1"
  generator := ⟨"GNU C17", "(GCC) ", "13.2.0", "x86_64-pc-linux-gnu"⟩
  passes := []
  rootPasses := []
  positions := .empty
  records

def documentWith (records : List Json) : Json :=
  .array [.object [("format", .string "1"),
      ("generator", .object [("name", .string "GNU C17"), ("pkgversion", .string "(GCC) "),
        ("target", .string "x86_64-pc-linux-gnu"), ("version", .string "13.2.0")])],
    .array [], .array records]

def diskWith (records : List Json) : FileSystem where
  root := .directory [("a.c", .file (Utf8.encode "int main(void);\n")),
    ("build", .directory
      [("a.opt-record.json", .file (Utf8.encode ((documentWith records).pretty 0)))])]
  workingDirectory := []

def recordFile : Path := ⟨"build/a.opt-record.json"⟩

def fullRequest : ReportRequest where
  buildDirectory := ⟨"build"⟩
  siteDirectory := some ⟨"out"⟩
  summaryFile := some ⟨"summary.json"⟩

theorem isRead_countedNoteJson {depth : Nat} (quality file : String) {children : List Json}
    (areRead : ∀ child ∈ children, child.IsRead depth) :
    (countedNoteJson quality file children).IsRead (depth + 2) := by
  have countKeys : ["quality", "value"].Pairwise (· < ·) := by decide
  have locationKeys : ["column", "file", "line"].Pairwise (· < ·) := by decide
  have keys : ["children", "count", "kind", "location", "message"].Pairwise (· < ·) := by decide
  have number : ∀ value < 8, (Json.natural value).IsRead depth := fun value small =>
    .natural _ (Nat.lt_trans small (by decide))
  have count : (Json.object [("quality", .string quality), ("value", .natural 7)]).IsRead
      (depth + 1) := .object countKeys (by simp [Json.IsRead.string, number])
  have location : (Json.object [("column", .natural 1), ("file", .string file),
      ("line", .natural 1)]).IsRead (depth + 1) :=
    .object locationKeys (by simp [Json.IsRead.string, number])
  have message : (Json.array []).IsRead (depth + 1) := .array (List.forall_mem_nil _)
  exact .object keys
    (by simp [Json.IsRead.array areRead, Json.IsRead.string, count, location, message])

theorem isRead_documentWith {records : List Json} (areRead : ∀ record ∈ records, record.IsRead 125) :
    (documentWith records).IsRead Json.depthLimit := by
  have generatorKeys : ["name", "pkgversion", "target", "version"].Pairwise (· < ·) := by decide
  have metadataKeys : ["format", "generator"].Pairwise (· < ·) := by decide
  have generator : (Json.object [("name", .string "GNU C17"), ("pkgversion", .string "(GCC) "),
      ("target", .string "x86_64-pc-linux-gnu"), ("version", .string "13.2.0")]).IsRead 125 :=
    .object generatorKeys (by simp [Json.IsRead.string])
  have metadata : (Json.object [("format", .string "1"), ("generator", .object [
      ("name", .string "GNU C17"), ("pkgversion", .string "(GCC) "),
      ("target", .string "x86_64-pc-linux-gnu"), ("version", .string "13.2.0")])]).IsRead 126 :=
    .object metadataKeys (by simp [Json.IsRead.string, generator])
  have passes : (Json.array []).IsRead 126 := .array (List.forall_mem_nil _)
  have allRecords : (Json.array records).IsRead 126 := .array areRead
  exact .array (by simp [metadata, passes, allRecords])

theorem loaded_diskWith {jsons : List Json} {unit : CompilationUnit}
    (areRead : ∀ json ∈ jsons, json.IsRead 125)
    (describes : Document.readUnit {} (documentWith jsons) = .ok unit) :
    fullRequest.loaded (diskWith jsons) = .ok [unit.withFilename recordFile] := by
  have isRecordFile : recordFilesAmong ⟨"build"⟩ [["a.opt-record.json"]] = [recordFile] := by
    rw [recordFilesAmong, List.mergeSort_singleton]
    rfl
  have finds : RecordFile.findFiles (diskWith jsons) fullRequest.buildDirectory =
      .ok [recordFile] := congrArg Except.ok isRecordFile
  have loads : RecordFile.loadUnit (diskWith jsons) {} recordFile =
      .ok (unit.withFilename recordFile) :=
    RecordFile.loadUnit_pretty (isRead_documentWith areRead) rfl describes
  have loadsAll : RecordFile.loadUnits (diskWith jsons) fullRequest.options
      fullRequest.skipInvalid [recordFile] =
      .ok [unit.withFilename recordFile] := by
    rw [RecordFile.loadUnits]
    dsimp only [fullRequest]
    rw [loads]
    rfl
  rw [loaded, finds]
  dsimp only [bind, Except.bind, Except.mapError]
  rw [loadsAll]

theorem sharedAt_diskWith (jsons others : List Json) :
    (diskWith jsons).SharedAt (diskWith others) ⟨"a.c"⟩ := by
  have holds : ∀ jsons, (diskWith jsons).root.find? ["a.c"] =
      some (.file (Utf8.encode "int main(void);\n")) := fun _ => rfl
  refine ⟨["a.c"], _, rfl, ?_⟩
  rw [FileSystem.AgreeAt, holds, holds]

theorem alike_diskWith (jsons others : List Json) : (diskWith jsons).Alike (diskWith others) where
  sound := ⟨_, rfl⟩
  workingDirectory := rfl
  limits := rfl
  outline := by
    have isFile : (diskWith jsons).root.find? ["build", "a.opt-record.json"] =
        some (.file (Utf8.encode ((documentWith jsons).pretty 0))) := rfl
    exact Entry.sameOutline_overwrite isFile (Utf8.encode ((documentWith others).pretty 0))

def cleanDisk : FileSystem := diskWith [countedNoteJson "guessed" "a.c" []]

def noisyDisk : FileSystem :=
  diskWith [countedNoteJson "precise" "pgen.c" [countedNoteJson "precise" "b.c" []],
    countedNoteJson "guessed" "a.c" []]

theorem noisyDisk_sameReport :
    let unit := (unitWith [countedNote "guessed" "a.c" []]).withFilename recordFile
    let noisyUnit := (unitWith [countedNote "precise" "pgen.c" [countedNote "precise" "b.c" []],
      countedNote "guessed" "a.c" []]).withFilename recordFile
    let policy := PrecisionPolicy.ofUnits [fullRequest.filter.apply unit]
    fullRequest.filter.enabled = true ∧
    List.Forall₂ (CompilationUnit.HasNoise fullRequest.filter) [unit] [noisyUnit] ∧
    cleanDisk.Alike noisyDisk ∧
    fullRequest.loaded cleanDisk = .ok [unit] ∧ fullRequest.loaded noisyDisk = .ok [noisyUnit] ∧
    SameSources policy {} [fullRequest.filter.apply unit] ⟨"out"⟩ cleanDisk noisyDisk ∧
    policy.preciseOnly = false ∧
    (fullRequest.run "now" cleanDisk).result = .ok () ∧
    (fullRequest.run "now" noisyDisk).result = .ok () ∧
    ∃ content,
      (fullRequest.run "now" cleanDisk).disk.content? (Path.join ⟨"out"⟩ "index.html") =
          some content ∧
        (fullRequest.run "now" noisyDisk).disk.content? (Path.join ⟨"out"⟩ "index.html") =
          some content := by
  intro unit noisyUnit policy
  have isNoise : fullRequest.filter.isNoise unit
      (countedNote "precise" "pgen.c" [countedNote "precise" "b.c" []]) = true := rfl
  have hasNoise : List.Forall₂ (CompilationUnit.HasNoise fullRequest.filter) [unit] [noisyUnit] :=
    .cons ⟨_, rfl, .noise isNoise (.refl _)⟩ .nil
  have alike : cleanDisk.Alike noisyDisk := alike_diskWith _ _
  have keptRead : (countedNoteJson "guessed" "a.c" []).IsRead 125 :=
    isRead_countedNoteJson "guessed" "a.c" (List.forall_mem_nil _)
  have noiseRead : (countedNoteJson "precise" "pgen.c" [countedNoteJson "precise" "b.c" []]).IsRead
      125 := by
    refine isRead_countedNoteJson "precise" "pgen.c" (List.forall_mem_singleton.mpr ?_)
    exact isRead_countedNoteJson "precise" "b.c" (List.forall_mem_nil _)
  have onlyKept := List.forall_mem_singleton.mpr keptRead
  have here : fullRequest.loaded cleanDisk = .ok [unit] := loaded_diskWith onlyKept rfl
  have there : fullRequest.loaded noisyDisk = .ok [noisyUnit] :=
    loaded_diskWith (List.forall_mem_cons.mpr ⟨noiseRead, onlyKept⟩) rfl
  have sameSources : SameSources policy {} [fullRequest.filter.apply unit] ⟨"out"⟩ cleanDisk
      noisyDisk := by
    refine Output.sameSources_of_shared alike fun record member file located => ?_
    have isFile : ∀ file ∈ (Corpus.allRecords [fullRequest.filter.apply unit]).filterMap
        Sighting.file?, file = "a.c" := by decide +kernel
    obtain rfl := isFile file (List.mem_filterMap.mpr ⟨record, member, located⟩)
    exact sharedAt_diskWith _ _
  have succeeds : (fullRequest.run "now" cleanDisk).result = .ok () := by
    have isOk : (fullRequest.run "now" cleanDisk).result.isOk = true := by decide +kernel
    cases result : (fullRequest.run "now" cleanDisk).result with
    | ok _ => rfl
    | error fault =>
        rw [result] at isOk
        cases isOk
  have report := (run_withNoise fullRequest rfl hasNoise).2.2 "now" cleanDisk noisyDisk alike here
    there (fun directory isSite => Option.some.inj isSite ▸ sameSources)
  obtain ⟨sameResult, samePrinted, sameFiles, written⟩ := report
  refine ⟨rfl, hasNoise, alike, here, there, sameSources, by decide +kernel, succeeds,
    sameResult ▸ succeeds, ?_⟩
  have shared := (written succeeds).1 ⟨"out"⟩ rfl _ (Html.mem_pages.mpr .records)
  rw [Html.recordsPage] at shared
  exact shared

end RemarkAtlas.ReportRequest
