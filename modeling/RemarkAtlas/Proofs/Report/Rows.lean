import RemarkAtlas.Proofs.Html.PageName
import RemarkAtlas.Proofs.Record.Flatten
import RemarkAtlas.Proofs.Report.Pages

/-!
The rows of a report.  The page of all records has one row for each record, the page of a pass one
for each record of the pass, and the page of a source file one for each record located in the file.
-/

namespace RemarkAtlas.Output

open Html (inFile)

variable {policy : PrecisionPolicy} {sources : CompilerSources} {units : List CompilationUnit}
  {directory : Path} {before after : FileSystem}

variable (policy sources units directory before after) in
/-- A report was written, no page of it to the place of another one, and every source file that
could be read for its page had few enough lines to number them.  Pages that are no links have places
of their own if no two of them have the same name, as `reported_of_nodup` shows. -/
structure Reported : Prop where
  sound : before.IsSound
  writes : ∃ size, writeSite policy sources units directory before = .ok size after
  apart : Apart after directory (Html.pages policy sources units)
  fits : ∀ record ∈ Corpus.allRecords units, ∀ file, record.file? = some file → ∀ disk,
    WrittenOn directory (Html.pages policy sources units) (siteStart directory before)
      (Html.pageOfSource policy sources (file, inFile units file)) disk →
    Html.Fits (disk.readText? ⟨file⟩)

theorem reported_of_nodup {size : SiteSize} (sound : before.IsSound)
    (writes : writeSite policy sources units directory before = .ok size after)
    (nodup : ((Html.pages policy sources units).map (·.name)).Nodup)
    (notLink : ∀ page ∈ Html.pages policy sources units,
      ¬ (after.lookup (directory.join page.name) false).isLink)
    (fits : ∀ record ∈ Corpus.allRecords units, ∀ file, record.file? = some file → ∀ disk,
      WrittenOn directory (Html.pages policy sources units) (siteStart directory before)
        (Html.pageOfSource policy sources (file, inFile units file)) disk →
      Html.Fits (disk.readText? ⟨file⟩)) :
    Reported policy sources units directory before after where
  sound := sound
  writes := ⟨size, writes⟩
  apart := by
    have startSound : (siteStart directory before).IsSound := sound.createDirectory directory
    have areNames : ∀ page ∈ Html.pages policy sources units, IsName page.name :=
      fun page member => Html.isName_page (Html.mem_pages.mp member)
    exact apart_of_nodup startSound (writeSite_eq_ok writes) areNames notLink nodup
  fits := fits

theorem Reported.contentText? (reported : Reported policy sources units directory before after)
    {page : Html.Page} {disk : FileSystem}
    (writtenOn : WrittenOn directory (Html.pages policy sources units) (siteStart directory before)
      page disk) :
    after.contentText? (directory.join page.name) = some (pageText page disk) := by
  obtain ⟨size, writes⟩ := reported.writes
  have sound : (siteStart directory before).IsSound := reported.sound.createDirectory directory
  exact contentText?_of_writtenOn sound (writeSite_eq_ok writes) reported.apart writtenOn

theorem Reported.published (reported : Reported policy sources units directory before after)
    {page : Html.Page} (member : page ∈ Html.pages policy sources units) :
    ∃ disk, WrittenOn directory (Html.pages policy sources units) (siteStart directory before)
        page disk ∧
      after.contentText? (directory.join page.name) = some (pageText page disk) := by
  obtain ⟨size, writes⟩ := reported.writes
  obtain ⟨disk, writtenOn⟩ := exists_writtenOn (writeSite_eq_ok writes) member
  exact ⟨disk, writtenOn, reported.contentText? writtenOn⟩

def ListsRecords (policy : PrecisionPolicy) (sources : CompilerSources) (disk : FileSystem)
    (directory : Path) (name : String) (records : List Sighting) : Prop :=
  ∃ text, disk.contentText? (directory.join name) = some text ∧
    (Html.recordRows text).map (· ++ "\n") = records.map (Html.recordRow policy sources)

theorem listsRecords_of_shows {name text : String} {shown : List Sighting}
    {anchorsFound : List String}
    (published : after.contentText? (directory.join name) = some text)
    (shows : Html.Shows text (shown.map (Html.rowText policy sources)) anchorsFound) :
    ListsRecords policy sources after directory name shown := by
  refine ⟨text, published, ?_⟩
  have rows : Html.recordRows text = shown.map (Html.rowText policy sources) := shows.hasRows.parts_eq
  rw [rows, List.map_map]
  exact List.map_congr_left fun record _ => (Html.recordRow_eq policy sources record).symm

theorem Reported.lists_all (reported : Reported policy sources units directory before after) :
    ListsRecords policy sources after directory "index.html"
      (Ranking.rank policy (Corpus.allRecords units)) := by
  obtain ⟨disk, _, published⟩ := reported.published (Html.mem_pages.mpr .records)
  exact listsRecords_of_shows published (Html.shows_recordsPage policy sources units _)

theorem Reported.lists_pass (reported : Reported policy sources units directory before after)
    {record : Sighting} {name : String} (member : record ∈ Corpus.allRecords units)
    (named : record.passName? = some name) :
    ListsRecords policy sources after directory (Html.passPage name)
      (Ranking.forPass policy units name) := by
  obtain ⟨disk, _, published⟩ :=
    reported.published (Html.mem_pages.mpr (.pass member named))
  exact listsRecords_of_shows published (Html.shows_pageOfPass policy sources units _ name)

theorem Reported.lists_file (reported : Reported policy sources units directory before after)
    {record : Sighting} {file : String} (member : record ∈ Corpus.allRecords units)
    (located : record.file? = some file) :
    ∃ source, Html.Fits source ∧ ListsRecords policy sources after directory (Html.sourcePage file)
      (Html.shownRecords policy (inFile units file) source) := by
  obtain ⟨disk, writtenOn, published⟩ :=
    reported.published (Html.mem_pages.mpr (.source member located))
  refine ⟨disk.readText? ⟨file⟩, reported.fits record member file located disk writtenOn, ?_⟩
  exact listsRecords_of_shows published (Html.shows_pageOfSource policy sources _ file _)

theorem onLine_inFile (file : String) (line : UInt32) :
    Html.onLine line (inFile units file) =
      (Corpus.allRecords units).filter fun record =>
        record.file? == some file && record.line? == some line := by
  rw [Html.onLine, inFile, Groups.having, Groups.having, List.filter_filter]
  exact List.filter_congr fun record _ => Bool.and_comm _ _

theorem line?_isSome_of_inFile {file : String} {record : Sighting}
    (member : record ∈ inFile units file) : record.line?.isSome := by
  have located : record.file? = some file := (Html.mem_inFile.mp member).2
  rw [Sighting.file?, Option.map_eq_some_iff] at located
  obtain ⟨location, isLocation, _⟩ := located
  rw [Sighting.line?, isLocation]
  rfl

theorem Reported.rows_conserved (reported : Reported policy sources units directory before after) :
    (∃ shown, shown.Perm (Corpus.allRecords units) ∧
      ListsRecords policy sources after directory "index.html" shown) ∧
    (∀ name, (∃ record ∈ Corpus.allRecords units, record.passName? = some name) →
      ∃ shown, shown.Perm ((Corpus.allRecords units).filter (·.passName? == some name)) ∧
        ListsRecords policy sources after directory (Html.passPage name) shown) ∧
    ∀ file, (∃ record ∈ Corpus.allRecords units, record.file? = some file) →
      ∃ shown, shown.Perm ((Corpus.allRecords units).filter (·.file? == some file)) ∧
        ListsRecords policy sources after directory (Html.sourcePage file) shown ∧
        ∀ line, shown.filter (·.line? == some line) =
          Ranking.rank policy ((Corpus.allRecords units).filter fun record =>
            record.file? == some file && record.line? == some line) := by
  refine ⟨⟨_, Ranking.rank_perm policy _, reported.lists_all⟩, ?_, ?_⟩
  · rintro name ⟨record, member, named⟩
    exact ⟨_, Ranking.rank_perm policy _, reported.lists_pass member named⟩
  · rintro file ⟨record, member, located⟩
    obtain ⟨source, fits, lists⟩ := reported.lists_file member located
    refine ⟨_, Html.shownRecords_perm fits fun record => line?_isSome_of_inFile, lists, ?_⟩
    intro line
    rw [← onLine_inFile]
    exact Html.onLine_shownRecords fits line

def sampleUnit : CompilationUnit where
  filename := none
  format := "1"
  generator := ⟨"GNU C17", "", "9.1.0", "x86_64-linux-gnu"⟩
  passes := [⟨"0x1", "vect", 1, .empty, "gimple", []⟩]
  rootPasses := [0]
  positions := .empty
  records :=
    [.remark ⟨.scope, some 0, some "main"⟩
      ⟨none, [.plain "loop"], some ⟨"precise", 8⟩, some ⟨"a.c", 1, 3⟩, none⟩
      [.remark ⟨.failure, some 0, none⟩
        ⟨none, [.plain "missed"], none, some ⟨"a.c", 7, 5⟩, none⟩ []]]

def sampleDisk : FileSystem where
  root := .directory [("a.c", .file (Utf8.encode "int main(void);\n"))]
  workingDirectory := []

def diskLeft {Value : Type} : EStateM.Result OutputFault FileSystem Value → FileSystem
  | .ok _ disk => disk
  | .error _ disk => disk

def sampleRun : EStateM.Result OutputFault FileSystem SiteSize :=
  writeSite .retainAll {} [sampleUnit] ⟨"out"⟩ sampleDisk

def succeeds {Value : Type} : EStateM.Result OutputFault FileSystem Value → Bool
  | .ok _ _ => true
  | .error _ _ => false

theorem eq_ok_diskLeft {Value : Type} {run : EStateM.Result OutputFault FileSystem Value}
    (succeeded : succeeds run = true) : ∃ value, run = .ok value (diskLeft run) := by
  cases run with
  | ok value disk => exact ⟨value, rfl⟩
  | error fault disk => cases succeeded

theorem reported_of_run (sound : before.IsSound)
    (succeeded : succeeds (writeSite policy sources units directory before) = true)
    (nodup : ((Html.pages policy sources units).map (·.name)).Nodup)
    (notLink : ∀ name ∈ (Html.pages policy sources units).map (·.name),
      ¬ ((diskLeft (writeSite policy sources units directory before)).lookup (directory.join name)
        false).isLink)
    (fits : ∀ count < (Html.pages policy sources units).length,
      ∀ file ∈ (Corpus.allRecords units).filterMap Sighting.file?,
        Html.Fits ((diskLeft (writePages directory ((Html.pages policy sources units).take count)
          (siteStart directory before))).readText? ⟨file⟩)) :
    Reported policy sources units directory before
      (diskLeft (writeSite policy sources units directory before)) := by
  obtain ⟨size, writes⟩ := eq_ok_diskLeft succeeded
  refine reported_of_nodup sound writes nodup
    (fun page member => notLink page.name (List.mem_map_of_mem member)) ?_
  rintro record member file located disk ⟨written, rest, isPages, pagesWritten⟩
  -- What was written before the page is a beginning of the list of pages.
  have isTake : (Html.pages policy sources units).take written.length = written := by
    rw [isPages, List.take_left]
  have few : written.length < (Html.pages policy sources units).length := by
    rw [isPages]
    simp
  have isFile := List.mem_filterMap.mpr ⟨record, member, located⟩
  have fitsThen := fits written.length few file isFile
  rwa [isTake, pagesWritten] at fitsThen

theorem sampleRun_checks :
    succeeds sampleRun = true ∧
    ((Html.pages .retainAll {} [sampleUnit]).map (·.name)).Nodup ∧
    (∀ name ∈ (Html.pages .retainAll {} [sampleUnit]).map (·.name),
      ¬ ((diskLeft sampleRun).lookup (Path.join ⟨"out"⟩ name) false).isLink) ∧
    ∀ count < (Html.pages .retainAll {} [sampleUnit]).length,
      ∀ file ∈ (Corpus.allRecords [sampleUnit]).filterMap Sighting.file?,
        Html.Fits ((diskLeft (writePages ⟨"out"⟩
          ((Html.pages .retainAll {} [sampleUnit]).take count)
          (siteStart ⟨"out"⟩ sampleDisk))).readText? ⟨file⟩) := by
  decide +kernel

theorem sampleReported :
    Reported .retainAll {} [sampleUnit] ⟨"out"⟩ sampleDisk (diskLeft sampleRun) := by
  obtain ⟨succeeded, nodup, notLink, fits⟩ := sampleRun_checks
  exact reported_of_run ⟨_, rfl⟩ succeeded nodup notLink fits

theorem allRecords_single (unit : CompilationUnit) :
    Corpus.allRecords [unit] = Corpus.sightings 0 unit (Record.flattenAll 0 unit.records) := by
  rw [Corpus.allRecords, ← CompilationUnit.allRecords_eq]
  exact List.append_nil _

theorem sampleReport_rows :
    Reported .retainAll {} [sampleUnit] ⟨"out"⟩ sampleDisk (diskLeft sampleRun) ∧
      ∃ shown, shown.Perm ((Corpus.allRecords [sampleUnit]).filter (·.file? == some "a.c")) ∧
        ListsRecords .retainAll {} (diskLeft sampleRun) ⟨"out"⟩ (Html.sourcePage "a.c") shown := by
  have hasRecord : ∃ record ∈ Corpus.allRecords [sampleUnit], record.file? = some "a.c" := by
    rw [allRecords_single]
    decide
  obtain ⟨shown, isAll, lists, _⟩ := sampleReported.rows_conserved.2.2 "a.c" hasRecord
  exact ⟨sampleReported, shown, isAll, lists⟩

end RemarkAtlas.Output
