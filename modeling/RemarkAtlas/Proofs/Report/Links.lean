import RemarkAtlas.Proofs.Corpus.Functions
import RemarkAtlas.Proofs.Html.Address
import RemarkAtlas.Proofs.Report.Rows

/-!
The links of a report.  Passes and places of records, and the files and peaks of functions, have a
page each, and a place has its anchor there exactly once.
-/

namespace RemarkAtlas.Output

open Html (inFile)

/-- The address leads to a page of the report and, if it names an anchor, to a single one. -/
def Resolves (pages : List Html.Page) (disk : FileSystem) (directory : Path) (address : String) :
    Prop :=
  ∃ page ∈ pages, page.name = (Html.destination address).page ∧
    ∃ text, disk.contentText? (directory.join page.name) = some text ∧
      ∀ anchor, (Html.destination address).anchor = some anchor →
        (Html.anchors text).count anchor = 1

variable {policy : PrecisionPolicy} {sources : CompilerSources} {units : List CompilationUnit}
  {directory : Path} {before after : FileSystem}

theorem resolves_page {page : Html.Page} {address : String}
    (reported : Reported policy sources units directory before after)
    (member : page ∈ Html.pages policy sources units)
    (leads : Html.destination address = ⟨page.name, none⟩) :
    Resolves (Html.pages policy sources units) after directory address := by
  obtain ⟨disk, _, published⟩ := reported.published member
  refine ⟨page, member, by rw [leads], _, published, ?_⟩
  simp [leads]

theorem resolves_overview {address : String}
    (reported : Reported policy sources units directory before after)
    (member : address ∈ Html.overviews) :
    Resolves (Html.pages policy sources units) after directory address := by
  have addresses : ∀ name ∈ Html.overviews, Html.destination name = ⟨name, none⟩ := by decide
  have leads := addresses address member
  simp only [Html.overviews, List.mem_cons, List.not_mem_nil, or_false] at member
  rcases member with rfl | rfl | rfl
  · exact resolves_page reported (Html.mem_pages.mpr .records) leads
  · exact resolves_page reported (Html.mem_pages.mpr .functions) leads
  · exact resolves_page reported (Html.mem_pages.mpr .passes) leads

theorem resolves_pass {record : Sighting} {name : String}
    (reported : Reported policy sources units directory before after)
    (member : record ∈ Corpus.allRecords units) (named : record.passName? = some name) :
    Resolves (Html.pages policy sources units) after directory
      (Html.escape (Html.passPage name)) :=
  resolves_page reported (Html.mem_pages.mpr (.pass member named))
    (Html.destination_passPage name)

theorem resolves_file {record : Sighting} {file : String}
    (reported : Reported policy sources units directory before after)
    (member : record ∈ Corpus.allRecords units) (located : record.file? = some file) :
    Resolves (Html.pages policy sources units) after directory
      (Html.escape (Html.sourcePage file)) :=
  resolves_page reported (Html.mem_pages.mpr (.source member located))
    (Html.destination_sourcePage file)

theorem count_lineAnchor {records : List Sighting} {source : Option String} {line : UInt32}
    (fits : Html.Fits source) (shown : line ∈ Html.shownLines records source) :
    ((Html.shownLines records source).map Html.lineAnchor).count (Html.lineAnchor line) = 1 := by
  have injective : Function.Injective Html.lineAnchor := fun _ _ => Html.lineAnchor_inj.mp
  have nodup : (Html.shownLines records source).Nodup := Html.nodup_shownLines fits
  exact List.count_eq_one_of_mem (nodup.map injective) (List.mem_map_of_mem shown)

/-- A place is found on the page of any file whose page has the name of its own, once its line is
shown there. -/
theorem resolves_line {record : Sighting} {file : String} {place : Location} {disk : FileSystem}
    (reported : Reported policy sources units directory before after)
    (member : record ∈ Corpus.allRecords units) (located : record.file? = some file)
    (samePage : Html.sourcePage file = Html.sourcePage place.file)
    (writtenOn : WrittenOn directory (Html.pages policy sources units) (siteStart directory before)
      (Html.pageOfSource policy sources (file, inFile units file)) disk)
    (shown : place.line ∈ Html.shownLines (inFile units file) (disk.readText? ⟨file⟩)) :
    Resolves (Html.pages policy sources units) after directory (Html.locationLink place) := by
  have fits := reported.fits record member file located disk writtenOn
  have shows := Html.shows_pageOfSource policy sources (fun file => disk.readText? ⟨file⟩) file
    (inFile units file)
  have leads := Html.destination_locationLink place
  refine ⟨_, Html.mem_pages.mpr (.source member located), by rw [leads]; exact samePage, _,
    reported.contentText? writtenOn, ?_⟩
  intro anchor isAnchor
  obtain rfl : Html.lineAnchor place.line = anchor := by simpa [leads] using isAnchor
  rw [pageText, shows.anchors_eq]
  exact count_lineAnchor fits shown

theorem resolves_location {record : Sighting} {location : Location}
    (reported : Reported policy sources units directory before after)
    (member : record ∈ Corpus.allRecords units) (located : record.location? = some location) :
    Resolves (Html.pages policy sources units) after directory (Html.locationLink location) := by
  have inThisFile : record.file? = some location.file := by rw [Sighting.file?, located]; rfl
  have onThisLine : record.line? = some location.line := by rw [Sighting.line?, located]; rfl
  obtain ⟨disk, writtenOn, _⟩ :=
    reported.published (Html.mem_pages.mpr (.source member inThisFile))
  have fits := reported.fits record member location.file inThisFile disk writtenOn
  have shown := Html.mem_shownLines fits (Html.mem_inFile.mpr ⟨member, inThisFile⟩) onThisLine
  exact resolves_line reported member inThisFile rfl writtenOn shown

theorem resolves_row {record : Sighting}
    (reported : Reported policy sources units directory before after)
    (member : record ∈ Corpus.allRecords units) :
    (∀ cell, Html.cellBelow "Pass" (Html.rowText policy sources record) = some cell →
      ∀ address ∈ Html.links cell,
        Resolves (Html.pages policy sources units) after directory address) ∧
    ∀ cell, Html.cellBelow "Location" (Html.rowText policy sources record) = some cell →
      ∀ address ∈ Html.links cell, (Html.destination address).anchor.isSome ∧
        Resolves (Html.pages policy sources units) after directory address := by
  constructor
  · intro cell isCell address isLink
    rw [Html.passCell_rowText, Option.some.injEq] at isCell
    subst cell
    rw [(Html.linksTo_shown Html.linksTo_passLink record.passName?).cell.links_eq] at isLink
    obtain ⟨name, named, isLink⟩ := List.mem_flatMap.mp isLink
    obtain rfl := List.mem_singleton.mp isLink
    exact resolves_pass reported member (Option.mem_toList.mp named)
  · intro cell isCell address isLink
    rw [Html.locationCell_rowText, Option.some.injEq] at isCell
    subst cell
    rw [(Html.linksTo_shown Html.linksTo_placeLink record.location?).cell.links_eq] at isLink
    obtain ⟨location, located, isLink⟩ := List.mem_flatMap.mp isLink
    obtain rfl := List.mem_singleton.mp isLink
    refine ⟨?_, resolves_location reported member (Option.mem_toList.mp located)⟩
    rw [Html.destination_locationLink]
    rfl

theorem resolves_functions {address : String}
    (reported : Reported policy sources units directory before after)
    {summary : FunctionSummary} (member : summary ∈ FunctionSummary.ofUnits policy units)
    (isLink : address ∈ summary.activity.sourceFile.toList.map
        (fun file => Html.escape (Html.sourcePage file)) ++
      summary.activity.peak.toList.map Html.locationLink) :
    Resolves (Html.pages policy sources units) after directory address := by
  have describes := FunctionSummary.describes_byName
    ((FunctionSummary.ofUnits_perm policy units).mem_iff.mp member)
  rcases List.mem_append.mp isLink with isFileLink | isPeakLink
  · obtain ⟨file, isFile, rfl⟩ := List.mem_map.mp isFileLink
    obtain ⟨pair, isPair, located⟩ := describes.sums.exists_sourceFile (Option.mem_toList.mp isFile)
    obtain ⟨record, isRecord, rfl⟩ := List.mem_map.mp isPair
    exact resolves_file reported (List.mem_filter.mp isRecord).1 located
  · obtain ⟨location, isPeak, rfl⟩ := List.mem_map.mp isPeakLink
    obtain ⟨pair, isPair, located⟩ := describes.sums.exists_peak (Option.mem_toList.mp isPeak)
    obtain ⟨record, isRecord, rfl⟩ := List.mem_map.mp isPair
    exact resolves_location reported (List.mem_filter.mp isRecord).1 located

theorem resolves_passesPage {address : String} {read : String → Option String}
    (reported : Reported policy sources units directory before after)
    (isLink : address ∈ Html.links ((Html.passesPage units).render read)) :
    Resolves (Html.pages policy sources units) after directory address := by
  rw [(Html.linksTo_passesPage units read).links_eq] at isLink
  rcases List.mem_append.mp isLink with overview | isPassLink
  · exact resolves_overview reported overview
  · obtain ⟨summary, member, isLink⟩ := List.mem_flatMap.mp isPassLink
    obtain ⟨name, named, rfl⟩ := List.mem_map.mp isLink
    have isName := List.mem_filterMap.mpr ⟨summary, member, Option.mem_toList.mp named⟩
    obtain ⟨record, isRecord, recordNamed⟩ := Html.mem_passNames.mp isName
    exact resolves_pass reported isRecord recordNamed

theorem resolves_functionsPage {address : String} {read : String → Option String}
    (reported : Reported policy sources units directory before after)
    (isLink : address ∈ Html.links ((Html.functionsPage policy units).render read)) :
    Resolves (Html.pages policy sources units) after directory address := by
  rw [(Html.linksTo_functionsPage policy units read).links_eq] at isLink
  rcases List.mem_append.mp isLink with overview | isSummaryLink
  · exact resolves_overview reported overview
  · obtain ⟨summary, member, isLink⟩ := List.mem_flatMap.mp isSummaryLink
    exact resolves_functions reported member isLink

theorem Reported.links_resolve (reported : Reported policy sources units directory before after) :
    (∀ page ∈ Html.pages policy sources units, ∃ text,
      after.contentText? (directory.join page.name) = some text ∧
      ∀ row ∈ Html.recordRows text,
        (∀ cell, Html.cellBelow "Pass" row = some cell → ∀ address ∈ Html.links cell,
          Resolves (Html.pages policy sources units) after directory address) ∧
        ∀ cell, Html.cellBelow "Location" row = some cell → ∀ address ∈ Html.links cell,
          (Html.destination address).anchor.isSome ∧
            Resolves (Html.pages policy sources units) after directory address) ∧
    ∀ name ∈ ["passes.html", "functions.html"], ∃ text,
      after.contentText? (directory.join name) = some text ∧
      ∀ address ∈ Html.links text,
        Resolves (Html.pages policy sources units) after directory address := by
  constructor
  · intro page member
    obtain ⟨disk, _, published⟩ := reported.published member
    obtain ⟨shown, anchorsFound, areRecords, shows⟩ :=
      (Html.mem_pages.mp member).exists_rows fun file => disk.readText? ⟨file⟩
    refine ⟨_, published, fun row isRow => ?_⟩
    rw [pageText, Html.recordRows, shows.hasRows.parts_eq] at isRow
    obtain ⟨record, isShown, rfl⟩ := List.mem_map.mp isRow
    exact resolves_row reported (areRecords record isShown)
  · intro name member
    simp only [List.mem_cons, List.not_mem_nil, or_false] at member
    rcases member with rfl | rfl
    · obtain ⟨disk, _, published⟩ :=
        reported.published (Html.mem_pages.mpr .passes)
      exact ⟨_, published, fun address => resolves_passesPage reported⟩
    · obtain ⟨disk, _, published⟩ :=
        reported.published (Html.mem_pages.mpr .functions)
      exact ⟨_, published, fun address => resolves_functionsPage reported⟩

theorem sampleReport_links :
    Reported .retainAll {} [sampleUnit] ⟨"out"⟩ sampleDisk (diskLeft sampleRun) ∧
      ∃ text, (diskLeft sampleRun).contentText? (Path.join ⟨"out"⟩ "functions.html") = some text ∧
        ∀ address ∈ Html.links text,
          Resolves (Html.pages .retainAll {} [sampleUnit]) (diskLeft sampleRun) ⟨"out"⟩ address :=
  ⟨sampleReported, sampleReported.links_resolve.2 "functions.html" (by decide)⟩

end RemarkAtlas.Output
