import RemarkAtlas.Proofs.Html.Message
import RemarkAtlas.Proofs.Report.Links

/-!
The links inside messages.  They lead to the places of message items, which need not be places of
records; only those that are on a line shown by the page of some record's file are found there.
-/

namespace RemarkAtlas.Output

open Html (inFile)

variable {policy : PrecisionPolicy} {sources : CompilerSources} {units : List CompilationUnit}
  {directory : Path} {before after : FileSystem}

variable (policy sources units directory before) in
/-- The page with the name for the place's file was written for a file with records, and shows the
place's line, for a record on it or as a line of the file. -/
def Anchored (place : Location) : Prop :=
  ∃ file disk, (∃ record ∈ Corpus.allRecords units, record.file? = some file) ∧
    Html.sourcePage file = Html.sourcePage place.file ∧
    WrittenOn directory (Html.pages policy sources units) (siteStart directory before)
      (Html.pageOfSource policy sources (file, inFile units file)) disk ∧
    ((∃ record ∈ Corpus.allRecords units,
        record.file? = some file ∧ record.line? = some place.line) ∨
      ∃ text, disk.readText? ⟨file⟩ = some text ∧
        place.line ≠ 0 ∧ place.line.toNat ≤ (Text.lines text).length)

theorem isOutside_eq_false {lineCount : Nat} {line : UInt32} :
    Html.isOutside lineCount line = false ↔ line ≠ 0 ∧ line.toNat ≤ lineCount := by
  simp [Html.isOutside]

theorem resolves_iff_anchored
    (reported : Reported policy sources units directory before after) (place : Location) :
    Resolves (Html.pages policy sources units) after directory (Html.locationLink place) ↔
      Anchored policy sources units directory before place := by
  have leads := Html.destination_locationLink place
  constructor
  · rintro ⟨page, member, samePage, text, isText, anchored⟩
    rw [leads] at samePage anchored
    obtain ⟨disk, writtenOn, published⟩ := reported.published member
    obtain rfl : text = pageText page disk := Option.some.inj (isText.symm.trans published)
    -- A page of another kind can have the name as well, but it has no anchors.
    have once := anchored _ rfl
    rcases (Html.mem_pages.mp member).anchors_eq_nil_or with
      noAnchors | ⟨record, isRecord, file, located, rfl⟩
    · rw [pageText, noAnchors] at once
      exact absurd once (by simp)
    · have shows := Html.shows_pageOfSource policy sources (fun file => disk.readText? ⟨file⟩) file
        (inFile units file)
      rw [pageText, shows.anchors_eq] at once
      have isAnchor := List.count_pos_iff.mp (once ▸ Nat.one_pos)
      obtain ⟨line, shown, sameAnchor⟩ := List.mem_map.mp isAnchor
      obtain rfl := Html.lineAnchor_inj.mp sameAnchor
      have fits := reported.fits record isRecord file located disk writtenOn
      refine ⟨file, disk, ⟨record, isRecord, located⟩, samePage, writtenOn, ?_⟩
      simpa only [Html.mem_shownLines_iff fits, isOutside_eq_false, Html.mem_inFile, and_assoc]
        using shown
  · rintro ⟨file, disk, ⟨record, member, located⟩, samePage, writtenOn, shown⟩
    have fits := reported.fits record member file located disk writtenOn
    refine resolves_line reported member located samePage writtenOn ?_
    rw [Html.mem_shownLines_iff fits]
    simpa only [isOutside_eq_false, Html.mem_inFile, and_assoc] using shown

theorem Reported.message_links (reported : Reported policy sources units directory before after)
    (inOneLine : ∀ record ∈ Corpus.allRecords units,
      ∀ place ∈ record.record.messagePlaces, Html.InOneLine place) :
    ∀ page ∈ Html.pages policy sources units, ∃ text,
      after.contentText? (directory.join page.name) = some text ∧
      ∀ row ∈ Html.recordRows text, ∃ record ∈ Corpus.allRecords units,
        row ++ "\n" = Html.recordRow policy sources record ∧
        (∃ content, Html.cellBelow "Message" row = some content ∧
          Html.links content = record.record.messagePlaces.map Html.locationLink) ∧
        ∀ place ∈ record.record.messagePlaces,
          (Resolves (Html.pages policy sources units) after directory (Html.locationLink place) ↔
            Anchored policy sources units directory before place) := by
  intro page member
  obtain ⟨disk, _, published⟩ := reported.published member
  obtain ⟨shown, anchorsFound, areRecords, shows⟩ :=
    (Html.mem_pages.mp member).exists_rows fun file => disk.readText? ⟨file⟩
  refine ⟨_, published, fun row isRow => ?_⟩
  rw [pageText, Html.recordRows, shows.hasRows.parts_eq] at isRow
  obtain ⟨record, isShown, rfl⟩ := List.mem_map.mp isRow
  have isRecord := areRecords record isShown
  exact ⟨record, isRecord, (Html.recordRow_eq policy sources record).symm,
    Html.links_messageCell policy sources record (inOneLine record isRecord),
    fun place _ => resolves_iff_anchored reported place⟩

theorem message_published (reported : Reported policy sources units directory before after)
    {record : Sighting} (member : record ∈ Corpus.allRecords units)
    (inOneLine : ∀ place ∈ record.record.messagePlaces, Html.InOneLine place) :
    ∃ text, after.contentText? (directory.join "index.html") = some text ∧
      ∃ row ∈ Html.recordRows text, ∃ content, Html.cellBelow "Message" row = some content ∧
        Html.links content = record.record.messagePlaces.map Html.locationLink := by
  obtain ⟨disk, _, published⟩ := reported.published (Html.mem_pages.mpr .records)
  have shows := Html.shows_recordsPage policy sources units fun file => disk.readText? ⟨file⟩
  refine ⟨_, published, Html.rowText policy sources record, ?_,
    Html.links_messageCell policy sources record inOneLine⟩
  rw [pageText, Html.recordRows, shows.hasRows.parts_eq]
  exact List.mem_map_of_mem ((Ranking.rank_perm _ _).mem_iff.mpr member)

def inlinedUnit : CompilationUnit where
  filename := none
  format := "1"
  generator := ⟨"GNU C17", "(GCC) ", "13.2.0", "x86_64-pc-linux-gnu"⟩
  passes := []
  rootPasses := []
  positions := .empty
  records :=
    [.remark ⟨.note, none, none⟩
      ⟨none, [.plain "inlining ", .symbol "callee/2" (some ⟨"b.c", 7, 5⟩), .plain " into ",
        .symbol "caller/1" (some ⟨"a.c", 1, 1⟩)], none, some ⟨"a.c", 1, 1⟩, none⟩ []]

def inlinedDisk : FileSystem where
  root := .directory [("b.c", .file (Utf8.encode "1\n2\n3\n4\n5\n6\nint callee(void);\n"))]
  workingDirectory := []

def inlinedRun : EStateM.Result OutputFault FileSystem SiteSize :=
  writeSite .retainAll {} [inlinedUnit] ⟨"out"⟩ inlinedDisk

theorem inlinedReported :
    Reported .retainAll {} [inlinedUnit] ⟨"out"⟩ inlinedDisk (diskLeft inlinedRun) :=
  reported_of_run ⟨_, rfl⟩ (by decide +kernel) (by decide +kernel) (by decide +kernel)
    (by decide +kernel)

theorem inlinedPlaces : ∀ record ∈ Corpus.allRecords [inlinedUnit],
    record.record.messagePlaces = [⟨"b.c", 7, 5⟩, ⟨"a.c", 1, 1⟩] := by
  rw [allRecords_single]
  decide

theorem inlinedPlaces_inOneLine : ∀ record ∈ Corpus.allRecords [inlinedUnit],
    ∀ place ∈ record.record.messagePlaces, Html.InOneLine place := by
  intro record member
  rw [inlinedPlaces record member]
  decide

theorem inlinedReport_messages :
    (∀ record ∈ Corpus.allRecords [inlinedUnit],
      ∀ place ∈ record.record.messagePlaces, Html.InOneLine place) ∧
    ∃ text, (diskLeft inlinedRun).contentText? (Path.join ⟨"out"⟩ "index.html") = some text ∧
      ∀ row ∈ Html.recordRows text, ∃ content, Html.cellBelow "Message" row = some content ∧
        Html.links content = ["b.c.html#line-7", "a.c.html#line-1"] := by
  obtain ⟨text, isText, rows⟩ := inlinedReported.message_links inlinedPlaces_inOneLine _
    (Html.mem_pages.mpr .records)
  refine ⟨inlinedPlaces_inOneLine, text, isText, fun row isRow => ?_⟩
  obtain ⟨record, isRecord, _, ⟨content, isContent, links⟩, _⟩ := rows row isRow
  refine ⟨content, isContent, ?_⟩
  rw [links, inlinedPlaces record isRecord]
  decide

theorem inlinedReport_dangling :
    (∃ size, inlinedRun = .ok size (diskLeft inlinedRun)) ∧
    ∃ text, (diskLeft inlinedRun).contentText? (Path.join ⟨"out"⟩ "index.html") = some text ∧
      ∃ row ∈ Html.recordRows text, ∃ content, Html.cellBelow "Message" row = some content ∧
        ∃ address ∈ Html.links content,
          ¬ Resolves (Html.pages .retainAll {} [inlinedUnit]) (diskLeft inlinedRun) ⟨"out"⟩
            address := by
  have hasRecord : ∃ record, record ∈ Corpus.allRecords [inlinedUnit] := by
    refine List.exists_mem_of_ne_nil _ ?_
    rw [allRecords_single]
    decide
  obtain ⟨record, isRecord⟩ := hasRecord
  obtain ⟨text, isText, row, isRow, content, isContent, links⟩ :=
    message_published inlinedReported isRecord (inlinedPlaces_inOneLine record isRecord)
  rw [inlinedPlaces record isRecord] at links
  refine ⟨inlinedReported.writes, text, isText, row, isRow, content, isContent,
    Html.locationLink ⟨"b.c", 7, 5⟩, by simp [links], ?_⟩
  rw [resolves_iff_anchored inlinedReported]
  -- The record is in another file, whose page has another name.
  rintro ⟨file, _, ⟨record, isRecord, located⟩, samePage, _⟩
  have fileOf : ∀ record ∈ Corpus.allRecords [inlinedUnit], record.file? = some "a.c" := by
    rw [allRecords_single]
    decide
  obtain rfl : "a.c" = file := Option.some.inj ((fileOf record isRecord).symm.trans located)
  exact absurd samePage (by decide)

end RemarkAtlas.Output
