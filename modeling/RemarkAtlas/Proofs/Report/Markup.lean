import RemarkAtlas.Proofs.Html.Display
import RemarkAtlas.Proofs.Report.Rows

/-!
The markup of a written report.  No text from outside adds a tag to a page or takes one away: not on
the way into the page, and not for a page that was overwritten by another one.
-/

namespace RemarkAtlas.Output

variable {policy : PrecisionPolicy} {sources : CompilerSources} {units : List CompilationUnit}
  {directory : Path} {disk after : FileSystem} {pages : List Html.Page} {page : Html.Page}

/-- Writing pages leaves behind what was there, or what one of the pages said. -/
theorem writePages_content (sound : disk.IsSound)
    (writes : writePages directory pages disk = .ok () after) {path : Path} {spot : Spot}
    (leads : disk.spot? path = some spot) :
    ∃ content, after.spot? path = some ⟨spot.place, content⟩ ∧
      (content = spot.content ∨
        ∃ page ∈ pages, ∃ disk, content = some (Utf8.encode (pageText page disk))) := by
  induction pages generalizing disk spot with
  | nil =>
      obtain rfl : disk = after := by cases writes; rfl
      exact ⟨spot.content, leads, Or.inl rfl⟩
  | cons page rest ih =>
      obtain ⟨middle, pageWrites, restWrites⟩ := writePages_cons_eq_ok.mp writes
      have written := write?_of_writePage pageWrites
      obtain ⟨target, targetLeads, _⟩ := FileSystem.write?_eq_some written
      have middleLeads := FileSystem.spot?_write sound written targetLeads leads
      obtain ⟨content, afterLeads, origin⟩ := ih (sound.write written) restWrites middleLeads
      refine ⟨content, afterLeads, ?_⟩
      rcases origin with kept | ⟨other, member, later, isText⟩
      · rw [kept, Entry.overwrite]
        split
        · exact Or.inr ⟨page, List.mem_cons_self, disk, rfl⟩
        · exact Or.inl rfl
      · exact Or.inr ⟨other, List.mem_cons_of_mem page member, later, isText⟩

/-- At the path of a page stands in the end a page of the report, if not always this one. -/
theorem exists_contentText (sound : disk.IsSound)
    (writes : writePages directory pages disk = .ok () after) (member : page ∈ pages) :
    ∃ found ∈ pages, ∃ source,
      after.contentText? (directory.join page.name) = some (pageText found source) := by
  have contentText_eq : ∀ {place : Place} {text : String},
      after.spot? (directory.join page.name) = some ⟨place, some (Utf8.encode text)⟩ →
        after.contentText? (directory.join page.name) = some text := by
    intro place text leads
    rw [FileSystem.contentText?, FileSystem.content?_eq, leads, Option.bind_some, Option.bind_some,
      Utf8.decode_encode]
  obtain ⟨start, first, rest, rfl, firstWrites⟩ := exists_writtenOn writes member
  obtain ⟨found, foundWrites, pageAndRest⟩ := writePages_append_eq_ok.mp writes
  obtain ⟨middle, pageWrites, restWrites⟩ := writePages_cons_eq_ok.mp pageAndRest
  have foundSound := (writePages_keeps sound foundWrites).sound
  obtain ⟨place, leads⟩ := writePage_spot foundSound pageWrites
  have middleSound := (writePage_keeps foundSound pageWrites).sound
  obtain ⟨content, afterLeads, origin⟩ := writePages_content middleSound restWrites leads
  rcases origin with rfl | ⟨other, isOther, source, rfl⟩
  · exact ⟨page, member, found, contentText_eq afterLeads⟩
  · exact ⟨other, by simp [isOther], source, contentText_eq afterLeads⟩

theorem pages_wellNested (policy : PrecisionPolicy) (sources : CompilerSources)
    (units : List CompilationUnit) :
    (∀ page ∈ Html.pages policy sources units, ∀ read, Html.WellNested (page.render read) ∧
      ∃ texts element, Html.PageTexts policy sources units read page texts ∧
        page.render read = "<!DOCTYPE html>\n" ++ element ∧
        Html.Displays element (page.title :: page.title :: texts)) ∧
    ∀ directory before size after, before.IsSound →
      writeSite policy sources units directory before = .ok size after →
      ∀ page ∈ Html.pages policy sources units, ∃ text,
        after.contentText? (directory.join page.name) = some text ∧ Html.WellNested text := by
  have shown : ∀ page ∈ Html.pages policy sources units, ∀ read,
      ∃ texts element, Html.PageTexts policy sources units read page texts ∧
        page.render read = "<!DOCTYPE html>\n" ++ element ∧
        Html.Displays element (page.title :: page.title :: texts) := by
    intro page member read
    obtain ⟨texts, pageTexts⟩ := (Html.mem_pages.mp member).exists_pageTexts read
    obtain ⟨element, render_eq, displays⟩ := pageTexts.displays_render
    exact ⟨texts, element, pageTexts, render_eq, displays⟩
  have nested : ∀ page ∈ Html.pages policy sources units, ∀ read,
      Html.WellNested (page.render read) := by
    intro page member read
    obtain ⟨_, element, _, render_eq, displays⟩ := shown page member read
    rw [render_eq]
    exact Html.wellNested_doctype.append displays.wellNested
  refine ⟨fun page member read => ⟨nested page member read, shown page member read⟩, ?_⟩
  intro directory before size after sound writes page member
  obtain ⟨found, isFound, source, published⟩ :=
    exists_contentText (sound.createDirectory directory) (writeSite_eq_ok writes) member
  exact ⟨_, published, nested found isFound _⟩

def hostileUnit : CompilationUnit where
  filename := none
  format := "1"
  generator := ⟨"GNU C17", "", "9.1.0", "x86_64-linux-gnu"⟩
  passes := []
  rootPasses := []
  positions := .empty
  records :=
    [.remark ⟨.other "<script>", none, some "f\"><b>"⟩
      ⟨none, [.expression "</pre>" (some ⟨"a\".c", 1, 1⟩)], none, some ⟨"a\".c", 1, 1⟩,
        some [⟨"</table>", none⟩]⟩
      [.remark ⟨.note, none, none⟩ ⟨none, [.plain "<i>\n</i>"], none, none, none⟩ []]]

def hostileDisk : FileSystem where
  root := .directory [("a\".c", .file (Utf8.encode "</pre><script>\n"))]
  workingDirectory := []

def hostileRun : EStateM.Result OutputFault FileSystem SiteSize :=
  writeSite .retainAll {} [hostileUnit] ⟨"out"⟩ hostileDisk

theorem hostileReport_wellNested :
    hostileDisk.IsSound ∧ (∃ size, hostileRun = .ok size (diskLeft hostileRun)) ∧
    (∀ page ∈ Html.pages .retainAll {} [hostileUnit],
      Html.WellNested (page.render fun _ => some "</pre>")) ∧
    ∀ page ∈ Html.pages .retainAll {} [hostileUnit], ∃ text,
      (diskLeft hostileRun).contentText? (Path.join ⟨"out"⟩ page.name) = some text ∧
        Html.WellNested text := by
  have sound : hostileDisk.IsSound := ⟨_, rfl⟩
  obtain ⟨size, writes⟩ := @eq_ok_diskLeft _ hostileRun (by decide +kernel)
  obtain ⟨rendered, written⟩ := pages_wellNested .retainAll {} [hostileUnit]
  exact ⟨sound, ⟨size, writes⟩, fun page member => (rendered page member _).1,
    written ⟨"out"⟩ hostileDisk size _ sound writes⟩

end RemarkAtlas.Output
