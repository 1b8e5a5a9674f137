import RemarkAtlas.Proofs.Report.Rows

/-!
Pages of one name.  A report counts a page for each overview, each pass and each source file, but a
source file can have a page with the name of another page; what is written last under a name stays.
-/

namespace RemarkAtlas.Output

variable {policy : PrecisionPolicy} {sources : CompilerSources} {units : List CompilationUnit}
  {directory : Path} {before after : FileSystem} {size : SiteSize}

theorem writeSite_pages (sound : before.IsSound)
    (writes : writeSite policy sources units directory before = .ok size after)
    (notLink : ∀ page ∈ Html.pages policy sources units,
      ¬ (after.lookup (directory.join page.name) false).isLink) :
    size.pageCount =
        3 + ((Corpus.allRecords units).filterMap Sighting.passName?).dedup.length +
          ((Corpus.allRecords units).filterMap Sighting.file?).dedup.length ∧
      (((Html.pages policy sources units).map (·.name)).Nodup ↔ Html.SourcesApart units) ∧
      ∀ first page rest, Html.pages policy sources units = first ++ page :: rest →
        (∀ later ∈ rest, page.name ≠ later.name) →
        ∃ disk, writePages directory first (siteStart directory before) = .ok () disk ∧
          after.contentText? (directory.join page.name) = some (pageText page disk) := by
  obtain ⟨writesPages, rfl⟩ := writeSite_inv writes
  refine ⟨Html.length_pages policy sources units, Html.nodup_names_pages policy sources units, ?_⟩
  intro first page rest isPages lastOfName
  have startSound : (siteStart directory before).IsSound := sound.createDirectory directory
  have areNames : ∀ page ∈ Html.pages policy sources units, IsName page.name :=
    fun page member => Html.isName_page (Html.mem_pages.mp member)
  rw [isPages] at writesPages areNames notLink
  obtain ⟨disk, firstWrites, _⟩ := writePages_append_eq_ok.mp writesPages
  refine ⟨disk, firstWrites, contentText?_of_last startSound writesPages firstWrites ?_⟩
  intro later isLater
  exact pagePlace?_ne startSound writesPages areNames notLink (by simp)
    (by simp [isLater]) (lastOfName later isLater)

theorem sampleReport_pages :
    sampleDisk.IsSound ∧
    (∀ page ∈ Html.pages .retainAll {} [sampleUnit],
      ¬ ((diskLeft sampleRun).lookup (Path.join ⟨"out"⟩ page.name) false).isLink) ∧
    ∃ size, sampleRun = .ok size (diskLeft sampleRun) ∧ size.pageCount = 5 ∧
      ((Html.pages .retainAll {} [sampleUnit]).map (·.name)).Nodup := by
  obtain ⟨succeeded, nodup, notLink, _⟩ := sampleRun_checks
  have notLinkPage : ∀ page ∈ Html.pages .retainAll {} [sampleUnit],
      ¬ ((diskLeft sampleRun).lookup (Path.join ⟨"out"⟩ page.name) false).isLink :=
    fun page member => notLink page.name (List.mem_map_of_mem member)
  obtain ⟨size, writes⟩ := eq_ok_diskLeft succeeded
  obtain ⟨count, _, _⟩ := writeSite_pages sampleReported.sound writes notLinkPage
  refine ⟨sampleReported.sound, notLinkPage, size, writes, ?_, nodup⟩
  rw [count, allRecords_single]
  decide

def indexUnit : CompilationUnit where
  filename := none
  format := "1"
  generator := ⟨"GNU C17", "(GCC) ", "13.2.0", "x86_64-pc-linux-gnu"⟩
  passes := []
  rootPasses := []
  positions := .empty
  records :=
    [.remark ⟨.note, none, none⟩ ⟨none, [.plain "x"], none, some ⟨"index", 1, 1⟩, none⟩ []]

def emptyDisk : FileSystem where
  root := .directory []
  workingDirectory := []

def indexRun : EStateM.Result OutputFault FileSystem SiteSize :=
  writeSite .retainAll {} [indexUnit] ⟨"out"⟩ emptyDisk

theorem indexReport_overwritten :
    indexRun = .ok ⟨4, 1⟩ (diskLeft indexRun) ∧
      ¬ ((Html.pages .retainAll {} [indexUnit]).map (·.name)).Nodup ∧
      ∃ page ∈ Html.pages .retainAll {} [indexUnit], page.name = "index.html" ∧
        ∀ disk, (diskLeft indexRun).contentText? (Path.join ⟨"out"⟩ page.name) ≠
          some (pageText page disk) := by
  obtain ⟨size, writes⟩ := @eq_ok_diskLeft _ indexRun (by decide +kernel)
  have size_eq : size = ⟨4, 1⟩ := by
    rw [(writeSite_inv writes).2, Html.length_pages, allRecords_single]
    decide
  refine ⟨size_eq ▸ writes, by decide +kernel, _, Html.mem_pages.mpr .records, rfl, ?_⟩
  intro disk published
  obtain ⟨content, isContent, decoded⟩ := Option.bind_eq_some_iff.mp published
  -- What the page shows does not depend on the disk.
  have text_eq : pageText (Html.recordsPage .retainAll {} [indexUnit]) disk =
      (Html.recordsPage .retainAll {} [indexUnit]).render fun _ => none := rfl
  rw [text_eq] at decoded
  have other : (diskLeft indexRun).content? (Path.join ⟨"out"⟩ "index.html") ≠
      some (Utf8.encode ((Html.recordsPage .retainAll {} [indexUnit]).render fun _ => none)) := by
    decide +kernel
  rw [Utf8.encode_of_decode decoded] at other
  exact other isContent

end RemarkAtlas.Output
