import RemarkAtlas.Proofs.Disk.BufferedFile
import RemarkAtlas.Proofs.Disk.Naming
import RemarkAtlas.Report.Output

/-!
Writing the pages of a report.  If no two pages are written to the same place, each page stays as it
was rendered when its turn came.
-/

namespace RemarkAtlas.Output

variable {directory : Path} {page : Html.Page} {pages rest : List Html.Page}
  {disk middle after : FileSystem}

theorem bind_eq_ok {Value Result : Type} {first : Writing Value} {next : Value → Writing Result}
    {result : Result} :
    (first >>= next) disk = .ok result after ↔
      ∃ value middle, first disk = .ok value middle ∧ next value middle = .ok result after := by
  change EStateM.bind first next disk = _ ↔ _
  unfold EStateM.bind
  cases first disk with
  | ok value middle => simp [and_assoc]
  | error fault middle => simp

theorem bind_of_ok {Value Result : Type} {first : Writing Value} {next : Value → Writing Result}
    {value : Value} (runs : first disk = .ok value middle) :
    (first >>= next) disk = next value middle := by
  change EStateM.bind first next disk = _
  rw [EStateM.bind, runs]

theorem fail_ne_ok {Value : Type} {fault : OutputFault} {value : Value} :
    fail fault disk ≠ .ok value after := by
  intro same
  cases same

theorem createFile_eq (path : Path) (fill : Room → Bytes × Option OutputFault)
    (disk : FileSystem) :
    createFile path fill disk =
      match disk.write? path (fill (disk.room path)).1, (fill (disk.room path)).2 with
      | none, _ => .error .writeFailed disk
      | some after, none => .ok () after
      | some after, some fault => .error fault after := by
  have get_bind {Value : Type} (next : FileSystem → Writing Value) :
      (get >>= next) disk = next disk disk := rfl
  rw [createFile, get_bind]
  cases writes : disk.write? path (fill (disk.room path)).1 with
  | none => simp only [writes]; rfl
  | some after =>
      cases fault : (fill (disk.room path)).2 <;> simp only [writes, fault] <;> rfl

theorem createFile_eq_ok {path : Path} {fill : Room → Bytes × Option OutputFault} :
    createFile path fill disk = .ok () after ↔
      disk.write? path (fill (disk.room path)).1 = some after ∧
        (fill (disk.room path)).2 = none := by
  rw [createFile_eq]
  cases disk.write? path (fill (disk.room path)).1 <;> cases (fill (disk.room path)).2 <;> simp

theorem writeFile_eq_ok {path : Path} {text : String} :
    writeFile path text disk = .ok () after ↔
      (disk.room path).fits (Utf8.encode text) = true ∧
        disk.write? path (Utf8.encode text) = some after := by
  rw [writeFile, createFile_eq_ok]
  cases fits : (disk.room path).fits (Utf8.encode text) with
  | false => simp
  | true => simp [Room.keep_eq_iff.mpr fits]

def pageText (page : Html.Page) (disk : FileSystem) : String :=
  page.render fun file => disk.readText? ⟨file⟩

theorem write?_of_writePage (writes : writePage directory page disk = .ok () after) :
    disk.write? (directory.join page.name) (Utf8.encode (pageText page disk)) = some after :=
  (writeFile_eq_ok.mp writes).2

theorem writePages_cons_eq_ok :
    writePages directory (page :: rest) disk = .ok () after ↔
      ∃ middle, writePage directory page disk = .ok () middle ∧
        writePages directory rest middle = .ok () after := by
  rw [writePages, bind_eq_ok]
  exact ⟨fun ⟨_, middle, written⟩ => ⟨middle, written⟩,
    fun ⟨middle, written⟩ => ⟨(), middle, written⟩⟩

def pagePlace? (disk : FileSystem) (directory : Path) (page : Html.Page) : Option Place :=
  (disk.spot? (directory.join page.name)).map (·.place)

/-- No two pages are written to the same place. -/
def Apart (disk : FileSystem) (directory : Path) (pages : List Html.Page) : Prop :=
  pages.Pairwise fun left right => pagePlace? disk directory left ≠ pagePlace? disk directory right

/-- A path that could be written to before leads to the same place after some pages were written,
and to the same content if none of them was written there. -/
structure Keeps (directory : Path) (pages : List Html.Page) (disk after : FileSystem) : Prop where
  sound : after.IsSound
  spot {path : Path} {spot : Spot} (leads : disk.spot? path = some spot) :
    ∃ content, after.spot? path = some ⟨spot.place, content⟩ ∧
      ((∀ page ∈ pages, pagePlace? after directory page ≠ some spot.place) →
        content = spot.content)

theorem writePage_keeps (sound : disk.IsSound)
    (writes : writePage directory page disk = .ok () after) :
    Keeps directory [page] disk after where
  sound := sound.write (write?_of_writePage writes)
  spot := by
    intro path spot leads
    have written := write?_of_writePage writes
    obtain ⟨target, targetLeads, _⟩ := FileSystem.write?_eq_some written
    have targetAfter := FileSystem.spot?_write sound written targetLeads targetLeads
    refine ⟨_, FileSystem.spot?_write sound written targetLeads leads, ?_⟩
    intro notTarget
    have different : spot.place ≠ target.place := by
      intro same
      refine notTarget page (List.mem_singleton_self page) ?_
      rw [pagePlace?, targetAfter, same]
      rfl
    exact if_neg different

theorem writePage_spot (sound : disk.IsSound)
    (writes : writePage directory page disk = .ok () after) :
    ∃ place, after.spot? (directory.join page.name) =
      some ⟨place, some (Utf8.encode (pageText page disk))⟩ := by
  have written := write?_of_writePage writes
  obtain ⟨target, targetLeads, _⟩ := FileSystem.write?_eq_some written
  refine ⟨target.place, ?_⟩
  rw [FileSystem.spot?_write sound written targetLeads targetLeads, Entry.overwrite, if_pos rfl]

theorem writePages_keeps (sound : disk.IsSound)
    (writes : writePages directory pages disk = .ok () after) :
    Keeps directory pages disk after := by
  induction pages generalizing disk with
  | nil =>
      obtain rfl : disk = after := by cases writes; rfl
      exact ⟨sound, fun {path spot} leads => ⟨spot.content, leads, fun _ => rfl⟩⟩
  | cons page rest ih =>
      obtain ⟨middle, pageWrites, restWrites⟩ := writePages_cons_eq_ok.mp writes
      have first := writePage_keeps sound pageWrites
      have others := ih first.sound restWrites
      refine ⟨others.sound, ?_⟩
      intro path spot leads
      obtain ⟨content, middleLeads, pageKept⟩ := first.spot leads
      obtain ⟨last, afterLeads, restKept⟩ := others.spot middleLeads
      refine ⟨last, afterLeads, ?_⟩
      intro notTarget
      obtain ⟨notPage, notRest⟩ := List.forall_mem_cons.mp notTarget
      obtain ⟨place, pageLeads⟩ := writePage_spot sound pageWrites
      obtain ⟨pageContent, pageAfter, _⟩ := others.spot pageLeads
      -- The page leads to the same place right after it was written and at the end.
      have samePlace : pagePlace? middle directory page = pagePlace? after directory page := by
        rw [pagePlace?, pagePlace?, pageLeads, pageAfter]
        rfl
      have notPageThen : ∀ only ∈ [page], pagePlace? middle directory only ≠ some spot.place := by
        simpa [samePlace] using notPage
      exact (restKept notRest).trans (pageKept notPageThen)

def WrittenOn (directory : Path) (pages : List Html.Page) (start : FileSystem) (page : Html.Page)
    (disk : FileSystem) : Prop :=
  ∃ before rest, pages = before ++ page :: rest ∧ writePages directory before start = .ok () disk

theorem writePages_append_eq_ok {first : List Html.Page} :
    writePages directory (first ++ rest) disk = .ok () after ↔
      ∃ middle, writePages directory first disk = .ok () middle ∧
        writePages directory rest middle = .ok () after := by
  induction first generalizing disk with
  | nil =>
      constructor
      · intro writes
        exact ⟨disk, rfl, writes⟩
      · rintro ⟨middle, none, writes⟩
        obtain rfl : disk = middle := by cases none; rfl
        exact writes
  | cons page first ih =>
      simp only [List.cons_append, writePages_cons_eq_ok, ih]
      constructor
      · rintro ⟨start, page, middle, first, rest⟩
        exact ⟨middle, ⟨start, page, first⟩, rest⟩
      · rintro ⟨middle, ⟨start, page, first⟩, rest⟩
        exact ⟨start, page, middle, first, rest⟩

theorem exists_writtenOn (writes : writePages directory pages disk = .ok () after)
    (member : page ∈ pages) : ∃ before, WrittenOn directory pages disk page before := by
  obtain ⟨first, rest, rfl⟩ := List.append_of_mem member
  obtain ⟨before, firstWrites, _⟩ := writePages_append_eq_ok.mp writes
  exact ⟨before, first, rest, rfl, firstWrites⟩

/-- In the end a page is where it was written, with its text unless a later page was written there.
-/
theorem spot?_of_written {start : FileSystem} {first : List Html.Page} (sound : start.IsSound)
    (writes : writePages directory (first ++ page :: rest) start = .ok () after)
    (firstWrites : writePages directory first start = .ok () disk) :
    ∃ spot, after.spot? (directory.join page.name) = some spot ∧
      ((∀ other ∈ rest, pagePlace? after directory other ≠ some spot.place) →
        spot.content = some (Utf8.encode (pageText page disk))) := by
  obtain ⟨found, foundWrites, pageAndRest⟩ := writePages_append_eq_ok.mp writes
  obtain rfl : disk = found := by
    rw [firstWrites] at foundWrites
    cases foundWrites
    rfl
  obtain ⟨middle, pageWrites, restWrites⟩ := writePages_cons_eq_ok.mp pageAndRest
  have diskSound := (writePages_keeps sound firstWrites).sound
  obtain ⟨place, leads⟩ := writePage_spot diskSound pageWrites
  have keeps := writePages_keeps (writePage_keeps diskSound pageWrites).sound restWrites
  obtain ⟨content, afterLeads, kept⟩ := keeps.spot leads
  exact ⟨_, afterLeads, kept⟩

/-- The place of a page ends in the page's name, if that is not the name of a link. -/
theorem exists_pagePlace (sound : disk.IsSound)
    (writes : writePages directory pages disk = .ok () after) (member : page ∈ pages)
    (isName : IsName page.name)
    (notLink : ¬ (after.lookup (directory.join page.name) false).isLink) :
    ∃ place, pagePlace? after directory page = some place ∧
      place.getLast? = some (Utf8.encode page.name) := by
  obtain ⟨_, first, rest, rfl, firstWrites⟩ := exists_writtenOn writes member
  obtain ⟨spot, leads, _⟩ := spot?_of_written sound writes firstWrites
  refine ⟨spot.place, by rw [pagePlace?, leads]; rfl, ?_⟩
  exact after.spot?_join isName directory notLink leads

theorem pagePlace?_ne (sound : disk.IsSound)
    (writes : writePages directory pages disk = .ok () after)
    (areNames : ∀ page ∈ pages, IsName page.name)
    (notLink : ∀ page ∈ pages, ¬ (after.lookup (directory.join page.name) false).isLink)
    {left right : Html.Page} (isLeft : left ∈ pages) (isRight : right ∈ pages)
    (different : left.name ≠ right.name) :
    pagePlace? after directory left ≠ pagePlace? after directory right := by
  intro samePlace
  obtain ⟨leftPlace, leftLeads, leftEnds⟩ :=
    exists_pagePlace sound writes isLeft (areNames left isLeft) (notLink left isLeft)
  obtain ⟨rightPlace, rightLeads, rightEnds⟩ :=
    exists_pagePlace sound writes isRight (areNames right isRight) (notLink right isRight)
  obtain rfl : leftPlace = rightPlace := by
    rw [leftLeads, rightLeads] at samePlace
    exact Option.some.inj samePlace
  exact different (Utf8.encode_injective (Option.some.inj (leftEnds.symm.trans rightEnds)))

/-- Pages of distinct names are written to distinct places, if no name is that of a link. -/
theorem apart_of_nodup (sound : disk.IsSound)
    (writes : writePages directory pages disk = .ok () after)
    (areNames : ∀ page ∈ pages, IsName page.name)
    (notLink : ∀ page ∈ pages, ¬ (after.lookup (directory.join page.name) false).isLink)
    (nodup : (pages.map (·.name)).Nodup) : Apart after directory pages :=
  (List.pairwise_map.mp nodup).imp_of_mem fun isLeft isRight different =>
    pagePlace?_ne sound writes areNames notLink isLeft isRight different

/-- A page stays as it was written, if no later page is written to its place. -/
theorem contentText?_of_last {start : FileSystem} {first : List Html.Page} (sound : start.IsSound)
    (writes : writePages directory (first ++ page :: rest) start = .ok () after)
    (firstWrites : writePages directory first start = .ok () disk)
    (notRest : ∀ other ∈ rest, pagePlace? after directory page ≠ pagePlace? after directory other) :
    after.contentText? (directory.join page.name) = some (pageText page disk) := by
  obtain ⟨spot, leads, kept⟩ := spot?_of_written sound writes firstWrites
  have samePlace : pagePlace? after directory page = some spot.place := by
    rw [pagePlace?, leads]
    rfl
  rw [samePlace] at notRest
  rw [FileSystem.contentText?, FileSystem.content?_eq, leads, Option.bind_some,
    kept fun other isOther => (notRest other isOther).symm, Option.bind_some, Utf8.decode_encode]

theorem contentText?_of_writtenOn {start : FileSystem} (sound : start.IsSound)
    (writes : writePages directory pages start = .ok () after) (apart : Apart after directory pages)
    (writtenOn : WrittenOn directory pages start page disk) :
    after.contentText? (directory.join page.name) = some (pageText page disk) := by
  obtain ⟨first, rest, rfl, firstWrites⟩ := writtenOn
  have restApart := (List.pairwise_cons.mp (List.pairwise_append.mp apart).2.1).1
  exact contentText?_of_last sound writes firstWrites restApart

section Site

variable {policy : PrecisionPolicy} {sources : CompilerSources} {units : List CompilationUnit}
  {size : SiteSize}

def siteStart (directory : Path) (disk : FileSystem) : FileSystem :=
  (disk.createDirectory directory).2

theorem makeDirectory_eq_ok {fault : OutputFault}
    (makes : makeDirectory directory fault disk = .ok () after) :
    after = siteStart directory disk := by
  have run : makeDirectory directory fault disk =
      (if (disk.createDirectory directory).1 then pure () else fail fault : Writing Unit)
        (siteStart directory disk) := rfl
  rw [run] at makes
  split at makes
  · cases makes
    rfl
  · exact absurd makes fail_ne_ok

theorem writeSite_inv (writes : writeSite policy sources units directory disk = .ok size after) :
    writePages directory (Html.pages policy sources units) (siteStart directory disk) =
        .ok () after ∧
      size = ⟨(Html.pages policy sources units).length, (Corpus.allRecords units).length⟩ := by
  have run : writeSite policy sources units directory disk =
      (if disk.exists? directory && !disk.isDirectory directory then
        fail (.invalidPath (.notDirectory directory))
      else do
        makeDirectory directory .writeFailed
        writePages directory (Html.pages policy sources units)
        return ⟨(Html.pages policy sources units).length, (Corpus.allRecords units).length⟩ :
          Writing SiteSize) disk := rfl
  rw [run] at writes
  split at writes
  · exact absurd writes fail_ne_ok
  · obtain ⟨_, start, makes, writesAndReturns⟩ := bind_eq_ok.mp writes
    obtain ⟨_, written, writesPages, returns⟩ := bind_eq_ok.mp writesAndReturns
    obtain rfl := makeDirectory_eq_ok makes
    cases returns
    exact ⟨writesPages, rfl⟩

theorem writeSite_eq_ok (writes : writeSite policy sources units directory disk = .ok size after) :
    writePages directory (Html.pages policy sources units) (siteStart directory disk) =
      .ok () after :=
  (writeSite_inv writes).1

end Site

end RemarkAtlas.Output
