import RemarkAtlas.Proofs.Disk.Alike
import RemarkAtlas.Proofs.Report.SummaryFile

/-!
Writing the same report on two disks that are alike.  If the source files of its pages have the same
texts on both, the runs end in the same way, and what they wrote is the same.
-/

namespace RemarkAtlas.Output

/-- Two runs that end in the same way, on disks that stay alike; if they succeed, the paths lead to
files with the same contents. -/
inductive RunsAlike {Value : Type} (disk other : FileSystem) (written : List Path) :
    EStateM.Result OutputFault FileSystem Value → EStateM.Result OutputFault FileSystem Value → Prop
  | ok (value : Value) {after otherAfter : FileSystem} (stay : disk.StayAlike other after otherAfter)
      (shared : ∀ path ∈ written, after.SharedAt otherAfter path) :
      RunsAlike disk other written (.ok value after) (.ok value otherAfter)
  | error (fault : OutputFault) {after otherAfter : FileSystem}
      (stay : disk.StayAlike other after otherAfter) :
      RunsAlike disk other written (.error fault after) (.error fault otherAfter)

variable {disk other : FileSystem} {directory : Path} {page : Html.Page} {pages : List Html.Page}

namespace RunsAlike

variable {Value Result : Type}

theorem pure (alike : disk.Alike other) (value : Value) :
    RunsAlike disk other [] ((Pure.pure value : Writing Value) disk)
      ((Pure.pure value : Writing Value) other) :=
  .ok value (.refl alike) (by simp)

theorem fail (alike : disk.Alike other) (fault : OutputFault) (written : List Path) :
    RunsAlike disk other written ((Output.fail fault : Writing Value) disk)
      ((Output.fail fault : Writing Value) other) :=
  .error fault (.refl alike)

theorem bind {first : Writing Value} {next : Value → Writing Result} {written more : List Path}
    (firstAlike : RunsAlike disk other written (first disk) (first other))
    (nextAlike : ∀ value middle otherMiddle, first disk = .ok value middle →
      first other = .ok value otherMiddle → middle.Alike otherMiddle →
      RunsAlike middle otherMiddle more (next value middle) (next value otherMiddle)) :
    RunsAlike disk other (written ++ more) ((first >>= next) disk) ((first >>= next) other) := by
  change RunsAlike _ _ _ (EStateM.bind first next disk) (EStateM.bind first next other)
  unfold EStateM.bind
  generalize ran : first disk = result at firstAlike ⊢
  generalize otherRan : first other = otherResult at firstAlike ⊢
  cases firstAlike with
  | @error fault middle otherMiddle stay => exact .error fault stay
  | @ok value middle otherMiddle stay shared =>
      have runs := nextAlike value middle otherMiddle ran otherRan stay.alike
      dsimp only
      generalize next value middle = last, next value otherMiddle = otherLast at runs ⊢
      cases runs with
      | error fault last => exact .error fault (stay.trans last)
      | ok result last more =>
          exact .ok result (stay.trans last) <| List.forall_mem_append.mpr
            ⟨fun path member => last.shared (shared path member), more⟩

theorem bind_pure (value : Result) {first : Writing Value} {written : List Path}
    (firstAlike : RunsAlike disk other written (first disk) (first other)) :
    RunsAlike disk other written ((first >>= fun _ => Pure.pure value : Writing Result) disk)
      ((first >>= fun _ => Pure.pure value : Writing Result) other) := by
  have runs := firstAlike.bind fun _ _ _ _ _ alike => RunsAlike.pure alike value
  rwa [List.append_nil] at runs

end RunsAlike

theorem makeDirectory_eq (path : Path) (fault : OutputFault) (disk : FileSystem) :
    makeDirectory path fault disk =
      (if (disk.createDirectory path).1 then Pure.pure () else fail fault : Writing Unit)
        (disk.createDirectory path).2 := by
  rfl

theorem writePage_eq (directory : Path) (page : Html.Page) (disk : FileSystem) :
    writePage directory page disk =
      writeFile (directory.join page.name) (pageText page disk) disk := by
  rfl

theorem writeSite_eq (policy : PrecisionPolicy) (sources : CompilerSources)
    (units : List CompilationUnit) (directory : Path) (disk : FileSystem) :
    writeSite policy sources units directory disk =
      (if disk.exists? directory && !disk.isDirectory directory then
        fail (.invalidPath (.notDirectory directory))
      else do
        makeDirectory directory .writeFailed
        writePages directory (Html.pages policy sources units)
        return ⟨(Html.pages policy sources units).length, (Corpus.allRecords units).length⟩ :
          Writing SiteSize) disk := by
  rfl

theorem createFile_alike (alike : disk.Alike other) (path : Path)
    (fill : Room → Bytes × Option OutputFault) :
    RunsAlike disk other [path] (createFile path fill disk) (createFile path fill other) := by
  rw [createFile_eq, createFile_eq, ← alike.room path]
  rcases alike.write? path (fill (disk.room path)).1 with
    ⟨fails, otherFails⟩ | ⟨after, otherAfter, writes, otherWrites, stay, agree⟩
  · rw [fails, otherFails]
    exact .error .writeFailed (.refl alike)
  · rw [writes, otherWrites]
    cases (fill (disk.room path)).2 with
    | some fault => exact .error fault stay
    | none =>
        refine .ok () stay (List.forall_mem_singleton.mpr ?_)
        obtain ⟨target, leads, _⟩ := FileSystem.write?_eq_some writes
        have leadsAfter := FileSystem.spot?_write alike.sound writes leads leads
        rw [Entry.overwrite, if_pos rfl] at leadsAfter
        exact ⟨target.place, _, leadsAfter, agree target leads⟩

theorem makeDirectory_alike (alike : disk.Alike other) (path : Path) (fault : OutputFault) :
    RunsAlike disk other [] (makeDirectory path fault disk) (makeDirectory path fault other) := by
  obtain ⟨sameResult, stay⟩ := alike.createDirectory path
  rw [makeDirectory_eq, makeDirectory_eq, ← sameResult]
  split
  · exact .ok () stay (by simp)
  · exact .error fault stay

theorem makeParent_alike (alike : disk.Alike other) (path : Path) :
    RunsAlike disk other [] (makeParent path disk) (makeParent path other) := by
  rw [makeParent_eq, makeParent_eq]
  cases path.parent? with
  | none => exact .pure alike ()
  | some parent =>
      dsimp only
      rw [alike.exists? parent]
      split
      · exact .pure alike ()
      · exact makeDirectory_alike alike parent _

theorem writeSummary_alike (alike : disk.Alike other) (summary : Summary) (path : Path) :
    RunsAlike disk other [path] (writeSummary summary path disk)
      (writeSummary summary path other) := by
  have sameCheck : checkPath disk path = checkPath other path := by
    rw [checkPath, checkPath, alike.isDirectory path]
  rw [writeSummary_eq, writeSummary_eq, sameCheck]
  cases checkPath other path with
  | error cause => exact .fail alike _ _
  | ok _ =>
      exact (makeParent_alike alike path).bind fun _ _ _ _ _ alike =>
        createFile_alike alike path _

theorem writePage_alike (alike : disk.Alike other)
    (sameText : pageText page disk = pageText page other) :
    RunsAlike disk other [directory.join page.name] (writePage directory page disk)
      (writePage directory page other) := by
  rw [writePage_eq, writePage_eq, sameText]
  exact createFile_alike alike _ _

def SameTexts (directory : Path) (pages : List Html.Page) (disk other : FileSystem) : Prop :=
  ∀ first page rest, pages = first ++ page :: rest → ∀ middle otherMiddle,
    writePages directory first disk = .ok () middle →
    writePages directory first other = .ok () otherMiddle →
    pageText page middle = pageText page otherMiddle

theorem writePages_alike (alike : disk.Alike other)
    (sameTexts : SameTexts directory pages disk other) :
    RunsAlike disk other (pages.map fun page => directory.join page.name)
      (writePages directory pages disk) (writePages directory pages other) := by
  induction pages generalizing disk other with
  | nil => exact .pure alike ()
  | cons page rest ih =>
      have pageAlike : RunsAlike disk other [directory.join page.name] _ _ :=
        writePage_alike alike (sameTexts [] page rest rfl _ _ rfl rfl)
      refine pageAlike.bind fun _ middle otherMiddle writes otherWrites middleAlike => ?_
      refine ih middleAlike ?_
      intro first later last isRest after otherAfter firstWrites otherFirstWrites
      refine sameTexts (page :: first) later last (by rw [isRest]; rfl) _ _ ?_ ?_
      · exact writePages_cons_eq_ok.mpr ⟨middle, writes, firstWrites⟩
      · exact writePages_cons_eq_ok.mpr ⟨otherMiddle, otherWrites, otherFirstWrites⟩

theorem writePages_stayAlike {start otherStart middle otherMiddle : FileSystem}
    (stay : start.StayAlike otherStart disk other)
    (sameText : ∀ page ∈ pages, ∀ after otherAfter, start.StayAlike otherStart after otherAfter →
      pageText page after = pageText page otherAfter)
    (writes : writePages directory pages disk = .ok () middle)
    (otherWrites : writePages directory pages other = .ok () otherMiddle) :
    start.StayAlike otherStart middle otherMiddle := by
  induction pages generalizing disk other with
  | nil =>
      cases writes
      cases otherWrites
      exact stay
  | cons page rest ih =>
      obtain ⟨sameFirst, sameRest⟩ := List.forall_mem_cons.mp sameText
      obtain ⟨next, pageWrites, restWrites⟩ := writePages_cons_eq_ok.mp writes
      obtain ⟨otherNext, otherPageWrites, otherRestWrites⟩ := writePages_cons_eq_ok.mp otherWrites
      have runs : RunsAlike disk other [directory.join page.name] _ _ :=
        writePage_alike stay.alike (sameFirst _ _ stay)
      rw [pageWrites, otherPageWrites] at runs
      cases runs with
      | ok _ last _ => exact ih (stay.trans last) sameRest restWrites otherRestWrites

section Site

variable (policy : PrecisionPolicy) (sources : CompilerSources) (units : List CompilationUnit)

def SameSources (directory : Path) (disk other : FileSystem) : Prop :=
  ∀ record ∈ Corpus.allRecords units, ∀ file, record.file? = some file → ∀ first rest,
    Html.pages policy sources units =
      first ++ Html.pageOfSource policy sources (file, Html.inFile units file) :: rest →
    ∀ middle otherMiddle, writePages directory first (siteStart directory disk) = .ok () middle →
      writePages directory first (siteStart directory other) = .ok () otherMiddle →
      middle.readText? ⟨file⟩ = otherMiddle.readText? ⟨file⟩

variable {policy sources units}

theorem pageText_eq {middle otherMiddle : FileSystem}
    (isPage : page ∈ Html.pages policy sources units)
    (sameSource : ∀ record ∈ Corpus.allRecords units, ∀ file, record.file? = some file →
      page = Html.pageOfSource policy sources (file, Html.inFile units file) →
      middle.readText? ⟨file⟩ = otherMiddle.readText? ⟨file⟩) :
    pageText page middle = pageText page otherMiddle := by
  cases Html.mem_pages.mp isPage with
  | records => rfl
  | functions => rfl
  | passes => rfl
  | pass _ _ => rfl
  | @source record file member located =>
      have same := sameSource record member file located rfl
      simp only [pageText, Html.Page.render, Html.pageOfSource, same]

theorem sameTexts_of_sameSources (same : SameSources policy sources units directory disk other) :
    SameTexts directory (Html.pages policy sources units) (siteStart directory disk)
      (siteStart directory other) := by
  intro first page rest isPages middle otherMiddle writes otherWrites
  have isPage : page ∈ Html.pages policy sources units := by simp [isPages]
  refine pageText_eq isPage fun record member file located isSource => ?_
  exact same record member file located first rest (isSource ▸ isPages) middle otherMiddle writes
    otherWrites

/-- Source files that are the same at first stay the same, even if a page is written over one. -/
theorem sameSources_of_shared (alike : disk.Alike other)
    (shared : ∀ record ∈ Corpus.allRecords units, ∀ file, record.file? = some file →
      disk.SharedAt other ⟨file⟩) :
    SameSources policy sources units directory disk other := by
  have sameSource : ∀ record ∈ Corpus.allRecords units, ∀ file, record.file? = some file →
      ∀ middle otherMiddle, disk.StayAlike other middle otherMiddle →
        middle.readText? ⟨file⟩ = otherMiddle.readText? ⟨file⟩ := by
    intro record member file located middle otherMiddle stay
    exact (stay.shared (shared record member file located)).readText? stay.alike
  intro record member file located first rest isPages middle otherMiddle writes otherWrites
  refine sameSource record member file located middle otherMiddle ?_
  refine writePages_stayAlike (alike.createDirectory directory).2 ?_ writes otherWrites
  intro page isFirst after otherAfter stay
  have isPage : page ∈ Html.pages policy sources units := by simp [isPages, isFirst]
  exact pageText_eq isPage fun record member file located _ =>
    sameSource record member file located after otherAfter stay

theorem writeSite_alike (alike : disk.Alike other)
    (same : SameSources policy sources units directory disk other) :
    RunsAlike disk other
      ((Html.pages policy sources units).map fun page => directory.join page.name)
      (writeSite policy sources units directory disk)
      (writeSite policy sources units directory other) := by
  rw [writeSite_eq, writeSite_eq, alike.exists? directory, alike.isDirectory directory]
  split
  · exact .fail alike _ _
  · refine (makeDirectory_alike alike directory .writeFailed).bind
      fun _ start otherStart makes otherMakes startAlike => ?_
    obtain rfl := makeDirectory_eq_ok makes
    obtain rfl := makeDirectory_eq_ok otherMakes
    exact .bind_pure _ (writePages_alike startAlike (sameTexts_of_sameSources same))

end Site

end RemarkAtlas.Output
