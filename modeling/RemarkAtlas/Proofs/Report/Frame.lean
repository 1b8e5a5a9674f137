import RemarkAtlas.Proofs.Disk.Frame
import RemarkAtlas.Proofs.Report.Noise

/-!
What a report can change.  Names of passes and of source files come from record files and may be
anything, but they end up in single names inside the directory of the report, whether the report
succeeds or not.
-/

namespace RemarkAtlas

namespace Output

variable {made written : Place → Prop} {disk : FileSystem} {directory path : Path}

def Confined {Value : Type} (made written : Place → Prop) (action : Writing Value)
    (disk : FileSystem) : Prop :=
  disk.ChangesOnly made written (diskLeft (action disk))

namespace Confined

variable {Value Result : Type}

theorem pure (value : Value) : Confined made written (Pure.pure value : Writing Value) disk :=
  .refl disk

theorem bind {first : Writing Value} {next : Value → Writing Result}
    (confined : Confined made written first disk)
    (nextConfined : ∀ value middle, disk.ChangesOnly made written middle →
      Confined made written (next value) middle) :
    Confined made written (first >>= next) disk := by
  change disk.ChangesOnly made written (diskLeft (EStateM.bind first next disk))
  unfold EStateM.bind
  rw [Confined] at confined
  generalize first disk = result at confined ⊢
  cases result with
  | ok value middle => exact confined.trans (nextConfined value middle confined)
  | error fault middle => exact confined

end Confined

theorem createFile_confined (sound : disk.IsSound) (unlinked : disk.Unlinked path)
    (may : written (disk.placeOf path)) (fill : Room → Bytes × Option OutputFault) :
    Confined made written (createFile path fill) disk := by
  rw [Confined, createFile_eq]
  cases writes : disk.write? path (fill (disk.room path)).1 with
  | none => exact .refl disk
  | some after =>
      have changes : disk.ChangesOnly made written after :=
        FileSystem.write?_changesOnly sound unlinked may writes
      cases (fill (disk.room path)).2 <;> exact changes

theorem makeDirectory_confined (sound : disk.IsSound) (unlinked : disk.Unlinked path)
    (may : ∀ place, disk.Passes path place → made place) (fault : OutputFault) :
    Confined made written (makeDirectory path fault) disk := by
  have changes : disk.ChangesOnly made written (disk.createDirectory path).2 :=
    FileSystem.createDirectory_changesOnly sound unlinked may
  rw [Confined, makeDirectory_eq]
  split
  · exact changes
  · exact changes

theorem makeParent_confined (sound : disk.IsSound) (unlinked : disk.Unlinked path)
    (may : ∀ parent, path.parent? = some parent →
      ∀ place, disk.Passes parent place → made place) :
    Confined made written (makeParent path) disk := by
  rw [Confined, makeParent_eq]
  cases isParent : path.parent? with
  | none => exact .refl disk
  | some parent =>
      obtain ⟨isPrefix, sameStart⟩ := Path.parent?_isPrefix isParent
      have parentUnlinked : disk.Unlinked parent := fun place passes =>
        unlinked place (passes.outer isPrefix sameStart)
      dsimp only
      split
      · exact .refl disk
      · exact makeDirectory_confined sound parentUnlinked (may parent isParent) _

theorem writeSummary_confined (sound : disk.IsSound) (unlinked : disk.Unlinked path)
    (mayMake : ∀ parent, path.parent? = some parent →
      ∀ place, disk.Passes parent place → made place)
    (mayWrite : written (disk.placeOf path)) (summary : Summary) :
    Confined made written (writeSummary summary path) disk := by
  rw [Confined, writeSummary_eq]
  cases checkPath disk path with
  | error cause => exact .refl disk
  | ok _ =>
      refine (makeParent_confined sound unlinked mayMake).bind fun _ middle changes => ?_
      exact createFile_confined (changes.sound sound) (changes.unlinked unlinked)
        (changes.placeOf path ▸ mayWrite) _

theorem writePage_confined {page : Html.Page} (sound : disk.IsSound)
    (isName : IsName page.name) (unlinked : disk.Unlinked (directory.join page.name))
    (may : written (disk.placeOf directory ++ [Utf8.encode page.name])) :
    Confined made written (writePage directory page) disk := by
  rw [Confined, writePage_eq]
  refine createFile_confined sound unlinked ?_ _
  rw [FileSystem.placeOf_join isName]
  exact may

theorem writePages_confined {pages : List Html.Page} (sound : disk.IsSound)
    (areNames : ∀ page ∈ pages, IsName page.name)
    (unlinked : ∀ page ∈ pages, disk.Unlinked (directory.join page.name))
    (mayWrite : ∀ name : String, IsName name →
      written (disk.placeOf directory ++ [Utf8.encode name])) :
    Confined made written (writePages directory pages) disk := by
  induction pages generalizing disk with
  | nil => exact .pure ()
  | cons page rest ih =>
      obtain ⟨isName, restNames⟩ := List.forall_mem_cons.mp areNames
      obtain ⟨pageUnlinked, restUnlinked⟩ := List.forall_mem_cons.mp unlinked
      have pageConfined : Confined made written (writePage directory page) disk :=
        writePage_confined sound isName pageUnlinked (mayWrite page.name isName)
      refine pageConfined.bind fun _ middle changes => ih (changes.sound sound) restNames ?_ ?_
      · exact fun page member => changes.unlinked (restUnlinked page member)
      · exact fun name isName => changes.placeOf directory ▸ mayWrite name isName

theorem writeSite_confined (policy : PrecisionPolicy) (sources : CompilerSources)
    {units : List CompilationUnit} (sound : disk.IsSound)
    (unlinked : ∀ page ∈ Html.pages policy sources units,
      disk.Unlinked (directory.join page.name))
    (mayMake : ∀ place, disk.Passes directory place → made place)
    (mayWrite : ∀ name : String, IsName name →
      written (disk.placeOf directory ++ [Utf8.encode name])) :
    Confined made written (writeSite policy sources units directory) disk := by
  have areNames : ∀ page ∈ Html.pages policy sources units, IsName page.name :=
    fun page member => Html.isName_page (Html.mem_pages.mp member)
  -- There is always a page, so no link is on the way to the directory.
  have directoryUnlinked : disk.Unlinked directory := by
    have isPage : Html.recordsPage policy sources units ∈ Html.pages policy sources units :=
      Html.mem_pages.mpr .records
    obtain ⟨names, sameStart⟩ := Path.names_join (areNames _ isPage) directory
    intro place passes
    exact unlinked _ isPage place (passes.outer (names ▸ List.prefix_append _ _) sameStart.symm)
  rw [Confined, writeSite_eq]
  split
  · exact .refl disk
  · refine (makeDirectory_confined sound directoryUnlinked mayMake _).bind
      fun _ middle changes => ?_
    have pagesConfined : Confined made written
        (writePages directory (Html.pages policy sources units)) middle :=
      writePages_confined (changes.sound sound) areNames
        (fun page member => changes.unlinked (unlinked page member))
        fun name isName => changes.placeOf directory ▸ mayWrite name isName
    exact pagesConfined.bind fun _ _ _ => .pure _

end Output

namespace ReportRequest

open Output (Confined)

inductive MayMake (request : ReportRequest) (disk : FileSystem) (place : Place) : Prop
  | site {directory : Path} (isSite : request.siteDirectory = some directory)
      (passes : disk.Passes directory place)
  | summary {path parent : Path} (isSummary : request.summaryFile = some path)
      (isParent : path.parent? = some parent) (passes : disk.Passes parent place)

inductive MayWrite (request : ReportRequest) (disk : FileSystem) : Place → Prop
  | page {directory : Path} {name : String} (isSite : request.siteDirectory = some directory)
      (isName : IsName name) :
      MayWrite request disk (disk.placeOf directory ++ [Utf8.encode name])
  | summary {path : Path} (isSummary : request.summaryFile = some path) :
      MayWrite request disk (disk.placeOf path)

variable {request : ReportRequest} {disk middle : FileSystem} {units : List CompilationUnit}

theorem writeSite_confined (sound : disk.IsSound)
    (unlinked : ∀ path ∈ request.outputs units, disk.Unlinked path) :
    Confined (request.MayMake disk) (request.MayWrite disk)
      (request.writeSite (.ofUnits units) units) disk := by
  rw [writeSite]
  cases isSite : request.siteDirectory with
  | none => exact .pure ()
  | some directory =>
      have pagesUnlinked : ∀ page ∈ Html.pages (.ofUnits units) request.compilerSources units,
          disk.Unlinked (directory.join page.name) := by
        intro page member
        refine unlinked _ (List.mem_append_left _ ?_)
        rw [isSite]
        simpa using ⟨page, member, rfl⟩
      have confined : Confined (request.MayMake disk) (request.MayWrite disk)
          (Output.writeSite (.ofUnits units) request.compilerSources units directory) disk :=
        Output.writeSite_confined _ _ sound pagesUnlinked (fun _ => .site isSite)
          fun _ => .page isSite
      exact confined.bind fun _ _ _ => .pure ()

theorem writeSummary_confined (generatedAt : String) (sound : disk.IsSound)
    (changes : disk.ChangesOnly (request.MayMake disk) (request.MayWrite disk) middle)
    (unlinked : ∀ path ∈ request.outputs units, disk.Unlinked path) :
    Confined (request.MayMake disk) (request.MayWrite disk)
      (request.writeSummary (.ofUnits units) generatedAt units) middle := by
  rw [writeSummary]
  cases isSummary : request.summaryFile with
  | none => exact .pure ()
  | some path =>
      have isOutput : path ∈ request.outputs units := by simp [outputs, isSummary]
      refine Output.writeSummary_confined (changes.sound sound)
        (changes.unlinked (unlinked path isOutput)) ?_ ?_ _
      · rintro parent isParent place ⟨outer, isPrefix, isPlace⟩
        exact .summary isSummary isParent ⟨outer, isPrefix, changes.startOf parent ▸ isPlace⟩
      · rw [changes.placeOf]
        exact .summary isSummary

/-- A report changes nothing outside of where it was told to write. -/
theorem run_changesOnly (request : ReportRequest) (generatedAt : String) (disk : FileSystem)
    (sound : disk.IsSound)
    (unlinked : ∀ units, request.units disk = .ok units →
      ∀ path ∈ request.outputs units, disk.Unlinked path) :
    disk.ChangesOnly (request.MayMake disk) (request.MayWrite disk)
        (request.run generatedAt disk).disk ∧
      (∀ file, IsName (Html.sourcePage file)) ∧ ∀ name, IsName (Html.passPage name) := by
  refine ⟨?_, Html.isName_sourcePage, Html.isName_passPage⟩
  rw [run]
  cases loads : request.units disk with
  | error fault => exact .refl disk
  | ok units =>
      have site := writeSite_confined sound (unlinked units loads)
      rw [Confined] at site
      dsimp only [EStateM.run]
      generalize request.writeSite (.ofUnits units) units disk = siteRun at site ⊢
      cases siteRun with
      | error fault middle => exact site
      | ok _ middle =>
          dsimp only [Output.diskLeft] at site ⊢
          have summary := writeSummary_confined generatedAt sound site (unlinked units loads)
          rw [Confined] at summary
          generalize request.writeSummary (.ofUnits units) generatedAt units middle = summaryRun
            at summary ⊢
          cases summaryRun with
          | error fault after => exact site.trans summary
          | ok _ after => exact site.trans summary

def escapingDisk : FileSystem := diskWith [countedNoteJson "precise" "../secret" []]

theorem escapingDisk_unlinked {path : Path} (isOutput : path ∈ fullRequest.outputs units) :
    escapingDisk.Unlinked path := by
  intro place passes target
  rw [outputs, List.mem_append, List.mem_flatMap] at isOutput
  rcases isOutput with ⟨directory, isSite, isPage⟩ | isSummary
  · obtain rfl := List.mem_singleton.mp isSite
    obtain ⟨page, member, rfl⟩ := List.mem_map.mp isPage
    rcases passes.of_join (Html.isName_page (Html.mem_pages.mp member)) with outer | rfl
    · rcases outer.of_single rfl with rfl | rfl <;> exact nofun
    · exact nofun
  · obtain rfl := List.mem_singleton.mp isSummary
    rcases passes.of_single rfl with rfl | rfl <;> exact nofun

theorem escapingName_confined :
    escapingDisk.IsSound ∧
    (∃ unit, fullRequest.units escapingDisk = .ok [unit]) ∧
    (∀ units, fullRequest.units escapingDisk = .ok units →
      ∀ path ∈ fullRequest.outputs units, escapingDisk.Unlinked path) ∧
    escapingDisk.ChangesOnly (fullRequest.MayMake escapingDisk) (fullRequest.MayWrite escapingDisk)
      (fullRequest.run "now" escapingDisk).disk ∧
    (fullRequest.run "now" escapingDisk).disk.root.glance? ["secret.html"] = none := by
  have sound : escapingDisk.IsSound := ⟨_, rfl⟩
  have isRead : (countedNoteJson "precise" "../secret" []).IsRead 125 :=
    isRead_countedNoteJson "precise" "../secret" (List.forall_mem_nil _)
  have loads : fullRequest.loaded escapingDisk =
      .ok [(unitWith [countedNote "precise" "../secret" []]).withFilename recordFile] :=
    loaded_diskWith (List.forall_mem_singleton.mpr isRead) rfl
  have unlinked : ∀ units, fullRequest.units escapingDisk = .ok units →
      ∀ path ∈ fullRequest.outputs units, escapingDisk.Unlinked path :=
    fun units _ path => escapingDisk_unlinked
  have notMade : ¬ fullRequest.MayMake escapingDisk ["secret.html"] := by
    intro may
    cases may with
    | site isSite passes =>
        obtain rfl := Option.some.inj isSite
        rcases passes.of_single rfl with isStart | isOut
        · exact absurd isStart (by decide)
        · exact absurd isOut (by decide)
    | summary isSummary isParent passes =>
        obtain rfl := Option.some.inj isSummary
        obtain rfl := Option.some.inj isParent
        obtain ⟨outer, isPrefix, isPlace⟩ := passes
        obtain rfl := List.prefix_nil.mp isPrefix
        exact absurd isPlace (by decide)
  have notWritten : ¬ fullRequest.MayWrite escapingDisk ["secret.html"] := by
    generalize isPlace : [Utf8.encode "secret.html"] = place
    intro may
    cases may with
    | page isSite isName =>
        obtain rfl := Option.some.inj isSite
        have isOut : Utf8.encode "secret.html" = Utf8.encode "out" := (List.cons.inj isPlace).1
        exact absurd isOut (by decide)
    | summary isSummary =>
        obtain rfl := Option.some.inj isSummary
        exact absurd isPlace (by decide)
  have changes := (run_changesOnly fullRequest "now" escapingDisk sound unlinked).1
  exact ⟨sound, ⟨_, units_of_loaded rfl loads⟩, unlinked, changes,
    (changes.kept notMade notWritten).trans rfl⟩

end ReportRequest

end RemarkAtlas
