import RemarkAtlas.Proofs.Disk.Lacking
import RemarkAtlas.Proofs.Load.RecordFile

/-!
The two ways to load a list of record files.  To skip invalid files is to load the valid ones;
without skipping the result is the same if all files are valid, and else the fault of the first that
is not.  Below a directory, skipping loads what is loaded once the invalid files are removed.
-/

namespace RemarkAtlas.RecordFile

variable {disk : FileSystem} {options : Document.Options} {path : Path} {paths : List Path}

def IsValid (disk : FileSystem) (options : Document.Options) (path : Path) : Prop :=
  ∃ unit, loadUnit disk options path = .ok unit

def unit? (disk : FileSystem) (options : Document.Options) (path : Path) : Option CompilationUnit :=
  (loadUnit disk options path).toOption

theorem unit?_eq_some {unit : CompilationUnit} :
    unit? disk options path = some unit ↔ loadUnit disk options path = .ok unit := by
  rw [unit?]
  cases loadUnit disk options path <;> simp [Except.toOption]

theorem filename_of_loadUnit {unit : CompilationUnit}
    (loads : loadUnit disk options path = .ok unit) : unit.filename = some path := by
  obtain ⟨_, _, _, _, rfl⟩ := loadUnit_eq_ok.mp loads
  rfl

theorem loadUnits_skipping (paths : List Path) :
    loadUnits disk options true paths = .ok (paths.filterMap (unit? disk options)) := by
  induction paths with
  | nil => rfl
  | cons path rest ih =>
      rw [loadUnits, List.filterMap_cons, unit?]
      cases loadUnit disk options path with
      | ok unit =>
          rw [ih]
          rfl
      | error fault => exact ih

theorem loadUnits_valid (valid : ∀ path ∈ paths, IsValid disk options path) :
    loadUnits disk options false paths = .ok (paths.filterMap (unit? disk options)) := by
  induction paths with
  | nil => rfl
  | cons path rest ih =>
      obtain ⟨⟨unit, loads⟩, restValid⟩ := List.forall_mem_cons.mp valid
      rw [loadUnits, loads, ih restValid, List.filterMap_cons_some (unit?_eq_some.mpr loads)]
      rfl

theorem loadUnits_invalid {before after : List Path} {fault : LoadFault}
    (valid : ∀ earlier ∈ before, IsValid disk options earlier)
    (fails : loadUnit disk options path = .error fault) :
    loadUnits disk options false (before ++ path :: after) = .error fault := by
  induction before with
  | nil =>
      rw [List.nil_append, loadUnits, fails]
      rfl
  | cons earlier before ih =>
      obtain ⟨⟨unit, loads⟩, restValid⟩ := List.forall_mem_cons.mp valid
      rw [List.cons_append, loadUnits, loads, ih restValid]
      rfl

/-- Paths of which not all are valid have a first one that is not. -/
theorem valid_or_firstInvalid (disk : FileSystem) (options : Document.Options) (paths : List Path) :
    (∀ path ∈ paths, IsValid disk options path) ∨
      ∃ before path after fault, paths = before ++ path :: after ∧
        (∀ earlier ∈ before, IsValid disk options earlier) ∧
        loadUnit disk options path = .error fault := by
  induction paths with
  | nil => exact Or.inl (List.forall_mem_nil _)
  | cons path rest ih =>
      cases loads : loadUnit disk options path with
      | error fault =>
          exact Or.inr ⟨[], path, rest, fault, rfl, List.forall_mem_nil _, loads⟩
      | ok unit =>
          have first : IsValid disk options path := ⟨unit, loads⟩
          rcases ih with valid | ⟨before, invalid, after, fault, rfl, valid, fails⟩
          · exact Or.inl (List.forall_mem_cons.mpr ⟨first, valid⟩)
          · exact Or.inr ⟨path :: before, invalid, after, fault, rfl,
              List.forall_mem_cons.mpr ⟨first, valid⟩, fails⟩

theorem loadUnits_eq_error {fault : LoadFault} :
    loadUnits disk options false paths = .error fault ↔
      ∃ before path after, paths = before ++ path :: after ∧
        (∀ earlier ∈ before, IsValid disk options earlier) ∧
        loadUnit disk options path = .error fault := by
  constructor
  · intro failed
    rcases valid_or_firstInvalid disk options paths with
      valid | ⟨before, path, after, other, rfl, valid, fails⟩
    · cases (loadUnits_valid valid).symm.trans failed
    · cases (loadUnits_invalid valid fails).symm.trans failed
      exact ⟨before, path, after, rfl, valid, fails⟩
  · rintro ⟨before, path, after, rfl, valid, fails⟩
    exact loadUnits_invalid valid fails

theorem loadUnits_eq_ok {units : List CompilationUnit} :
    loadUnits disk options false paths = .ok units ↔
      (∀ path ∈ paths, IsValid disk options path) ∧
        loadUnits disk options true paths = .ok units := by
  rw [loadUnits_skipping]
  constructor
  · intro loads
    rcases valid_or_firstInvalid disk options paths with
      valid | ⟨before, path, after, other, rfl, valid, fails⟩
    · exact ⟨valid, (loadUnits_valid valid).symm.trans loads⟩
    · cases (loadUnits_invalid valid fails).symm.trans loads
  · rintro ⟨valid, skips⟩
    exact (loadUnits_valid valid).trans skips

theorem forall₂_unit? (paths : List Path) :
    List.Forall₂
      (fun path unit => loadUnit disk options path = .ok unit ∧ unit.filename = some path)
      (paths.filter fun path => (loadUnit disk options path).isOk)
      (paths.filterMap (unit? disk options)) := by
  induction paths with
  | nil => exact .nil
  | cons path rest ih =>
      cases loads : loadUnit disk options path with
      | error fault =>
          have noUnit : unit? disk options path = none := by rw [unit?, loads, Except.toOption]
          rw [List.filter_cons_of_neg (by rw [loads]; exact Bool.false_ne_true),
            List.filterMap_cons_none noUnit]
          exact ih
      | ok unit =>
          rw [List.filter_cons_of_pos (by rw [loads, Except.isOk, Except.toBool]),
            List.filterMap_cons_some (unit?_eq_some.mpr loads)]
          exact .cons ⟨loads, filename_of_loadUnit loads⟩ ih

structure LoadsValid (disk : FileSystem) (options : Document.Options) (paths : List Path) :
    Prop where
  skipping : ∃ units, loadUnits disk options true paths = .ok units ∧
    List.Forall₂
      (fun path unit => loadUnit disk options path = .ok unit ∧ unit.filename = some path)
      (paths.filter fun path => (loadUnit disk options path).isOk) units
  strict (units : List CompilationUnit) : loadUnits disk options false paths = .ok units ↔
    (∀ path ∈ paths, IsValid disk options path) ∧ loadUnits disk options true paths = .ok units
  fault (fault : LoadFault) : loadUnits disk options false paths = .error fault ↔
    ∃ before path after, paths = before ++ path :: after ∧
      (∀ earlier ∈ before, IsValid disk options earlier) ∧
      loadUnit disk options path = .error fault

theorem loadUnits_loadsValid (disk : FileSystem) (options : Document.Options)
    (paths : List Path) : LoadsValid disk options paths where
  skipping := ⟨_, loadUnits_skipping paths, forall₂_unit? paths⟩
  strict _ := loadUnits_eq_ok
  fault _ := loadUnits_eq_error

theorem loadUnit_congr {other : FileSystem} (same : other.read? path = disk.read? path) :
    loadUnit other options path = loadUnit disk options path := by
  rw [loadUnit, loadUnit, readDocument, readDocument, same]

section Removal

variable {directory : Path} {base place : Place} {root : Entry} {children : List (Bytes × Entry)}

def invalidPlaces (disk : FileSystem) (options : Document.Options) (directory : Path) :
    List Place :=
  match disk.lookup directory true with
  | .found base root =>
    let invalid := (root.files.map Prod.fst).filter fun place =>
      (directory.below place).isRecordFile && (unit? disk options (directory.below place)).isNone
    invalid.map (base ++ ·)
  | _ => []

def isRemoved (disk : FileSystem) (options : Document.Options) (directory : Path) (place : Place) :
    Bool :=
  (invalidPlaces disk options directory).contains place

def withoutInvalid (disk : FileSystem) (options : Document.Options) (directory : Path) :
    FileSystem :=
  disk.without (isRemoved disk options directory)

theorem isRemoved_iff (leads : disk.lookup directory true = .found base root) :
    isRemoved disk options directory (base ++ place) ↔
      place ∈ root.files.map Prod.fst ∧ (directory.below place).isRecordFile = true ∧
        unit? disk options (directory.below place) = none := by
  rw [isRemoved, List.contains_iff_mem, invalidPlaces, leads]
  simp only [List.mem_map, List.mem_filter, Bool.and_eq_true, Option.isNone_iff_eq_none,
    List.append_cancel_left_eq, exists_eq_right]

theorem lacks_withoutInvalid (sound : disk.IsSound) (tree : disk.root.IsTree)
    (options : Document.Options) (directory : Path) :
    FileSystem.Lacks (isRemoved disk options directory) disk
      (withoutInvalid disk options directory) := by
  refine FileSystem.lacks_without sound tree fun place removed => ?_
  rw [isRemoved, List.contains_iff_mem, invalidPlaces] at removed
  split at removed
  case h_1 base root leads =>
    obtain ⟨inner, invalid, rfl⟩ := List.mem_map.mp removed
    have isThere := FileSystem.find?_of_found leads
    have isFile := (tree.of_find? isThere).mem_files.mp (List.mem_filter.mp invalid).1
    rwa [Entry.find?_append, isThere]
  case h_2 => cases removed

/-- A file that is left is read as before. -/
theorem loadUnit_withoutInvalid (sound : disk.IsSound) (tree : disk.root.IsTree)
    (leads : disk.lookup directory true = .found base (.directory children))
    (isFile : place ∈ (Entry.directory children).files.map Prod.fst)
    (stays : isRemoved disk options directory (base ++ place) = false) :
    loadUnit (withoutInvalid disk options directory) options (directory.below place) =
      loadUnit disk options (directory.below place) := by
  refine loadUnit_congr ((lacks_withoutInvalid sound tree options directory).read? ?_)
  have isThere := FileSystem.find?_of_found leads
  obtain ⟨content, found⟩ := (tree.of_find? isThere).mem_files.mp isFile
  have holds : disk.root.find? (base ++ place) = some (.file content) := by
    rwa [Entry.find?_append, isThere]
  have named := (tree.of_find? isThere).isName_of_find? found
  intro met entry isLookup
  rcases FileSystem.lookup_below named leads holds with arrives | blocked
  · rw [arrives] at isLookup
    cases isLookup
    exact stays
  · rw [blocked] at isLookup
    cases isLookup

theorem isValid_withoutInvalid (sound : disk.IsSound) (tree : disk.root.IsTree)
    (leads : disk.lookup directory true = .found base (.directory children))
    (isFile : place ∈ (Entry.directory children).files.map Prod.fst)
    (isRecord : (directory.below place).isRecordFile = true)
    (stays : isRemoved disk options directory (base ++ place) = false) :
    IsValid (withoutInvalid disk options directory) options (directory.below place) := by
  rw [IsValid, loadUnit_withoutInvalid sound tree leads isFile stays]
  cases loads : unit? disk options (directory.below place) with
  | some unit => exact ⟨unit, unit?_eq_some.mp loads⟩
  | none =>
      have removed := (isRemoved_iff leads).mpr ⟨isFile, isRecord, loads⟩
      rw [stays] at removed
      cases removed

theorem filterMap_recordFilesAmong {Value : Type} (load : Path → Option Value) (directory : Path)
    (places : List Place) :
    (recordFilesAmong directory places).filterMap load =
      (places.mergeSort fun left right => (compare left right).isLE).filterMap fun place =>
        if (directory.below place).isRecordFile then load (directory.below place) else none := by
  rw [recordFilesAmong, List.filterMap_filter, List.filterMap_map]
  rfl

/-- The units that are skipped with their files are none of those that are loaded. -/
theorem filterMap_withoutInvalid (sound : disk.IsSound) (tree : disk.root.IsTree)
    (leads : disk.lookup directory true = .found base (.directory children)) :
    let places := (Entry.directory children).files.map Prod.fst
    let left := places.filter fun place => !isRemoved disk options directory (base ++ place)
    (recordFilesAmong directory left).filterMap
        (unit? (withoutInvalid disk options directory) options) =
      (recordFilesAmong directory places).filterMap (unit? disk options) := by
  intro places left
  rw [filterMap_recordFilesAmong, filterMap_recordFilesAmong,
    ← filter_mergeSort isLE_compare_trans isLE_compare_total, List.filterMap_filter]
  refine List.filterMap_congr fun place member => ?_
  have isFile : place ∈ places := List.mem_mergeSort.mp member
  cases isRecord : (directory.below place).isRecordFile with
  | false => simp
  | true =>
      cases removed : isRemoved disk options directory (base ++ place) with
      | true => simp [((isRemoved_iff leads).mp removed).2.2]
      | false => simp [unit?, loadUnit_withoutInvalid sound tree leads isFile removed]

theorem findRecordFiles?_withoutInvalid (sound : disk.IsSound) (tree : disk.root.IsTree)
    (leads : disk.lookup directory true = .found base (.directory children)) :
    let places := (Entry.directory children).files.map Prod.fst
    let left := places.filter fun place => !isRemoved disk options directory (base ++ place)
    (withoutInvalid disk options directory).findRecordFiles? directory =
      (disk.findRecordFiles? directory).map fun _ => recordFilesAmong directory left := by
  intro places left
  have scansLeft := FileSystem.scanRoot?_without (lacks_withoutInvalid sound tree options directory)
    tree leads
  have filesLeft := Entry.files_without
    (fun inner => isRemoved disk options directory (base ++ inner)) (.directory children)
    (fun isFile => nomatch isFile)
  have isLeft : left = (((Entry.directory children).files.filter fun item =>
      !isRemoved disk options directory (base ++ item.1)).map Prod.fst) := List.filter_map
  rw [FileSystem.findRecordFiles?, FileSystem.findRecordFiles?, withoutInvalid, scansLeft,
    FileSystem.scanRoot?_of_directory leads]
  dsimp only
  have sameLimits : (disk.without (isRemoved disk options directory)).canList = disk.canList := rfl
  rw [Entry.directories_without, filesLeft, ← isLeft, sameLimits]
  split <;> rfl

/-- If the scan succeeds, the one of what is left when the invalid files are removed finds valid
files only, and they hold the units that are loaded if invalid files are skipped. -/
theorem loadUnits_withoutInvalid (sound : disk.IsSound) (tree : disk.root.IsTree)
    (options : Document.Options) (isDirectory : disk.isDirectory directory) :
    (findFiles disk directory = .error (.unscannable directory) ∧
      findFiles (withoutInvalid disk options directory) directory =
        .error (.unscannable directory)) ∨
    ∃ found left units,
      findFiles disk directory = .ok found ∧
      findFiles (withoutInvalid disk options directory) directory = .ok left ∧
      loadUnits disk options true found = .ok units ∧
      loadUnits (withoutInvalid disk options directory) options false left = .ok units := by
  obtain ⟨base, children, leads⟩ := FileSystem.isDirectory_iff.mp isDirectory
  have scans := FileSystem.scanRoot?_of_directory leads
  let places := (Entry.directory children).files.map Prod.fst
  let left := places.filter fun place => !isRemoved disk options directory (base ++ place)
  have scansLeft : (withoutInvalid disk options directory).findRecordFiles? directory =
      (disk.findRecordFiles? directory).map fun _ => recordFilesAmong directory left :=
    findRecordFiles?_withoutInvalid sound tree leads
  cases finds : disk.findRecordFiles? directory with
  | none =>
      rw [finds, Option.map_none] at scansLeft
      exact Or.inl ⟨by rw [findFiles, finds], by rw [findFiles, scansLeft]⟩
  | some found =>
      obtain rfl : recordFilesAmong directory places = found :=
        ((FileSystem.findRecordFiles?_of_scans scans).mp finds).2
      rw [finds, Option.map_some] at scansLeft
      have validLeft : ∀ path ∈ recordFilesAmong directory left,
          IsValid (withoutInvalid disk options directory) options path := by
        intro path member
        obtain ⟨place, isLeft, rfl, isRecord⟩ := mem_recordFilesAmong.mp member
        obtain ⟨isFile, stays⟩ := List.mem_filter.mp isLeft
        exact isValid_withoutInvalid sound tree leads isFile isRecord (by simpa using stays)
      refine Or.inr ⟨_, _, _, findFiles_eq_ok.mpr finds, findFiles_eq_ok.mpr scansLeft,
        loadUnits_skipping _, ?_⟩
      rw [loadUnits_valid validLeft]
      exact congrArg Except.ok (filterMap_withoutInvalid sound tree leads)

end Removal

end RemarkAtlas.RecordFile
