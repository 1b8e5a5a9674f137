import RemarkAtlas.Disk.Scan

/-!
What a scan finds: the files below a directory whose names are those of record files.
-/

namespace RemarkAtlas

theorem mem_recordFilesAmong {directory path : Path} {places : List Place} :
    path ∈ recordFilesAmong directory places ↔
      ∃ place ∈ places, directory.below place = path ∧ path.isRecordFile = true := by
  simp only [recordFilesAmong, List.mem_filter, List.mem_map, List.mem_mergeSort]
  constructor
  · rintro ⟨⟨place, member, isPath⟩, isRecord⟩
    exact ⟨place, member, isPath, isRecord⟩
  · rintro ⟨place, member, isPath, isRecord⟩
    exact ⟨⟨place, member, isPath⟩, isRecord⟩

namespace FileSystem

def CanListAll (disk : FileSystem) (directory : Path) (base : Place) (root : Entry) : Prop :=
  ∀ inner ∈ root.directories, disk.canList (base ++ inner) (directory.below inner) = true

variable {disk : FileSystem} {directory path : Path} {paths : List Path}

theorem findRecordFiles?_of_scans {base : Place} {root : Entry}
    (scans : disk.scanRoot? directory = some (base, root)) :
    disk.findRecordFiles? directory = some paths ↔ disk.CanListAll directory base root ∧
      recordFilesAmong directory (root.files.map Prod.fst) = paths := by
  rw [findRecordFiles?, scans]
  simp [CanListAll]

theorem findRecordFiles?_eq_some :
    disk.findRecordFiles? directory = some paths ↔
      ∃ base root, disk.scanRoot? directory = some (base, root) ∧
        disk.CanListAll directory base root ∧
        recordFilesAmong directory (root.files.map Prod.fst) = paths := by
  constructor
  · intro finds
    cases scans : disk.scanRoot? directory with
    | none => simp [findRecordFiles?, scans] at finds
    | some found => exact ⟨_, _, rfl, (findRecordFiles?_of_scans scans).mp finds⟩
  · rintro ⟨base, root, scans, lists⟩
    exact (findRecordFiles?_of_scans scans).mpr lists

def HasRecordFile (disk : FileSystem) (directory path : Path) : Prop :=
  ∃ base root, disk.scanRoot? directory = some (base, root) ∧
    ∃ place content, (place, content) ∈ root.files ∧
      directory.below place = path ∧ path.isRecordFile = true

theorem mem_findRecordFiles?
    (finds : disk.findRecordFiles? directory = some paths) :
    path ∈ paths ↔ disk.HasRecordFile directory path := by
  obtain ⟨base, root, scans, _, rfl⟩ := findRecordFiles?_eq_some.mp finds
  simp only [mem_recordFilesAmong, List.mem_map, Prod.exists, exists_and_right, exists_eq_right,
    HasRecordFile, scans, Option.some.injEq, Prod.mk.injEq]
  constructor
  · rintro ⟨place, content, found⟩
    exact ⟨base, root, ⟨rfl, rfl⟩, place, content, found⟩
  · rintro ⟨_, _, ⟨rfl, rfl⟩, place, content, found⟩
    exact ⟨place, content, found⟩

end FileSystem

end RemarkAtlas
