import RemarkAtlas.Proofs.Disk.Listing
import RemarkAtlas.Proofs.Load.RecordFile

/-!
Loading all record files below a directory.  The order in which the entries of the directory are
listed decides neither which files are loaded nor which fault is reported.
-/

namespace RemarkAtlas

namespace Except

variable {Fault Other Value Result : Type} {result : Except Fault Value}

theorem exists_error_iff : (∃ fault, result = .error fault) ↔ ¬ ∃ value, result = .ok value := by
  cases result <;> simp

theorem bind_eq_error {next : Value → Except Fault Result} {fault : Fault} :
    result >>= next = .error fault ↔
      result = .error fault ∨ ∃ value, result = .ok value ∧ next value = .error fault := by
  cases result <;> simp [bind, Except.bind]

@[simp] theorem mapError_eq_error {change : Fault → Other} {fault : Other} :
    result.mapError change = .error fault ↔
      ∃ original, result = .error original ∧ change original = fault := by
  cases result <;> simp [Except.mapError]

@[simp] theorem mapError_eq_ok {change : Fault → Other} {value : Value} :
    result.mapError change = .ok value ↔ result = .ok value := by
  cases result <;> simp [Except.mapError]

end Except

namespace RecordFile

open Entry (IsTree)

theorem loadUnits_accepts {disk : FileSystem} {options : Document.Options} {skipInvalid : Bool}
    {paths : List Path} :
    (∃ units, loadUnits disk options skipInvalid paths = .ok units) ↔
      skipInvalid = true ∨ ∀ path ∈ paths, ∃ unit, loadUnit disk options path = .ok unit := by
  induction paths with
  | nil => simp [loadUnits]
  | cons path rest ih =>
      rw [List.forall_mem_cons, loadUnits]
      cases loads : loadUnit disk options path with
      | ok unit =>
          have allLoad : (∃ units, (loadUnits disk options skipInvalid rest >>= fun units =>
              pure (unit :: units)) = .ok units) ↔
              ∃ units, loadUnits disk options skipInvalid rest = .ok units := by
            cases loadUnits disk options skipInvalid rest <;> simp [bind, Except.bind, pure,
              Except.pure]
          simpa using allLoad.trans ih
      | error fault =>
          cases skipInvalid with
          | true => simpa using ih
          | false => simp

def HasInvalid (disk : FileSystem) (options : Document.Options) (directory : Path) : Prop :=
  ∃ path fault, disk.HasRecordFile directory path ∧ loadUnit disk options path = .error fault

theorem loadUnits_fails {disk : FileSystem} {options : Document.Options} {skipInvalid : Bool}
    {directory : Path} {paths : List Path} (finds : findFiles disk directory = .ok paths) :
    (∃ fault, loadUnits disk options skipInvalid paths = .error fault) ↔
      skipInvalid = false ∧ HasInvalid disk options directory := by
  have isFound (path : Path) : path ∈ paths ↔ disk.HasRecordFile directory path :=
    FileSystem.mem_findRecordFiles? (findFiles_eq_ok.mp finds)
  rw [Except.exists_error_iff, loadUnits_accepts, not_or, Bool.not_eq_true]
  refine and_congr_right fun _ => ?_
  simp only [HasInvalid, ← isFound, exists_and_left, Except.exists_error_iff, Classical.not_forall,
    exists_prop]

/-- What comes of loading files in their order: the unit of each of them, or the fault of the
smallest invalid one. -/
inductive LoadsInOrder (disk : FileSystem) (options : Document.Options) (paths : List Path) :
    Except LoadFault (List CompilationUnit) → Prop
  | units {units : List CompilationUnit}
      (loads : List.Forall₂ (fun path unit => loadUnit disk options path = .ok unit) paths units) :
      LoadsInOrder disk options paths (.ok units)
  | fault {path : Path} {fault : LoadFault} (member : path ∈ paths)
      (fails : loadUnit disk options path = .error fault)
      (smallest : ∀ other ∈ paths, ∀ otherFault, loadUnit disk options other = .error otherFault →
        (compare path other).isLE) :
      LoadsInOrder disk options paths (.error fault)

theorem loadUnits_inOrder (disk : FileSystem) (options : Document.Options) {paths : List Path}
    (ascending : paths.Pairwise fun left right => compare left right = .lt) :
    LoadsInOrder disk options paths (loadUnits disk options false paths) := by
  induction paths with
  | nil => exact .units .nil
  | cons path rest ih =>
      obtain ⟨first, restAscending⟩ := List.pairwise_cons.mp ascending
      rw [loadUnits]
      cases loads : loadUnit disk options path with
      | error fault =>
          refine .fault List.mem_cons_self loads ?_
          intro other member _ _
          rcases List.mem_cons.mp member with rfl | later
          · exact Std.ReflOrd.isLE_rfl
          · exact Ordering.isLE_of_eq_lt (first other later)
      | ok unit =>
          have restLoads := ih restAscending
          generalize loadUnits disk options false rest = outcome at restLoads
          cases restLoads with
          | units restUnits => exact .units (.cons loads restUnits)
          | fault member fails smallest =>
              refine .fault (List.mem_cons_of_mem path member) fails ?_
              intro other otherMember otherFault otherFails
              rcases List.mem_cons.mp otherMember with rfl | later
              · cases loads.symm.trans otherFails
              · exact smallest other later otherFault otherFails

variable {disk : FileSystem} {directory : Path} {base : Place} {root : Entry}

/-- However the entries below a directory are listed, the same record files are found, and loading
them gives the same units or the same fault; no file is found if a directory cannot be listed. -/
theorem findUnits_inOrder {listing relisting : List (Place × Entry)} (options : Document.Options)
    (scans : disk.scanRoot? directory = some (base, root)) (tree : root.IsTree)
    (lists : root.Lists listing) (relists : root.Lists relisting) :
    (disk.CanListAll directory base root →
      ∃ paths, disk.findRecordFiles? directory = some paths ∧ root.IsScan directory paths ∧
        recordFilesOf directory listing = paths ∧ recordFilesOf directory relisting = paths ∧
        ∃ loaded, LoadsInOrder disk options paths loaded ∧
          findUnits disk options directory = loaded ∧
          loadUnits disk options false (recordFilesOf directory listing) = loaded ∧
          loadUnits disk options false (recordFilesOf directory relisting) = loaded) ∧
      (¬ disk.CanListAll directory base root →
        findUnits disk options directory = .error (.unscannable directory)) := by
  have inDirectory := lists.recordFilesOf_eq_files tree directory
  constructor
  · intro listable
    have finds : disk.findRecordFiles? directory = some (recordFilesOf directory listing) :=
      (FileSystem.findRecordFiles?_of_scans scans).mpr ⟨listable, inDirectory.symm⟩
    have same : recordFilesOf directory relisting = recordFilesOf directory listing := by
      rw [inDirectory, relists.recordFilesOf_eq_files tree]
    have isScan := lists.isScan tree directory
    have loads := loadUnits_inOrder disk options isScan.ascending
    refine ⟨_, finds, isScan, rfl, same, _, loads, ?_, rfl, by rw [same]⟩
    rw [findUnits, findFiles_eq_ok.mpr finds]
    rfl
  · intro notListable
    have fails : disk.findRecordFiles? directory = none := by
      refine Option.eq_none_iff_forall_ne_some.mpr fun paths finds => ?_
      exact notListable ((FileSystem.findRecordFiles?_of_scans scans).mp finds).1
    rw [findUnits, findFiles, fails]
    rfl

def jumbledTree : Entry :=
  .directory
    [("dir.opt-record.json", .directory [("notes.txt", .file [])]),
      ("sub", .directory
        [("link.opt-record.json", .link ⟨"z.opt-record.json"⟩), ("z.opt-record.json", .file [])]),
      ("sub-x", .directory [("m.opt-record.json.gz", .file [0x1f, 0x8b, 0x08])])]

def jumbledDisk : FileSystem where
  root := .directory [("build", jumbledTree)]
  workingDirectory := []

theorem jumbledTree_isTree : jumbledTree.IsTree := by
  have notes : IsTree (.directory [("notes.txt", .file [])]) :=
    .directory (by decide) (by decide) (List.forall_mem_singleton.mpr (.file _))
  have plain : IsTree (.directory
      [("link.opt-record.json", .link ⟨"z.opt-record.json"⟩), ("z.opt-record.json", .file [])]) :=
    .directory (by decide) (by decide) (List.forall_mem_cons.mpr
      ⟨.link _, List.forall_mem_singleton.mpr (.file _)⟩)
  have packed : IsTree (.directory [("m.opt-record.json.gz", .file [0x1f, 0x8b, 0x08])]) :=
    .directory (by decide) (by decide) (List.forall_mem_singleton.mpr (.file _))
  exact .directory (by decide) (by decide) (List.forall_mem_cons.mpr ⟨notes,
    List.forall_mem_cons.mpr ⟨plain, List.forall_mem_singleton.mpr packed⟩⟩)

theorem jumbledDisk_inOrder :
    jumbledDisk.scanRoot? ⟨"build"⟩ = some ((["build"] : Place), jumbledTree) ∧ jumbledTree.IsTree ∧
      jumbledDisk.CanListAll ⟨"build"⟩ ["build"] jumbledTree ∧
      jumbledTree.Lists jumbledTree.entries ∧ jumbledTree.Lists jumbledTree.entries.reverse ∧
      recordFilesOf ⟨"build"⟩ jumbledTree.entries.reverse =
        [⟨"build/sub/z.opt-record.json"⟩, ⟨"build/sub-x/m.opt-record.json.gz"⟩] ∧
      compare "build/sub/z.opt-record.json" "build/sub-x/m.opt-record.json.gz" = .gt ∧
      loadUnits jumbledDisk {} false (recordFilesOf ⟨"build"⟩ jumbledTree.entries.reverse) =
        .error (.notJson ⟨"build/sub/z.opt-record.json"⟩) := by
  have tree := jumbledTree_isTree
  have lists := tree.lists_entries
  have relists := lists.of_perm (List.reverse_perm _).symm
  have scans : jumbledDisk.scanRoot? ⟨"build"⟩ = some ((["build"] : Place), jumbledTree) := rfl
  have listable : jumbledDisk.CanListAll ⟨"build"⟩ ["build"] jumbledTree := by
    rw [FileSystem.CanListAll]
    decide
  have sorted : (jumbledTree.files.map Prod.fst).mergeSort
      (fun left right => (compare left right).isLE) = jumbledTree.files.map Prod.fst :=
    List.mergeSort_of_pairwise (by decide)
  have isFound : jumbledDisk.findRecordFiles? ⟨"build"⟩ =
      some [⟨"build/sub/z.opt-record.json"⟩, ⟨"build/sub-x/m.opt-record.json.gz"⟩] := by
    refine (FileSystem.findRecordFiles?_of_scans scans).mpr ⟨listable, ?_⟩
    rw [recordFilesAmong, sorted]
    rfl
  obtain ⟨paths, finds, _, _, relisted, loaded, _, loads, _, reloads⟩ :=
    (findUnits_inOrder {} scans tree lists relists).1 listable
  refine ⟨scans, tree, listable, lists, relists, ?_, by decide, ?_⟩
  · rw [relisted]
    exact Option.some.inj (finds.symm.trans isFound)
  · rw [reloads, ← loads, findUnits, findFiles_eq_ok.mpr isFound]
    rfl

/-- The scan succeeds and finds every file whose name ends in the bytes of one of the two endings.
-/
def FindsByBytes (disk : FileSystem) (directory : Path) (root : Entry) : Prop :=
  ∃ paths, disk.findRecordFiles? directory = some paths ∧
    ∀ path, path ∈ paths ↔ ∃ place content,
      root.find? place = some (.file content) ∧ directory.below place = path ∧
        ∃ name, path.fileName? = some name ∧
          (Utf8.encode ".opt-record.json" <:+ name ∨ Utf8.encode ".opt-record.json.gz" <:+ name)

/-- No text begins with this byte. -/
def garbledName : Bytes := 0xff :: Utf8.encode ".opt-record.json"

def garbledTree : Entry := .directory [(garbledName, .file [])]

def longName : Bytes := List.replicate 255 0x61

def deepTree : Nat → Entry
  | 0 => .directory [("a.opt-record.json", .file [])]
  | depth + 1 => .directory [(longName, deepTree depth)]

theorem isTree_deepTree (depth : Nat) : (deepTree depth).IsTree := by
  have isName : IsName longName := by decide +kernel
  induction depth with
  | zero => exact .directory (by decide) (by decide) (List.forall_mem_singleton.mpr (.file _))
  | succ depth ih =>
      exact .directory (by simp) (List.forall_mem_singleton.mpr isName)
        (List.forall_mem_singleton.mpr ih)

def buildDisk (tree : Entry) : FileSystem where
  root := .directory [("build", tree)]
  workingDirectory := []

/-- A name that is not a text is passed over, and a scan that gets too deep fails. -/
theorem not_findsByBytes :
    (buildDisk garbledTree).scanRoot? ⟨"build"⟩ = some ((["build"] : Place), garbledTree) ∧
    garbledTree.IsTree ∧ ¬ FindsByBytes (buildDisk garbledTree) ⟨"build"⟩ garbledTree ∧
    (buildDisk (deepTree 16)).scanRoot? ⟨"build"⟩ = some ((["build"] : Place), deepTree 16) ∧
    (deepTree 16).IsTree ∧ ¬ FindsByBytes (buildDisk (deepTree 16)) ⟨"build"⟩ (deepTree 16) := by
  have garbledIsTree : garbledTree.IsTree :=
    .directory (by decide) (List.forall_mem_singleton.mpr (by decide))
      (List.forall_mem_singleton.mpr (.file _))
  refine ⟨rfl, garbledIsTree, ?_, rfl, isTree_deepTree 16, ?_⟩
  · rintro ⟨paths, finds, mem_iff⟩
    have nothing : (buildDisk garbledTree).findRecordFiles? ⟨"build"⟩ = some [] := by decide +kernel
    obtain rfl := Option.some.inj (nothing.symm.trans finds)
    refine List.not_mem_nil ((mem_iff _).mpr ⟨[garbledName], [], rfl, rfl, garbledName, ?_, ?_⟩)
    · decide
    · exact Or.inl (List.suffix_cons _ _)
  · rintro ⟨paths, finds, _⟩
    have fails : (buildDisk (deepTree 16)).findRecordFiles? ⟨"build"⟩ = none := by decide +kernel
    rw [fails] at finds
    cases finds

end RecordFile

end RemarkAtlas
