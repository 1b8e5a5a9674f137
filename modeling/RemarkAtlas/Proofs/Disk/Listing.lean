import RemarkAtlas.Proofs.Disk.PathOrder
import RemarkAtlas.Proofs.Disk.Scan
import RemarkAtlas.Proofs.Order.Groups
import RemarkAtlas.Proofs.Order.StableSort

/-!
Trees whose entries are listed in some order.  Whatever the order is, the record files that are
collected along it and then sorted are those that a scan finds.
-/

namespace RemarkAtlas

namespace Entry

inductive IsTree : Entry → Prop
  | file (content : Bytes) : IsTree (.file content)
  | link (target : Path) : IsTree (.link target)
  | directory {children : List (Bytes × Entry)} (distinct : (children.map Prod.fst).Nodup)
      (named : ∀ child ∈ children, IsName child.1) (below : ∀ child ∈ children, IsTree child.2) :
      IsTree (.directory children)

structure Lists (root : Entry) (listing : List (Place × Entry)) : Prop where
  once : (listing.map Prod.fst).Nodup
  mem_iff (place : Place) (entry : Entry) : (place, entry) ∈ listing ↔ root.find? place = some entry

mutual

def entries : Entry → List (Place × Entry)
  | file content => [([], file content)]
  | link target => [([], link target)]
  | directory children => ([], directory children) :: entriesBelow children

def entriesBelow : List (Bytes × Entry) → List (Place × Entry)
  | [] => []
  | (name, entry) :: rest =>
    (entries entry).map (fun (place, inner) => (name :: place, inner)) ++ entriesBelow rest

end

variable {root entry : Entry} {place : Place} {listing other : List (Place × Entry)}

theorem entriesBelow_eq (children : List (Bytes × Entry)) :
    entriesBelow children = children.flatMap fun child =>
      child.2.entries.map fun item => (child.1 :: item.1, item.2) := by
  induction children with
  | nil => rfl
  | cons child rest ih => rw [entriesBelow, ih, List.flatMap_cons]

theorem mem_entriesBelow {children : List (Bytes × Entry)} :
    (place, entry) ∈ entriesBelow children ↔
      ∃ child ∈ children, ∃ below, (below, entry) ∈ child.2.entries ∧ child.1 :: below = place := by
  simp [entriesBelow_eq]

namespace IsTree

theorem mem_entries (tree : root.IsTree) :
    (place, entry) ∈ root.entries ↔ root.find? place = some entry := by
  induction tree generalizing place with
  | file _ | link _ =>
      cases place with
      | nil => simp [entries, find?, eq_comm]
      | cons name place => simp [entries, find?_cons, child?]
  | @directory children distinct named below ih =>
      rw [entries, List.mem_cons, mem_entriesBelow]
      cases place with
      | nil => simp [find?, eq_comm]
      | cons name place =>
          have notRoot : (name :: place, entry) ≠ ([], .directory children) := by simp
          rw [find?_cons, child?, Option.bind_eq_some_iff, or_iff_right notRoot]
          constructor
          · rintro ⟨child, member, rest, listed, isPlace⟩
            obtain ⟨rfl, rfl⟩ := List.cons.inj isPlace
            exact ⟨child.2, (Groups.mem_iff_lookup distinct).mp member, (ih child member).mp listed⟩
          · rintro ⟨inner, isChild, found⟩
            have member := (Groups.mem_iff_lookup distinct).mpr isChild
            exact ⟨_, member, place, (ih _ member).mpr found, rfl⟩

theorem isName_of_find? (tree : root.IsTree) (found : root.find? place = some entry) :
    ∀ name ∈ place, IsName name := by
  induction tree generalizing place with
  | file _ | link _ =>
      cases place with
      | nil => simp
      | cons name place => simp [find?_cons, child?] at found
  | @directory children distinct named below ih =>
      cases place with
      | nil => simp
      | cons name place =>
          rw [find?_cons, child?, Option.bind_eq_some_iff] at found
          obtain ⟨inner, isChild, found⟩ := found
          have member := (Groups.mem_iff_lookup distinct).mpr isChild
          exact List.forall_mem_cons.mpr ⟨named _ member, ih _ member found⟩

theorem of_find? (tree : root.IsTree) (found : root.find? place = some entry) : entry.IsTree := by
  induction place generalizing root with
  | nil =>
      cases found
      exact tree
  | cons name place ih =>
      rw [find?_cons, Option.bind_eq_some_iff] at found
      obtain ⟨inner, isChild, found⟩ := found
      cases tree with
      | file _ | link _ => cases isChild
      | directory distinct named below =>
          exact ih (below _ ((Groups.mem_iff_lookup distinct).mpr isChild)) found

theorem nodup_entries (tree : root.IsTree) : (root.entries.map Prod.fst).Nodup := by
  induction tree with
  | file _ | link _ => simp [entries]
  | @directory children distinct named below ih =>
      rw [entries, List.map_cons, List.nodup_cons]
      refine ⟨by simp [mem_entriesBelow], ?_⟩
      rw [entriesBelow_eq, List.map_flatMap, List.nodup_flatMap]
      have places (child : Bytes × Entry) :
          (child.2.entries.map fun item => (child.1 :: item.1, item.2)).map Prod.fst =
            (child.2.entries.map Prod.fst).map (child.1 :: ·) := by simp
      simp only [places]
      constructor
      · intro child member
        exact (ih child member).map (List.cons_injective)
      · -- Places below children with different names differ in their first name.
        refine (List.pairwise_map.mp distinct).imp ?_
        intro left right different place inLeft inRight
        obtain ⟨_, _, rfl⟩ := List.mem_map.mp inLeft
        obtain ⟨_, _, same⟩ := List.mem_map.mp inRight
        exact different (List.cons.inj same).1.symm

theorem lists_entries (tree : root.IsTree) : root.Lists root.entries where
  once := tree.nodup_entries
  mem_iff _ _ := tree.mem_entries

end IsTree

namespace Lists

theorem nodup (lists : root.Lists listing) : listing.Nodup := lists.once.of_map _

/-- Two lists of one tree differ in their order only. -/
theorem perm (lists : root.Lists listing) (relists : root.Lists other) : listing.Perm other := by
  refine (List.perm_ext_iff_of_nodup lists.nodup relists.nodup).mpr ?_
  rintro ⟨place, entry⟩
  rw [lists.mem_iff, relists.mem_iff]

theorem of_perm (lists : root.Lists listing) (perm : listing.Perm other) : root.Lists other where
  once := (perm.map Prod.fst).nodup lists.once
  mem_iff place entry := perm.mem_iff.symm.trans (lists.mem_iff place entry)

end Lists

def isFile : Entry → Bool
  | file _ => true
  | _ => false

def filePlaces (listing : List (Place × Entry)) : List Place :=
  (listing.filter fun item => item.2.isFile).map Prod.fst

mutual

theorem map_files : (root : Entry) → root.files.map Prod.fst = filePlaces root.entries
  | file _ => rfl
  | link _ => rfl
  | directory children => by
      rw [files, entries, map_filesBelow children]
      rfl

theorem map_filesBelow : (children : List (Bytes × Entry)) →
    (filesBelow children).map Prod.fst = filePlaces (entriesBelow children)
  | [] => rfl
  | (name, entry) :: rest => by
      have first := congrArg (List.map (name :: ·)) (map_files entry)
      have others := map_filesBelow rest
      simp only [filePlaces, filesBelow, entriesBelow, List.map_append, List.filter_append,
        List.filter_map, List.map_map] at first others ⊢
      rw [others]
      exact congrArg (· ++ _) first

end

end Entry

section Places

variable {places others : List Place}

theorem recordFilesAmong_perm (perm : places.Perm others) (directory : Path) :
    recordFilesAmong directory places = recordFilesAmong directory others := by
  rw [recordFilesAmong, recordFilesAmong, mergeSort_compare_perm perm]

variable (named : ∀ place ∈ places, ∀ name ∈ place, IsName name) (directory : Path)
include named

/-- Sorting the paths of the record files does what sorting the places first does. -/
theorem recordFilesAmong_eq :
    recordFilesAmong directory places =
      ((places.map directory.below).filter (·.isRecordFile)).mergeSort
        fun left right => (compare left right).isLE := by
  have samePaths (left : Place) (leftMember : left ∈ places) (right : Place)
      (rightMember : right ∈ places) : (compare left right).isLE =
        (compare (directory.below left) (directory.below right)).isLE := by
    rw [Path.compare_below (named left leftMember) (named right rightMember)]
  rw [← filter_mergeSort isLE_compare_trans isLE_compare_total, ← List.map_mergeSort samePaths]
  rfl

theorem pairwise_recordFilesAmong (distinct : places.Nodup) :
    (recordFilesAmong directory places).Pairwise fun left right => compare left right = .lt := by
  refine List.Pairwise.filter _ (List.pairwise_map.mpr ?_)
  refine (pairwise_lt_mergeSort distinct).imp_of_mem ?_
  intro left right leftMember rightMember before
  rw [List.mem_mergeSort] at leftMember rightMember
  rwa [Path.compare_below (named left leftMember) (named right rightMember)]

end Places

def recordFilesOf (directory : Path) (listing : List (Place × Entry)) : List Path :=
  let files := listing.filter fun (place, entry) =>
    entry.isFile && (directory.below place).isRecordFile
  (files.map fun (place, _) => directory.below place).mergeSort
    fun left right => (compare left right).isLE

def IsRecordName (name : Bytes) : Prop :=
  ∃ text : String, name = text ∧
    (".opt-record.json".toList <:+ text.toList ∨ ".opt-record.json.gz".toList <:+ text.toList)

theorem isRecordName_iff {name : Bytes} : isRecordName name ↔ IsRecordName name := by
  rw [isRecordName, IsRecordName]
  cases decoded : Utf8.decode name with
  | none =>
      refine iff_of_false Bool.false_ne_true ?_
      rintro ⟨text, rfl, _⟩
      cases decoded.symm.trans (Utf8.decode_encode text)
  | some text =>
      obtain rfl := Utf8.encode_of_decode decoded
      simp only [recordFileEndings, List.any_cons, List.any_nil, Bool.or_false, Bool.or_eq_true,
        Text.endsWith_iff]
      constructor
      · intro ends
        exact ⟨text, rfl, ends.symm⟩
      · rintro ⟨other, same, ends⟩
        rw [Utf8.encode_injective same]
        exact ends.symm

theorem Path.isRecordFile_iff {path : Path} :
    path.isRecordFile ↔ ∃ name, path.fileName? = some name ∧ IsRecordName name := by
  rw [isRecordFile]
  cases path.fileName? <;> simp [isRecordName_iff]

structure Entry.IsScan (root : Entry) (directory : Path) (paths : List Path) : Prop where
  mem_iff (path : Path) : path ∈ paths ↔ ∃ place content,
    root.find? place = some (.file content) ∧ directory.below place = path ∧
      ∃ name, path.fileName? = some name ∧ IsRecordName name
  ascending : paths.Pairwise fun left right => compare left right = .lt

namespace Entry.Lists

variable {root : Entry} {listing : List (Place × Entry)}

theorem mem_filePlaces (lists : root.Lists listing) {place : Place} :
    place ∈ filePlaces listing ↔ ∃ content, root.find? place = some (.file content) := by
  simp only [filePlaces, List.mem_map, List.mem_filter, Prod.exists, lists.mem_iff,
    exists_and_right, exists_eq_right]
  constructor
  · rintro ⟨entry, found, isFile⟩
    cases entry with
    | file content => exact ⟨content, found⟩
    | link _ | directory _ => cases isFile
  · rintro ⟨content, found⟩
    exact ⟨_, found, rfl⟩

theorem nodup_filePlaces (lists : root.Lists listing) : (filePlaces listing).Nodup :=
  lists.once.sublist (List.filter_sublist.map Prod.fst)

theorem isName_of_mem_filePlaces (tree : root.IsTree) (lists : root.Lists listing) :
    ∀ place ∈ filePlaces listing, ∀ name ∈ place, IsName name := by
  intro place member
  obtain ⟨content, found⟩ := lists.mem_filePlaces.mp member
  exact tree.isName_of_find? found

theorem recordFilesOf_eq (tree : root.IsTree) (lists : root.Lists listing) (directory : Path) :
    recordFilesOf directory listing = recordFilesAmong directory (filePlaces listing) := by
  rw [recordFilesAmong_eq (lists.isName_of_mem_filePlaces tree)]
  simp only [recordFilesOf, filePlaces, List.filter_map, List.filter_filter, List.map_map,
    Function.comp_def, Bool.and_comm]

theorem recordFilesOf_eq_files (tree : root.IsTree) (lists : root.Lists listing)
    (directory : Path) :
    recordFilesOf directory listing = recordFilesAmong directory (root.files.map Prod.fst) := by
  have perm : (filePlaces listing).Perm (filePlaces root.entries) :=
    ((lists.perm tree.lists_entries).filter _).map _
  rw [map_files, lists.recordFilesOf_eq tree, recordFilesAmong_perm perm]

theorem isScan (tree : root.IsTree) (lists : root.Lists listing) (directory : Path) :
    root.IsScan directory (recordFilesOf directory listing) := by
  rw [lists.recordFilesOf_eq tree]
  refine ⟨fun path => ?_, ?_⟩
  · simp only [mem_recordFilesAmong, lists.mem_filePlaces, Path.isRecordFile_iff]
    exact exists_congr fun _ => exists_and_right.symm
  · exact pairwise_recordFilesAmong (lists.isName_of_mem_filePlaces tree) directory
      lists.nodup_filePlaces

end Entry.Lists

theorem Entry.IsTree.mem_files {root : Entry} (tree : root.IsTree) {place : Place} :
    place ∈ root.files.map Prod.fst ↔ ∃ content, root.find? place = some (.file content) := by
  rw [map_files, tree.lists_entries.mem_filePlaces]

end RemarkAtlas
