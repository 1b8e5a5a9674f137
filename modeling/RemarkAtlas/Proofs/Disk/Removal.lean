import RemarkAtlas.Proofs.Disk.Frame
import RemarkAtlas.Proofs.Disk.Listing

/-!
Trees without some of their files.  Nothing else changes: at every other place there is what was
there before, and the files that are left come in the same order.
-/

namespace RemarkAtlas.Entry

mutual

def without (gone : Place → Bool) : Entry → Entry
  | directory children => directory (withoutBelow gone children)
  | other => other

def withoutBelow (gone : Place → Bool) : List (Bytes × Entry) → List (Bytes × Entry)
  | [] => []
  | (name, entry) :: rest =>
    if entry.isFile && gone [name] then withoutBelow gone rest
    else (name, without (fun place => gone (name :: place)) entry) :: withoutBelow gone rest

end

def left? (gone : Place → Bool) (place : Place) (entry : Entry) : Option Entry :=
  if entry.isFile && gone place then none
  else some (entry.without fun inner => gone (place ++ inner))

theorem lookup_withoutBelow (gone : Place → Bool) (name : Bytes)
    {children : List (Bytes × Entry)} (distinct : (children.map Prod.fst).Nodup) :
    (withoutBelow gone children).lookup name =
      (children.lookup name).bind (left? gone [name]) := by
  induction children with
  | nil => rfl
  | cons child rest ih =>
      obtain ⟨other, entry⟩ := child
      obtain ⟨notLater, restDistinct⟩ := List.nodup_cons.mp distinct
      rw [withoutBelow]
      by_cases same : name = other
      · subst same
        have absent : rest.lookup name = none := by
          refine List.lookup_eq_none_iff.mpr fun child member => bne_iff_ne.mpr ?_
          rintro rfl
          exact notLater (List.mem_map.mpr ⟨child, member, rfl⟩)
        rw [List.lookup_cons_self, Option.bind_some, left?]
        split
        · rw [ih restDistinct, absent]
          rfl
        · rw [List.lookup_cons_self]
          rfl
      · rw [List.lookup_cons, beq_false_of_ne same, ← ih restDistinct]
        split
        · rfl
        · rw [List.lookup_cons, beq_false_of_ne same]

variable {root : Entry} {gone : Place → Bool} {place : Place}

theorem left?_file (content : Bytes) :
    (file content).left? gone place = if gone place then none else some (file content) := by
  rw [left?]
  rfl

/-- Below a file that goes there was nothing. -/
theorem find?_left? {name : Bytes} {inner : Entry}
    (found : ∀ gone : Place → Bool, (inner.isFile = true → gone [] = false) →
      (inner.without gone).find? place = (inner.find? place).bind (left? gone place)) :
    (left? gone [name] inner).bind (find? place) =
      (inner.find? place).bind (left? gone (name :: place)) := by
  rw [left?]
  split
  case isTrue goes =>
    obtain ⟨isFile, isGone⟩ := Bool.and_eq_true_iff.mp goes
    cases inner with
    | file content =>
        cases place with
        | nil => simp [find?, left?_file, isGone]
        | cons next place => simp [find?_cons, child?]
    | link _ | directory _ => cases isFile
  case isFalse stays =>
    rw [Option.bind_some]
    exact found (fun inner => gone ([name] ++ inner)) fun isFile => by simpa [isFile] using stays

theorem find?_without (tree : root.IsTree) (stays : root.isFile = true → gone [] = false)
    (place : Place) :
    (root.without gone).find? place = (root.find? place).bind (left? gone place) := by
  induction tree generalizing gone place with
  | file content =>
      cases place with
      | nil => simp [without, find?, left?_file, stays rfl]
      | cons name place => simp [without, find?_cons, child?]
  | link target => cases place <;> simp [without, find?, child?, left?, isFile]
  | @directory children distinct named below ih =>
      cases place with
      | nil => simp [find?, left?, isFile]
      | cons name place =>
          rw [without, find?_cons, find?_cons, child?, child?, lookup_withoutBelow gone name distinct,
            Option.bind_assoc, Option.bind_assoc]
          refine Option.bind_congr fun inner isChild => ?_
          have member := (Groups.mem_iff_lookup distinct).mpr isChild
          exact find?_left? fun gone stays => ih _ member stays place

mutual

theorem files_without (gone : Place → Bool) : (root : Entry) →
    (root.isFile = true → gone [] = false) →
    (root.without gone).files = root.files.filter fun item => !gone item.1
  | file content, stays => by simp [without, files, stays rfl]
  | link _, _ => rfl
  | directory children, _ => filesBelow_without gone children

theorem filesBelow_without (gone : Place → Bool) : (children : List (Bytes × Entry)) →
    filesBelow (withoutBelow gone children) =
      (filesBelow children).filter fun item => !gone item.1
  | [] => rfl
  | (name, entry) :: rest => by
      have others := filesBelow_without gone rest
      rw [withoutBelow, filesBelow, List.filter_append, List.filter_map, ← others]
      split
      case isTrue goes =>
        obtain ⟨isFile, isGone⟩ := Bool.and_eq_true_iff.mp goes
        cases entry with
        | file content => simp [files, isGone]
        | link _ | directory _ => cases isFile
      case isFalse stays =>
        have below := files_without (fun inner => gone (name :: inner)) entry
          fun isFile => by simpa [isFile] using stays
        rw [filesBelow, below]
        rfl

end

mutual

theorem directories_without (gone : Place → Bool) : (root : Entry) →
    (root.without gone).directories = root.directories
  | file _ => rfl
  | link _ => rfl
  | directory children => by rw [without, directories, directories, directoriesBelow_without]

theorem directoriesBelow_without (gone : Place → Bool) : (children : List (Bytes × Entry)) →
    directoriesBelow (withoutBelow gone children) = directoriesBelow children
  | [] => rfl
  | (name, entry) :: rest => by
      have others := directoriesBelow_without gone rest
      rw [withoutBelow, directoriesBelow]
      split
      case isTrue goes =>
        -- A file has no directories in it.
        cases entry with
        | file content => exact others
        | link _ | directory _ => cases goes
      case isFalse stays => rw [directoriesBelow, directories_without _ entry, others]

end

theorem shallow_without (entry : Entry) : (entry.without gone).shallow = entry.shallow := by
  cases entry <;> rfl

end RemarkAtlas.Entry

namespace RemarkAtlas.FileSystem

structure Lacks (gone : Place → Bool) (disk other : FileSystem) : Prop where
  sound : disk.IsSound
  workingDirectory : other.workingDirectory = disk.workingDirectory
  limits : other.limits = disk.limits
  file {place : Place} (isGone : gone place = true) :
    ∃ content, disk.root.find? place = some (.file content)
  absent {place : Place} (isGone : gone place = true) : other.root.find? place = none
  kept {place : Place} (stays : gone place = false) :
    other.root.glance? place = disk.root.glance? place

def without (gone : Place → Bool) (disk : FileSystem) : FileSystem :=
  { disk with root := disk.root.without gone }

/-- The root is no file, so it is never removed. -/
theorem IsSound.root_stays {disk : FileSystem} (sound : disk.IsSound) (gone : Place → Bool) :
    disk.root.isFile = true → gone [] = false := by
  intro isFile
  obtain ⟨children, isDirectory⟩ := sound.outermost
  rw [Option.some.inj isDirectory] at isFile
  cases isFile

theorem lacks_without {disk : FileSystem} {gone : Place → Bool} (sound : disk.IsSound)
    (tree : disk.root.IsTree)
    (files : ∀ place, gone place = true → ∃ content, disk.root.find? place = some (.file content)) :
    Lacks gone disk (disk.without gone) := by
  have finds := Entry.find?_without tree (sound.root_stays gone)
  refine ⟨sound, rfl, rfl, files _, fun {place} isGone => ?_, fun {place} stays => ?_⟩
  · obtain ⟨content, isFile⟩ := files place isGone
    rw [without, finds place, isFile, Option.bind_some, Entry.left?_file, if_pos isGone]
  · rw [without, Entry.glance?, Entry.glance?, finds place]
    cases disk.root.find? place with
    | none => rfl
    | some entry => simp [Entry.left?, stays, Entry.shallow_without]

end RemarkAtlas.FileSystem
