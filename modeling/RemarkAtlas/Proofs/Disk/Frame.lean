import RemarkAtlas.Proofs.Disk.Route

/-!
Changes within bounds.  A directory is made only where nothing was, a file is written only over
nothing or a file, and both only at places where they may be; all else stays as it was.
-/

namespace RemarkAtlas

namespace Entry

def glance? (root : Entry) (place : Place) : Option Entry := (root.find? place).map shallow

inductive ChangeAt (made written : Place → Prop) (before after : Entry) (place : Place) : Prop
  | kept (same : after.glance? place = before.glance? place)
  | made (may : made place) (free : before.glance? place = none)
      (new : after.glance? place = some (directory []))
  | written (may : written place)
      (old : ∀ entry, before.glance? place = some entry → ∃ content, entry = file content)
      (new : ∃ content, after.glance? place = some (file content))

variable {made written : Place → Prop} {before middle after root : Entry} {place : Place}

theorem ChangeAt.trans (first : ChangeAt made written before middle place)
    (second : ChangeAt made written middle after place) :
    ChangeAt made written before after place := by
  cases second with
  | kept same =>
      cases first with
      | kept earlier => exact .kept (same.trans earlier)
      | made may free new => exact .made may free (same.trans new)
      | written may old new => exact .written may old (same ▸ new)
  | made may free new =>
      cases first with
      | kept earlier => exact .made may (earlier.symm.trans free) new
      | made _ _ earlier => cases free.symm.trans earlier
      | written _ _ earlier =>
          obtain ⟨content, earlier⟩ := earlier
          cases free.symm.trans earlier
  | written may old new =>
      cases first with
      | kept earlier => exact .written may (earlier ▸ old) new
      | made _ _ earlier =>
          obtain ⟨content, isFile⟩ := old _ earlier
          cases isFile
      | written firstMay firstOld _ => exact .written firstMay firstOld new

theorem glance?_put_same {new : Entry} (takes : Takes root place) :
    (put new place root).glance? place = some new.shallow := by
  rw [glance?, find?_put_same takes, Option.map_some]

theorem glance?_put_other {new : Entry} {other : Place} (takes : Takes root place)
    (childless : ∀ name, new.child? name = none) (different : other ≠ place) :
    (put new place root).glance? other = root.glance? other :=
  find?_put_other takes childless different

theorem glance?_eq_directory :
    root.glance? place = some (directory []) ↔ root.IsDirectory place := by
  rw [glance?, IsDirectory, Option.map_eq_some_iff]
  constructor
  · rintro ⟨entry, found, isDirectory⟩
    cases entry with
    | file _ => cases isDirectory
    | link _ => cases isDirectory
    | directory children => exact ⟨children, found⟩
  · rintro ⟨children, found⟩
    exact ⟨_, found, rfl⟩

theorem glance?_eq_link {target : Path} :
    root.glance? place = some (link target) ↔ root.find? place = some (link target) := by
  rw [glance?, Option.map_eq_some_iff]
  constructor
  · rintro ⟨entry, found, isLink⟩
    cases entry with
    | file _ => cases isLink
    | link _ =>
        cases isLink
        exact found
    | directory _ => cases isLink
  · intro found
    exact ⟨_, found, rfl⟩

end Entry

namespace FileSystem

structure ChangesOnly (made written : Place → Prop) (before after : FileSystem) : Prop where
  workingDirectory : after.workingDirectory = before.workingDirectory
  change (place : Place) : Entry.ChangeAt made written before.root after.root place

variable {made written : Place → Prop} {before middle after disk : FileSystem} {path : Path}
  {content : Bytes}

namespace ChangesOnly

theorem refl (disk : FileSystem) : ChangesOnly made written disk disk :=
  ⟨rfl, fun _ => .kept rfl⟩

theorem trans (first : ChangesOnly made written before middle)
    (second : ChangesOnly made written middle after) : ChangesOnly made written before after :=
  ⟨second.workingDirectory.trans first.workingDirectory,
    fun place => (first.change place).trans (second.change place)⟩

theorem kept (changes : ChangesOnly made written before after) {place : Place}
    (notMade : ¬ made place) (notWritten : ¬ written place) :
    after.root.glance? place = before.root.glance? place := by
  cases changes.change place with
  | kept same => exact same
  | made may _ _ => exact absurd may notMade
  | written may _ _ => exact absurd may notWritten

theorem sound (changes : ChangesOnly made written before after) (sound : before.IsSound) :
    after.IsSound := by
  rw [IsSound, changes.workingDirectory]
  have isDirectory := Entry.glance?_eq_directory.mpr sound
  cases changes.change before.workingDirectory with
  | kept same => exact Entry.glance?_eq_directory.mp (same.trans isDirectory)
  | made _ _ new => exact Entry.glance?_eq_directory.mp new
  | written _ old _ =>
      obtain ⟨content, isFile⟩ := old _ isDirectory
      cases isFile

theorem startOf (changes : ChangesOnly made written before after) (path : Path) :
    after.startOf path = before.startOf path := by
  rw [FileSystem.startOf, FileSystem.startOf, changes.workingDirectory]

theorem placeOf (changes : ChangesOnly made written before after) (path : Path) :
    after.placeOf path = before.placeOf path := by
  rw [FileSystem.placeOf, FileSystem.placeOf, changes.startOf]

theorem unlinked (changes : ChangesOnly made written before after)
    (unlinked : before.Unlinked path) : after.Unlinked path := by
  rintro place ⟨outer, isPrefix, rfl⟩ target isLink
  rw [changes.startOf] at isLink
  have noLink := unlinked _ ⟨outer, isPrefix, rfl⟩ target
  rw [ne_eq, ← Entry.glance?_eq_link] at noLink
  rw [← Entry.glance?_eq_link] at isLink
  cases changes.change (goAlong (before.startOf path) outer) with
  | kept same => exact noLink (same.symm.trans isLink)
  | made _ _ new => cases new.symm.trans isLink
  | written _ _ new =>
      obtain ⟨content, isFile⟩ := new
      cases isFile.symm.trans isLink

end ChangesOnly

theorem put_changesOnly {place : Place} {new : Entry} (takes : disk.root.Takes place)
    (childless : ∀ name, new.child? name = none)
    (change : Entry.ChangeAt made written disk.root (disk.put place new).root place) :
    ChangesOnly made written disk (disk.put place new) := by
  refine ⟨rfl, fun other => ?_⟩
  by_cases same : other = place
  · rw [same]
    exact change
  · exact .kept (Entry.glance?_put_other takes childless same)

theorem write?_changesOnly (sound : disk.IsSound) (unlinked : disk.Unlinked path)
    (may : written (disk.placeOf path)) (writes : disk.write? path content = some after) :
    ChangesOnly made written disk after := by
  obtain ⟨spot, leads, rfl⟩ := write?_eq_some writes
  obtain ⟨isPlace, found⟩ := spot_of_lookup unlinked leads
  have takes := takes_of_lookup sound leads
  refine put_changesOnly takes (Entry.child?_file content) (.written (isPlace ▸ may) ?_ ?_)
  · intro entry isEntry
    rw [Entry.glance?, found, Option.map_map, Option.map_eq_some_iff] at isEntry
    obtain ⟨old, _, rfl⟩ := isEntry
    exact ⟨old, rfl⟩
  · exact ⟨content, Entry.glance?_put_same takes⟩

theorem withoutFinalSlashes_unlinked (unlinked : disk.Unlinked path) :
    disk.Unlinked (withoutFinalSlashes path) := by
  obtain ⟨sameNames, sameStart⟩ := Path.names_withoutFinalSlashes path
  intro place passes
  exact unlinked place (passes.outer (sameNames ▸ List.prefix_rfl) sameStart)

def MayMake (made : Place → Prop) (disk : FileSystem) (path : Path) : Prop :=
  disk.Unlinked path ∧ made (disk.placeOf path)

theorem ChangesOnly.mayMake (changes : ChangesOnly made written before after)
    (may : before.MayMake made path) : after.MayMake made path :=
  ⟨changes.unlinked may.1, changes.placeOf path ▸ may.2⟩

theorem makeDirectory_changesOnly (sound : disk.IsSound) (may : disk.MayMake made path) :
    ChangesOnly made written disk (disk.makeDirectory path).2 := by
  rw [makeDirectory]
  cases leads : disk.lookup (withoutFinalSlashes path) false with
  | absent place =>
      have isSpot : (disk.lookup (withoutFinalSlashes path) false).spot? = some ⟨place, none⟩ := by
        rw [leads]
        rfl
      have takes := takes_of_lookup sound isSpot
      obtain ⟨sameNames, sameStart⟩ := Path.names_withoutFinalSlashes path
      obtain ⟨isPlace, free⟩ := spot_of_lookup (withoutFinalSlashes_unlinked may.1) isSpot
      have samePlace : place = disk.placeOf path := by
        rw [placeOf, startOf, sameNames, sameStart] at isPlace
        exact isPlace
      refine put_changesOnly takes (fun _ => rfl) (.made ?_ ?_ (Entry.glance?_put_same takes))
      · exact samePlace ▸ may.2
      · rw [Entry.glance?, free]
        rfl
  | _ => exact .refl disk

theorem makeDirectories_changesOnly {paths : List Path} (sound : disk.IsSound)
    (may : ∀ path ∈ paths, disk.MayMake made path) :
    ChangesOnly made written disk (makeDirectories paths disk).2 := by
  induction paths generalizing disk with
  | nil => exact .refl disk
  | cons path outer ih =>
      obtain ⟨mayMake, mayMakeOuter⟩ := List.forall_mem_cons.mp may
      have first : ChangesOnly made written disk (disk.makeDirectory path).2 :=
        makeDirectory_changesOnly sound mayMake
      rw [makeDirectories]
      split
      case isTrue => exact .refl disk
      case isFalse =>
        generalize disk.makeDirectory path = attempt at first ⊢
        obtain ⟨lookup, middle⟩ := attempt
        cases lookup with
        | missing =>
            dsimp only at first ⊢
            have others := ih (first.sound sound) fun path member =>
              first.mayMake (mayMakeOuter path member)
            generalize makeDirectories outer middle = outerMade at others ⊢
            obtain ⟨isMade, after⟩ := outerMade
            have both := first.trans others
            have last : ChangesOnly made written after (after.makeDirectory path).2 :=
              makeDirectory_changesOnly (both.sound sound) (both.mayMake mayMake)
            cases isMade with
            | false => exact both
            | true =>
                -- Whatever the second attempt comes to, its disk is the last one.
                dsimp only
                generalize after.makeDirectory path = retry at last ⊢
                obtain ⟨second, final⟩ := retry
                have all := both.trans last
                cases second <;> exact all
        | _ => exact first

theorem createDirectory_changesOnly (sound : disk.IsSound) (unlinked : disk.Unlinked path)
    (may : ∀ place, disk.Passes path place → made place) :
    ChangesOnly made written disk (disk.createDirectory path).2 := by
  refine makeDirectories_changesOnly sound fun ancestor member => ?_
  obtain ⟨isPrefix, sameStart⟩ := Path.ancestorsUpTo_isPrefix _ ancestor member
  constructor
  · intro place passes
    exact unlinked place (passes.outer isPrefix sameStart)
  · exact may _ ((passes_placeOf disk ancestor).outer isPrefix sameStart)

end FileSystem

end RemarkAtlas
