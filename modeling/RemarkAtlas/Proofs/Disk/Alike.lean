import RemarkAtlas.Proofs.Disk.Writing

/-!
Two disks side by side.  They have the same directories, links and files, while some of the files
may differ in their contents.  Every path leads to the same place on both, so the same changes keep
them alike, and no file begins to differ.
-/

namespace RemarkAtlas

namespace Entry

def outline : Entry → Entry
  | file _ => file []
  | link target => link target
  | directory _ => directory []

theorem outline_shallow (entry : Entry) : entry.shallow.outline = entry.outline := by
  cases entry <;> rfl

def Within (root other : Entry) : Prop :=
  ∀ ⦃place entry⦄, root.find? place = some entry →
    ∃ counterpart, other.find? place = some counterpart ∧ counterpart.outline = entry.outline

namespace Within

variable {root other after : Entry} {place : Place}

theorem refl (root : Entry) : Within root root := fun _ entry found => ⟨entry, found, rfl⟩

theorem trans (first : Within root other) (second : Within other after) : Within root after := by
  intro place entry found
  obtain ⟨middle, middleFound, sameMiddle⟩ := first found
  obtain ⟨last, lastFound, sameLast⟩ := second middleFound
  exact ⟨last, lastFound, sameLast.trans sameMiddle⟩

theorem file (within : Within root other) {content : Bytes}
    (found : root.find? place = some (.file content)) :
    ∃ content, other.find? place = some (.file content) := by
  obtain ⟨counterpart, found, alike⟩ := within found
  cases counterpart with
  | file content => exact ⟨content, found⟩
  | link _ => cases alike
  | directory _ => cases alike

theorem link (within : Within root other) {target : Path}
    (found : root.find? place = some (.link target)) :
    other.find? place = some (.link target) := by
  obtain ⟨counterpart, found, alike⟩ := within found
  cases counterpart with
  | file _ => cases alike
  | link _ =>
      cases alike
      exact found
  | directory _ => cases alike

theorem isDirectory (within : Within root other) (found : root.IsDirectory place) :
    other.IsDirectory place := by
  obtain ⟨children, found⟩ := found
  obtain ⟨counterpart, found, alike⟩ := within found
  cases counterpart with
  | file _ => cases alike
  | link _ => cases alike
  | directory children => exact ⟨children, found⟩

end Within

/-- Nothing is taken away by putting a file in the place of a file, or anything in a free place. -/
theorem within_put {root new : Entry} {place : Place} (takes : root.Takes place)
    (childless : ∀ name, new.child? name = none)
    (fits : ∀ old, root.find? place = some old → new.outline = old.outline) :
    Within root (put new place root) := by
  intro other entry found
  by_cases here : other = place
  · subst here
    exact ⟨new, find?_put_same takes new, fits entry found⟩
  · have kept := congrArg (Option.map outline) (find?_put_other takes childless here)
    simp only [Option.map_map, Function.comp_def, outline_shallow] at kept
    rw [found, Option.map_some] at kept
    exact Option.map_eq_some_iff.mp kept

structure SameOutline (root other : Entry) : Prop where
  within : Within root other
  absent {place : Place} (free : root.find? place = none) : other.find? place = none

theorem sameOutline_overwrite {root : Entry} {place : Place} {old : Bytes}
    (isFile : root.find? place = some (.file old)) (content : Bytes) :
    SameOutline root (Entry.put (.file content) place root) where
  within := by
    refine within_put (takes_of_file isFile) (child?_file content) fun found isFound => ?_
    obtain rfl := Option.some.inj (isFile.symm.trans isFound)
    rfl
  absent := by
    intro other free
    have apart : other ≠ place := by
      rintro rfl
      exact absurd (free.symm.trans isFile) (by simp)
    have kept := find?_put_other (takes_of_file isFile) (child?_file content) apart
    rw [free] at kept
    exact Option.map_eq_none_iff.mp kept

theorem SameOutline.put {root other new : Entry} {place : Place} (same : SameOutline root other)
    (takes : root.Takes place) (otherTakes : other.Takes place)
    (childless : ∀ name, new.child? name = none) :
    SameOutline (Entry.put new place root) (Entry.put new place other) := by
  have outlines : ∀ found, ((Entry.put new place root).find? found).map outline =
      ((Entry.put new place other).find? found).map outline := by
    intro found
    by_cases here : found = place
    · rw [here, find?_put_same takes, find?_put_same otherTakes]
    · have kept := congrArg (Option.map outline) (find?_put_other takes childless here)
      have otherKept := congrArg (Option.map outline) (find?_put_other otherTakes childless here)
      simp only [Option.map_map, Function.comp_def, outline_shallow] at kept otherKept
      rw [kept, otherKept]
      cases isFound : root.find? found with
      | none => rw [same.absent isFound]
      | some entry =>
          obtain ⟨counterpart, there, sameOutline⟩ := same.within isFound
          rw [there, Option.map_some, Option.map_some, sameOutline]
  constructor
  · intro found entry isFound
    have outline := outlines found
    rw [isFound] at outline
    exact Option.map_eq_some_iff.mp outline.symm
  · intro found absent
    have outline := outlines found
    rw [absent] at outline
    exact Option.map_eq_none_iff.mp outline.symm

end Entry

namespace Lookup

inductive Alike (root other : Entry) : Lookup → Lookup → Prop
  | found {place : Place} {entry counterpart : Entry} (here : root.find? place = some entry)
      (there : other.find? place = some counterpart) :
      Alike root other (.found place entry) (.found place counterpart)
  | absent {place : Place} (here : root.find? place = none) (there : other.find? place = none) :
      Alike root other (.absent place) (.absent place)
  | missing : Alike root other .missing .missing
  | blocked : Alike root other .blocked .blocked

inductive SameKind : Lookup → Lookup → Prop
  | found {place otherPlace : Place} {entry counterpart : Entry} :
      SameKind (.found place entry) (.found otherPlace counterpart)
  | absent {place otherPlace : Place} : SameKind (.absent place) (.absent otherPlace)
  | missing : SameKind .missing .missing
  | blocked : SameKind .blocked .blocked

def IsSettled : Lookup → Prop
  | absent _ => False
  | missing => False
  | _ => True

end Lookup

namespace FileSystem

namespace Walk

inductive Alike (root other : Entry) : Walk → Walk → Prop
  | arrived {lookup counterpart : Lookup} (alike : lookup.Alike root other counterpart) :
      Alike root other (.arrived lookup) (.arrived counterpart)
  | detour (place : Place) (target : Path) (rest : List Bytes) :
      Alike root other (.detour place target rest) (.detour place target rest)

def IsSettled : Walk → Prop
  | arrived lookup => lookup.IsSettled
  | detour _ _ _ => True

end Walk

section Walks

variable {root other : Entry} {followLast : Bool}

theorem walk_alike (within : root.Within other) {place : Place} {steps : List Bytes}
    (settled : (walk root followLast place steps).IsSettled ∨ root.SameOutline other) :
    (walk root followLast place steps).Alike root other (walk other followLast place steps) := by
  fun_induction walk root followLast place steps with
  | case1 place =>
      rw [walk]
      cases found : root.find? place with
      | none =>
          rw [found] at settled
          rw [(settled.resolve_left id).absent found]
          exact .arrived .missing
      | some entry =>
          obtain ⟨counterpart, there, _⟩ := within found
          rw [there]
          exact .arrived (.found found there)
  | case2 place rest ih =>
      rw [walk, if_pos rfl]
      exact ih settled
  | case3 place rest notDot ih =>
      rw [walk, if_neg notDot, if_pos rfl]
      exact ih settled
  | case4 place step rest notDot notAbove long =>
      rw [walk, if_neg notDot, if_neg notAbove, if_pos long]
      exact .arrived .blocked
  | case5 place step rest notDot notAbove short inner absent =>
      have unsettled : ¬ (Walk.arrived
          (if rest.isEmpty then .absent inner else .missing)).IsSettled := by
        split <;> exact id
      have otherAbsent := (settled.resolve_left unsettled).absent absent
      rw [walk_name other followLast place rest notDot notAbove short, otherAbsent]
      split
      · exact .arrived (.absent absent otherAbsent)
      · exact .arrived .missing
  | case6 place step rest notDot notAbove short inner children found ih =>
      obtain ⟨children, there⟩ := within.isDirectory ⟨children, found⟩
      rw [walk_name other followLast place rest notDot notAbove short, there]
      exact ih settled
  | case7 place step rest notDot notAbove short inner content found =>
      obtain ⟨counterpart, there⟩ := within.file found
      rw [walk_name other followLast place rest notDot notAbove short, there]
      split
      · exact .arrived (.found found there)
      · exact .arrived .blocked
  | case8 place step rest notDot notAbove short inner target found last =>
      rw [walk_name other followLast place rest notDot notAbove short, within.link found]
      simp only [last, if_true]
      exact .arrived (.found found (within.link found))
  | case9 place step rest notDot notAbove short inner target found notLast =>
      rw [walk_name other followLast place rest notDot notAbove short, within.link found]
      simp only [notLast]
      exact .detour place target rest

theorem follow_alike (within : root.Within other) {links : Nat} {place : Place}
    {steps : List Bytes}
    (settled : (follow root followLast links place steps).IsSettled ∨ root.SameOutline other) :
    (follow root followLast links place steps).Alike root other
      (follow other followLast links place steps) := by
  fun_induction follow root followLast links place steps with
  | case1 links place steps lookup walked =>
      have settledWalk :
          (walk root followLast place steps).IsSettled ∨ root.SameOutline other := by
        rw [walked]
        exact settled
      have alike := walk_alike within settledWalk
      rw [walked] at alike
      generalize otherWalked : walk other followLast place steps = otherWalk at alike
      cases alike with
      | arrived alike =>
          rw [follow_arrived otherWalked links]
          exact alike
  | case2 place steps outer link rest walked =>
      have settledWalk : (walk root followLast place steps).IsSettled := by
        rw [walked]
        trivial
      have alike := walk_alike within (Or.inl settledWalk)
      rw [walked] at alike
      generalize otherWalked : walk other followLast place steps = otherWalk at alike
      cases alike with
      | detour _ _ _ =>
          rw [follow_blocked otherWalked]
          exact .blocked
  | case3 place steps outer link rest links walked ih =>
      have settledWalk : (walk root followLast place steps).IsSettled := by
        rw [walked]
        trivial
      have alike := walk_alike within (Or.inl settledWalk)
      rw [walked] at alike
      generalize otherWalked : walk other followLast place steps = otherWalk at alike
      cases alike with
      | detour _ _ _ =>
          rw [follow_detour otherWalked]
          exact ih settled

theorem lookup_alike {disk other : FileSystem} {path : Path}
    (sameDirectory : other.workingDirectory = disk.workingDirectory)
    (within : disk.root.Within other.root)
    (settled : (disk.lookup path followLast).IsSettled ∨ disk.root.SameOutline other.root) :
    (disk.lookup path followLast).Alike disk.root other.root (other.lookup path followLast) := by
  rw [lookup] at settled ⊢
  rw [lookup, sameDirectory]
  split
  · exact .blocked
  case isFalse usable =>
    rw [if_neg usable] at settled
    split
    · exact .missing
    case isFalse nonempty =>
      rw [if_neg nonempty] at settled
      exact follow_alike within settled

end Walks

/-- Directories are made on two disks with the same result if making one of them keeps the disks
related and fails on both for the same reason. -/
theorem makeDirectories_related {related : FileSystem → FileSystem → Prop} {paths : List Path}
    (sameDirectory : ∀ {disk other}, related disk other →
      ∀ path, disk.isDirectory path = other.isDirectory path)
    (step : ∀ path ∈ paths, ∀ {disk other}, related disk other →
      (disk.makeDirectory path).1.SameKind (other.makeDirectory path).1 ∧
        related (disk.makeDirectory path).2 (other.makeDirectory path).2)
    {disk other : FileSystem} (start : related disk other) :
    (makeDirectories paths disk).1 = (makeDirectories paths other).1 ∧
      related (makeDirectories paths disk).2 (makeDirectories paths other).2 := by
  induction paths generalizing disk other with
  | nil => exact ⟨rfl, start⟩
  | cons path outer ih =>
      obtain ⟨first, others⟩ := List.forall_mem_cons.mp step
      rw [makeDirectories, makeDirectories]
      split
      · exact ⟨rfl, start⟩
      · obtain ⟨lookups, stay⟩ := first start
        generalize disk.makeDirectory path = made, other.makeDirectory path = otherMade
          at lookups stay ⊢
        obtain ⟨lookup, after⟩ := made
        obtain ⟨counterpart, otherAfter⟩ := otherMade
        cases lookups with
        | absent => exact ⟨rfl, stay⟩
        | found => exact ⟨sameDirectory stay path, stay⟩
        | blocked => exact ⟨sameDirectory stay path, stay⟩
        | missing =>
            obtain ⟨sameResult, outerStay⟩ := ih others stay
            dsimp only
            generalize makeDirectories outer after = outerMade,
              makeDirectories outer otherAfter = otherOuterMade at sameResult outerStay ⊢
            obtain ⟨present, middle⟩ := outerMade
            obtain ⟨otherPresent, otherMiddle⟩ := otherOuterMade
            obtain rfl : present = otherPresent := sameResult
            cases present with
            | false => exact ⟨rfl, outerStay⟩
            | true =>
                obtain ⟨lookups, lastStay⟩ := first outerStay
                dsimp only
                generalize middle.makeDirectory path = made,
                  otherMiddle.makeDirectory path = otherMade at lookups lastStay ⊢
                obtain ⟨lookup, last⟩ := made
                obtain ⟨counterpart, otherLast⟩ := otherMade
                cases lookups with
                | absent => exact ⟨rfl, lastStay⟩
                | _ => exact ⟨sameDirectory lastStay path, lastStay⟩

structure Alike (disk other : FileSystem) : Prop where
  sound : disk.IsSound
  workingDirectory : other.workingDirectory = disk.workingDirectory
  limits : other.limits = disk.limits
  outline : disk.root.SameOutline other.root

def AgreeAt (disk other : FileSystem) (place : Place) : Prop :=
  (disk.root.find? place).map Entry.shallow = (other.root.find? place).map Entry.shallow

structure StayAlike (disk other after otherAfter : FileSystem) : Prop where
  alike : Alike after otherAfter
  workingDirectory : after.workingDirectory = disk.workingDirectory
  grows : disk.root.Within after.root
  agree {place : Place} (agreed : AgreeAt disk other place) : AgreeAt after otherAfter place

namespace StayAlike

variable {disk other middle otherMiddle after otherAfter : FileSystem}

theorem refl (alike : Alike disk other) : StayAlike disk other disk other :=
  ⟨alike, rfl, .refl disk.root, id⟩

theorem trans (first : StayAlike disk other middle otherMiddle)
    (second : StayAlike middle otherMiddle after otherAfter) :
    StayAlike disk other after otherAfter where
  alike := second.alike
  workingDirectory := second.workingDirectory.trans first.workingDirectory
  grows := first.grows.trans second.grows
  agree agreed := second.agree (first.agree agreed)

end StayAlike

namespace Alike

variable {disk other : FileSystem}

theorem otherSound (alike : Alike disk other) : other.IsSound := by
  rw [IsSound, alike.workingDirectory]
  exact alike.outline.within.isDirectory alike.sound

theorem lookup (alike : Alike disk other) (path : Path) (followLast : Bool) :
    (disk.lookup path followLast).Alike disk.root other.root (other.lookup path followLast) :=
  lookup_alike alike.workingDirectory alike.outline.within (Or.inr alike.outline)

theorem isDirectory (alike : Alike disk other) (path : Path) :
    disk.isDirectory path = other.isDirectory path := by
  rw [FileSystem.isDirectory, FileSystem.isDirectory, entry?, entry?]
  generalize disk.lookup path true = lookup, other.lookup path true = counterpart,
    alike.lookup path true = lookups
  cases lookups with
  | @found place entry counterpart here there =>
      cases entry with
      | file _ =>
          obtain ⟨_, isFile⟩ := alike.outline.within.file here
          obtain rfl := Option.some.inj (there.symm.trans isFile)
          rfl
      | link _ =>
          obtain rfl := Option.some.inj (there.symm.trans (alike.outline.within.link here))
          rfl
      | directory _ =>
          obtain ⟨_, isDirectory⟩ := alike.outline.within.isDirectory ⟨_, here⟩
          obtain rfl := Option.some.inj (there.symm.trans isDirectory)
          rfl
  | _ => rfl

theorem exists? (alike : Alike disk other) (path : Path) :
    disk.exists? path = other.exists? path := by
  rw [FileSystem.exists?, FileSystem.exists?, entry?, entry?]
  generalize disk.lookup path true = lookup, other.lookup path true = counterpart,
    alike.lookup path true = lookups
  cases lookups <;> rfl

/-- A path that can be written to leads to one place, and to one content if the disks agree there.
-/
theorem spot? (alike : Alike disk other) (path : Path) (followLast : Bool) :
    ((disk.lookup path followLast).spot? = none ∧ (other.lookup path followLast).spot? = none) ∨
      ∃ place content otherContent,
        (disk.lookup path followLast).spot? = some ⟨place, content⟩ ∧
        (other.lookup path followLast).spot? = some ⟨place, otherContent⟩ ∧
        (AgreeAt disk other place → otherContent = content) := by
  generalize disk.lookup path followLast = lookup, other.lookup path followLast = counterpart,
    alike.lookup path followLast = lookups
  cases lookups with
  | @found place entry counterpart here there =>
      cases entry with
      | file content =>
          obtain ⟨otherContent, isFile⟩ := alike.outline.within.file here
          obtain rfl := Option.some.inj (there.symm.trans isFile)
          refine Or.inr ⟨place, some content, some otherContent, rfl, rfl, ?_⟩
          intro agree
          rw [AgreeAt, here, there] at agree
          cases agree
          rfl
      | link _ =>
          obtain rfl := Option.some.inj (there.symm.trans (alike.outline.within.link here))
          exact Or.inl ⟨rfl, rfl⟩
      | directory _ =>
          obtain ⟨_, isDirectory⟩ := alike.outline.within.isDirectory ⟨_, here⟩
          obtain rfl := Option.some.inj (there.symm.trans isDirectory)
          exact Or.inl ⟨rfl, rfl⟩
  | @absent place _ _ => exact Or.inr ⟨place, none, none, rfl, rfl, fun _ => rfl⟩
  | missing => exact Or.inl ⟨rfl, rfl⟩
  | blocked => exact Or.inl ⟨rfl, rfl⟩

theorem spot?_agree (alike : Alike disk other) {path : Path} {spot : Spot}
    (leads : disk.spot? path = some spot) (agree : AgreeAt disk other spot.place) :
    other.spot? path = some spot := by
  rcases alike.spot? path true with ⟨nowhere, _⟩ | ⟨place, content, otherContent, here, there, same⟩
  · rw [FileSystem.spot?, nowhere] at leads
    cases leads
  · obtain rfl : ⟨place, content⟩ = spot := Option.some.inj (here.symm.trans leads)
    obtain rfl := same agree
    exact there

/-- What a file holds, and what is read from it, is the same if the disks agree where its path
leads. -/
theorem content? (alike : Alike disk other) {path : Path} {spot : Spot}
    (leads : disk.spot? path = some spot) (agree : AgreeAt disk other spot.place) :
    disk.content? path = other.content? path ∧ disk.read? path = other.read? path := by
  rw [content?_eq, content?_eq, read?_eq, read?_eq, leads, alike.spot?_agree leads agree,
    alike.limits]
  exact ⟨rfl, rfl⟩

theorem room (alike : Alike disk other) (path : Path) : disk.room path = other.room path := by
  rw [FileSystem.room, FileSystem.room]
  generalize disk.lookup path true = lookup, other.lookup path true = counterpart,
    alike.lookup path true = lookups
  cases lookups with
  | found _ _ | absent _ _ => rw [alike.limits]
  | missing | blocked => rfl

theorem put (alike : Alike disk other) {place : Place} {new : Entry}
    (takes : disk.root.Takes place) (otherTakes : other.root.Takes place)
    (childless : ∀ name, new.child? name = none)
    (fits : ∀ old, disk.root.find? place = some old → new.outline = old.outline) :
    StayAlike disk other (disk.put place new) (other.put place new) ∧
      AgreeAt (disk.put place new) (other.put place new) place := by
  have here : AgreeAt (disk.put place new) (other.put place new) place := by
    rw [AgreeAt, FileSystem.put, FileSystem.put, Entry.find?_put_same takes,
      Entry.find?_put_same otherTakes]
  refine ⟨⟨⟨alike.sound.put takes childless, alike.workingDirectory, alike.limits,
    alike.outline.put takes otherTakes childless⟩, rfl, Entry.within_put takes childless fits, ?_⟩,
    here⟩
  intro found agreed
  by_cases same : found = place
  · rw [same]
    exact here
  · have kept := Entry.find?_put_other takes childless same
    have otherKept := Entry.find?_put_other otherTakes childless same
    rw [AgreeAt, FileSystem.put, FileSystem.put, kept, otherKept]
    exact agreed

/-- A file can be written on both disks or on none, and then they agree on it. -/
theorem write? (alike : Alike disk other) (path : Path) (content : Bytes) :
    (disk.write? path content = none ∧ other.write? path content = none) ∨
      ∃ after otherAfter, disk.write? path content = some after ∧
        other.write? path content = some otherAfter ∧ StayAlike disk other after otherAfter ∧
        ∀ spot, disk.spot? path = some spot → AgreeAt after otherAfter spot.place := by
  rw [write?_eq, write?_eq, FileSystem.spot?, FileSystem.spot?]
  rcases alike.spot? path true with
    ⟨nowhere, otherNowhere⟩ | ⟨place, old, otherOld, leads, otherLeads, _⟩
  · exact Or.inl ⟨by rw [nowhere]; rfl, by rw [otherNowhere]; rfl⟩
  · have takes := takes_of_lookup alike.sound leads
    have otherTakes := takes_of_lookup alike.otherSound otherLeads
    have fits : ∀ old, disk.root.find? place = some old →
        (Entry.file content).outline = old.outline := by
      intro old found
      rcases Entry.find?_of_takes takes with absent | ⟨oldContent, isFile⟩
      · exact absurd (absent.symm.trans found) (by simp)
      · obtain rfl := Option.some.inj (isFile.symm.trans found)
        rfl
    obtain ⟨stay, agree⟩ := alike.put takes otherTakes (Entry.child?_file content) fits
    refine Or.inr ⟨_, _, by rw [leads]; rfl, by rw [otherLeads]; rfl, stay, ?_⟩
    intro spot isSpot
    obtain rfl : ⟨place, old⟩ = spot := Option.some.inj (leads.symm.trans isSpot)
    exact agree

theorem makeDirectory (alike : Alike disk other) (path : Path) :
    (disk.makeDirectory path).1.SameKind (other.makeDirectory path).1 ∧
      StayAlike disk other (disk.makeDirectory path).2 (other.makeDirectory path).2 := by
  have lookups := alike.lookup (withoutFinalSlashes path) false
  rw [FileSystem.makeDirectory, FileSystem.makeDirectory]
  generalize here : disk.lookup (withoutFinalSlashes path) false = lookup at lookups
  generalize there : other.lookup (withoutFinalSlashes path) false = counterpart at lookups
  cases lookups with
  | @absent place free _ =>
      have takes := takes_of_lookup alike.sound (by rw [here]; rfl)
      have otherTakes := takes_of_lookup alike.otherSound (by rw [there]; rfl)
      have fits : ∀ old, disk.root.find? place = some old →
          (Entry.directory []).outline = old.outline := by
        intro old found
        exact absurd (free.symm.trans found) (by simp)
      exact ⟨.absent, (alike.put takes otherTakes (fun _ => rfl) fits).1⟩
  | found _ _ => exact ⟨.found, .refl alike⟩
  | missing => exact ⟨.missing, .refl alike⟩
  | blocked => exact ⟨.blocked, .refl alike⟩

theorem createDirectory (alike : Alike disk other) (path : Path) :
    (disk.createDirectory path).1 = (other.createDirectory path).1 ∧
      StayAlike disk other (disk.createDirectory path).2 (other.createDirectory path).2 := by
  refine makeDirectories_related (fun stay => stay.alike.isDirectory) ?_ (.refl alike)
  intro path _ after otherAfter stay
  obtain ⟨sameKind, next⟩ := stay.alike.makeDirectory path
  exact ⟨sameKind, stay.trans next⟩

end Alike

def SharedAt (disk other : FileSystem) (path : Path) : Prop :=
  ∃ place content, disk.spot? path = some ⟨place, some content⟩ ∧ AgreeAt disk other place

namespace SharedAt

variable {disk other : FileSystem} {path : Path}

theorem content? (alike : Alike disk other) (shared : SharedAt disk other path) :
    ∃ content, disk.content? path = some content ∧ other.content? path = some content := by
  obtain ⟨place, content, leads, agree⟩ := shared
  have holds : disk.content? path = some content := by
    rw [content?_eq, leads]
    rfl
  exact ⟨content, holds, (alike.content? leads agree).1.symm.trans holds⟩

theorem readText? (alike : Alike disk other) (shared : SharedAt disk other path) :
    disk.readText? path = other.readText? path := by
  obtain ⟨place, content, leads, agree⟩ := shared
  rw [FileSystem.readText?, FileSystem.readText?, (alike.content? leads agree).2]

end SharedAt

/-- A path to a file still leads there, whatever was written or made in the meantime. -/
theorem StayAlike.shared {disk other after otherAfter : FileSystem} {path : Path}
    (stay : StayAlike disk other after otherAfter) (shared : SharedAt disk other path) :
    SharedAt after otherAfter path := by
  obtain ⟨place, content, leads, agree⟩ := shared
  have isFile : disk.lookup path true = .found place (.file content) := by
    rw [spot?] at leads
    cases isLookup : disk.lookup path true with
    | found place entry => cases entry <;> rw [isLookup] at leads <;> cases leads; rfl
    | _ => rw [isLookup] at leads; cases leads
  have settled : (disk.lookup path true).IsSettled := by
    rw [isFile]
    trivial
  have alike := lookup_alike stay.workingDirectory stay.grows (Or.inl settled)
  rw [isFile] at alike
  generalize isLookup : after.lookup path true = lookup at alike
  cases alike with
  | found here there =>
      obtain ⟨last, isLast⟩ := stay.grows.file here
      obtain rfl := Option.some.inj (there.symm.trans isLast)
      exact ⟨place, last, by rw [spot?, isLookup]; rfl, stay.agree agree⟩

end FileSystem

end RemarkAtlas
