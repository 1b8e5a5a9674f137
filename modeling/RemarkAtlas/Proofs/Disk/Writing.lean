import RemarkAtlas.Disk.FileSystem
import RemarkAtlas.Proofs.Disk.Entry

/-!
Writing files.  A path leads to a spot: a place with a file, or a free place in a directory.  After
a write the paths that led to the written place find the new content there, and all other paths lead
to what they led to before.
-/

namespace RemarkAtlas

structure Spot where
  place : Place
  content : Option Bytes

def Lookup.spot? : Lookup → Option Spot
  | found place (.file content) => some ⟨place, some content⟩
  | absent place => some ⟨place, none⟩
  | _ => none

namespace FileSystem

def Walk.Follows (root : Entry) (change : Place → Option Bytes → Option Bytes) :
    Walk → Walk → Prop
  | .arrived lookup, after => ∀ spot, lookup.spot? = some spot →
      root.Takes spot.place ∧ ∃ lookup, after = .arrived lookup ∧
        lookup.spot? = some ⟨spot.place, change spot.place spot.content⟩
  | .detour outer link rest, after => root.IsDirectory outer ∧ after = .detour outer link rest

section Walks

variable {root after : Entry} {place : Place} {change : Place → Option Bytes → Option Bytes}

theorem walk_name (root : Entry) (followLast : Bool) (place : Place) {step : Bytes}
    (rest : List Bytes) (notDot : step ≠ Path.dot) (notAbove : step ≠ Path.dotDot)
    (short : ¬ greatestNameLength < step.length) :
    walk root followLast place (step :: rest) =
      match root.find? (place ++ [step]) with
      | none => .arrived (if rest.isEmpty then .absent (place ++ [step]) else .missing)
      | some (.directory _) => walk root followLast (place ++ [step]) rest
      | some (.file content) =>
        .arrived (if rest.isEmpty then .found (place ++ [step]) (.file content) else .blocked)
      | some (.link target) =>
        if rest.isEmpty && !followLast then .arrived (.found (place ++ [step]) (.link target))
        else .detour place target rest := by
  rw [walk, if_neg notDot, if_neg notAbove]
  exact if_neg short

theorem walk_rewrites (rewrites : root.Rewrites after change) (followLast : Bool)
    (steps : List Bytes) (start : root.IsDirectory place) :
    (walk root followLast place steps).Follows root change
      (walk after followLast place steps) := by
  fun_induction walk root followLast place steps with
  | case1 place =>
      obtain ⟨children, found⟩ := start
      simp [Walk.Follows, found, Lookup.spot?]
  | case2 place rest ih =>
      rw [walk, if_pos rfl]
      exact ih start
  | case3 place rest notDot ih =>
      rw [walk, if_neg notDot, if_pos rfl]
      exact ih start.dropLast
  | case4 place step rest notDot notAbove long =>
      simp [Walk.Follows, Lookup.spot?]
  | case5 place step rest notDot notAbove short inner absent =>
      have foundAfter := rewrites.none absent
      rw [walk_name after followLast place rest notDot notAbove short]
      cases rest with
      | nil =>
          rintro spot leads
          obtain rfl : ⟨inner, none⟩ = spot := Option.some.inj leads
          refine ⟨Entry.takes_of_absent start absent, ?_⟩
          cases changed : change inner none with
          | none =>
              rw [changed] at foundAfter
              exact ⟨.absent inner, by rw [foundAfter]; rfl, rfl⟩
          | some content =>
              rw [changed] at foundAfter
              exact ⟨.found inner (.file content), by rw [foundAfter]; rfl, rfl⟩
      | cons next rest => simp [Walk.Follows, Lookup.spot?]
  | case6 place step rest notDot notAbove short inner children found ih =>
      have directory : root.IsDirectory (place ++ [step]) := ⟨children, found⟩
      obtain ⟨childrenAfter, foundAfter⟩ := rewrites.directory directory
      rw [walk_name after followLast place rest notDot notAbove short, foundAfter]
      exact ih directory
  | case7 place step rest notDot notAbove short inner old found =>
      obtain ⟨content, isContent, foundAfter⟩ := rewrites.file found
      rw [walk_name after followLast place rest notDot notAbove short, foundAfter]
      cases rest with
      | nil =>
          rintro spot leads
          obtain rfl : ⟨inner, some old⟩ = spot := Option.some.inj leads
          refine ⟨Entry.takes_of_file found, _, rfl, ?_⟩
          rw [isContent]
          rfl
      | cons next rest => simp [Walk.Follows, Lookup.spot?]
  | case8 place step rest notDot notAbove short inner link found last =>
      simp [Walk.Follows, Lookup.spot?]
  | case9 place step rest notDot notAbove short inner link found notLast =>
      rw [walk_name after followLast place rest notDot notAbove short, rewrites.link found]
      exact ⟨start, if_neg notLast⟩

theorem follow_arrived {followLast : Bool} {steps : List Bytes} {lookup : Lookup}
    (walked : walk root followLast place steps = .arrived lookup) (links : Nat) :
    follow root followLast links place steps = lookup := by
  rw [follow.eq_def]
  simp only [walked]

theorem follow_blocked {followLast : Bool} {steps rest : List Bytes} {outer : Place} {link : Path}
    (walked : walk root followLast place steps = .detour outer link rest) :
    follow root followLast 0 place steps = .blocked := by
  rw [follow.eq_def]
  simp only [walked]

theorem follow_detour {followLast : Bool} {steps rest : List Bytes} {outer : Place} {link : Path}
    (walked : walk root followLast place steps = .detour outer link rest) (links : Nat) :
    follow root followLast (links + 1) place steps =
      follow root followLast links (if link.isAbsolute then [] else outer)
        (FileSystem.steps link ++ rest) := by
  rw [follow.eq_def]
  simp only [walked]

theorem follow_rewrites (rewrites : root.Rewrites after change) (followLast : Bool) (links : Nat)
    (steps : List Bytes) (start : root.IsDirectory place) {spot : Spot}
    (leads : (follow root followLast links place steps).spot? = some spot) :
    root.Takes spot.place ∧ (follow after followLast links place steps).spot? =
      some ⟨spot.place, change spot.place spot.content⟩ := by
  fun_induction follow root followLast links place steps with
  | case1 links place steps lookup walked =>
      have follows := walk_rewrites rewrites followLast steps start
      rw [walked] at follows
      obtain ⟨takes, lookupAfter, walkedAfter, same⟩ := follows spot leads
      refine ⟨takes, ?_⟩
      rw [follow_arrived walkedAfter links, same]
  | case2 => simp [Lookup.spot?] at leads
  | case3 place steps outer link rest links walked ih =>
      have follows := walk_rewrites rewrites followLast steps start
      rw [walked] at follows
      obtain ⟨outerDirectory, walkedAfter⟩ := follows
      have next : root.IsDirectory (if link.isAbsolute then [] else outer) := by
        split
        · exact outerDirectory.outermost
        · exact outerDirectory
      rw [follow_detour walkedAfter links]
      exact ih next leads

end Walks

def IsSound (disk : FileSystem) : Prop := disk.root.IsDirectory disk.workingDirectory

section Lookups

variable {disk after : FileSystem} {change : Place → Option Bytes → Option Bytes} {path : Path}
  {content : Bytes}

theorem lookup_rewrites (sound : disk.IsSound)
    (sameDirectory : after.workingDirectory = disk.workingDirectory)
    (rewrites : disk.root.Rewrites after.root change) (followLast : Bool) {spot : Spot}
    (leads : (disk.lookup path followLast).spot? = some spot) :
    disk.root.Takes spot.place ∧ (after.lookup path followLast).spot? =
      some ⟨spot.place, change spot.place spot.content⟩ := by
  have start : disk.root.IsDirectory
      (if path.isAbsolute then [] else disk.workingDirectory) := by
    split
    · exact sound.outermost
    · exact sound
  rw [lookup] at leads
  rw [lookup, sameDirectory]
  split at leads
  case isTrue => simp [Lookup.spot?] at leads
  case isFalse usable =>
    split at leads
    case isTrue => simp [Lookup.spot?] at leads
    case isFalse nonempty =>
      rw [if_neg usable, if_neg nonempty]
      exact follow_rewrites rewrites followLast _ _ start leads

theorem takes_of_lookup (sound : disk.IsSound) {followLast : Bool} {spot : Spot}
    (leads : (disk.lookup path followLast).spot? = some spot) : disk.root.Takes spot.place :=
  (lookup_rewrites sound rfl (.refl disk.root) followLast leads).1

def spot? (disk : FileSystem) (path : Path) : Option Spot := (disk.lookup path true).spot?

theorem content?_eq (disk : FileSystem) (path : Path) :
    disk.content? path = (disk.spot? path).bind (·.content) := by
  rw [content?, entry?, spot?]
  cases disk.lookup path true with
  | found place entry => cases entry <;> rfl
  | _ => rfl

theorem read?_eq (disk : FileSystem) (path : Path) :
    disk.read? path = (disk.spot? path).bind fun spot =>
      if disk.limits.isReadable spot.place then spot.content else none := by
  rw [read?, open?, spot?]
  cases disk.lookup path true with
  | found place entry =>
      cases readable : disk.limits.isReadable place <;> cases entry <;>
        simp [Lookup.spot?, readable]
  | absent place => simp [Lookup.spot?]
  | _ => rfl

/-- A file that cannot be opened is not read at all. -/
theorem open?_of_content (holds : disk.content? path = some content) :
    disk.open? path = none ∨ disk.open? path = some (.file content) := by
  rw [content?, entry?] at holds
  rw [open?]
  cases isLookup : disk.lookup path true with
  | found place entry =>
      rw [isLookup] at holds
      cases entry with
      | file found =>
          cases holds
          cases disk.limits.isReadable place <;> simp
      | link _ | directory _ => cases holds
  | absent _ | missing | blocked => exact Or.inl rfl

theorem room_eq {spot : Spot} (leads : disk.spot? path = some spot) :
    disk.room path = disk.limits.room spot.place := by
  rw [spot?] at leads
  rw [room]
  cases isLookup : disk.lookup path true with
  | found place entry =>
      rw [isLookup] at leads
      cases entry <;> cases leads
      rfl
  | absent place =>
      rw [isLookup] at leads
      cases leads
      rfl
  | missing | blocked =>
      rw [isLookup] at leads
      cases leads

theorem write?_eq (disk : FileSystem) (path : Path) (content : Bytes) :
    disk.write? path content =
      (disk.spot? path).map fun spot => disk.put spot.place (.file content) := by
  rw [write?, spot?]
  cases disk.lookup path true with
  | found place entry => cases entry <;> rfl
  | _ => rfl

theorem write?_eq_some (writes : disk.write? path content = some after) :
    ∃ spot, disk.spot? path = some spot ∧ after = disk.put spot.place (.file content) := by
  rw [write?_eq, Option.map_eq_some_iff] at writes
  obtain ⟨spot, leads, rfl⟩ := writes
  exact ⟨spot, leads, rfl⟩

theorem spot?_write (sound : disk.IsSound) (writes : disk.write? path content = some after)
    {written spot : Spot} (target : disk.spot? path = some written) {other : Path}
    (leads : disk.spot? other = some spot) :
    after.spot? other =
      some ⟨spot.place, Entry.overwrite written.place content spot.place spot.content⟩ := by
  obtain ⟨found, isFound, rfl⟩ := write?_eq_some writes
  obtain rfl := Option.some.inj (isFound.symm.trans target)
  have sameDirectory :
      (disk.put found.place (.file content)).workingDirectory = disk.workingDirectory := rfl
  have rewrites := Entry.rewrites_put (takes_of_lookup sound target) content
  exact (lookup_rewrites sound sameDirectory rewrites true leads).2

theorem content?_of_write (sound : disk.IsSound)
    (writes : disk.write? path content = some after) : after.content? path = some content := by
  obtain ⟨target, leads, _⟩ := write?_eq_some writes
  rw [content?_eq, spot?_write sound writes leads leads, Entry.overwrite, if_pos rfl]
  rfl

theorem room_write (sound : disk.IsSound) (writes : disk.write? path content = some after) :
    after.room path = disk.room path := by
  obtain ⟨target, leads, isAfter⟩ := write?_eq_some writes
  rw [room_eq (spot?_write sound writes leads leads), room_eq leads, isAfter]
  rfl

theorem IsSound.put {place : Place} {entry : Entry} (sound : disk.IsSound)
    (takes : disk.root.Takes place) (childless : ∀ name, entry.child? name = none) :
    (disk.put place entry).IsSound :=
  Entry.IsDirectory.put sound takes childless

theorem IsSound.write (sound : disk.IsSound) (writes : disk.write? path content = some after) :
    after.IsSound := by
  obtain ⟨spot, leads, rfl⟩ := write?_eq_some writes
  exact sound.put (takes_of_lookup sound leads) (Entry.child?_file content)

theorem IsSound.makeDirectory (sound : disk.IsSound) (path : Path) :
    (disk.makeDirectory path).2.IsSound := by
  rw [FileSystem.makeDirectory]
  cases leads : disk.lookup (withoutFinalSlashes path) false with
  | absent place =>
      have spot : (disk.lookup (withoutFinalSlashes path) false).spot? = some ⟨place, none⟩ := by
        rw [leads]
        rfl
      exact sound.put (takes_of_lookup sound spot) fun _ => rfl
  | _ => exact sound

theorem IsSound.makeDirectories (paths : List Path) (sound : disk.IsSound) :
    (FileSystem.makeDirectories paths disk).2.IsSound := by
  have makes : ∀ {disk : FileSystem} {path : Path} {lookup : Lookup} {after : FileSystem},
      disk.IsSound → disk.makeDirectory path = (lookup, after) → after.IsSound := by
    intro disk path lookup after sound made
    simpa [made] using sound.makeDirectory path
  fun_induction FileSystem.makeDirectories paths disk with
  | case1 disk => exact sound
  | case2 path outer disk empty => exact sound
  | case3 path outer disk nonempty place after made => exact makes sound made
  | case4 path outer disk nonempty missing lacks after outerMade ih =>
      simpa [outerMade] using ih (makes sound lacks)
  | case5 path outer disk nonempty missing lacks after outerMade place last made ih =>
      have outerSound : after.IsSound := by simpa [outerMade] using ih (makes sound lacks)
      exact makes outerSound made
  | case6 path outer disk nonempty missing lacks after outerMade lookup last notAbsent made ih =>
      have outerSound : after.IsSound := by simpa [outerMade] using ih (makes sound lacks)
      exact makes outerSound made
  | case7 path outer disk nonempty lookup after notAbsent notMissing made =>
      exact makes sound made

theorem IsSound.createDirectory (sound : disk.IsSound) (path : Path) :
    (disk.createDirectory path).2.IsSound :=
  sound.makeDirectories _

end Lookups

end FileSystem

end RemarkAtlas
