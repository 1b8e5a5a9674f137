import RemarkAtlas.Proofs.Disk.Descent
import RemarkAtlas.Proofs.Disk.Removal

/-!
A disk next to one that lacks some of its files.  A path leads to the same place on both, unless it
ends at one of these files, which is free on the other disk, or goes on through one, which leads
nowhere on either.
-/

namespace RemarkAtlas

namespace Entry

def linkAt? (root : Entry) (place : Place) : Option Path :=
  match root.glance? place with
  | some (link target) => some target
  | _ => none

variable {root : Entry} {place : Place}

theorem linkAt?_eq_some {target : Path} :
    root.linkAt? place = some target ↔ root.find? place = some (.link target) := by
  rw [linkAt?, ← glance?_eq_link]
  cases root.glance? place with
  | none => simp
  | some entry => cases entry <;> simp

theorem glance?_eq_file {content : Bytes} :
    root.glance? place = some (file content) ↔ root.find? place = some (.file content) := by
  rw [glance?, Option.map_eq_some_iff]
  constructor
  · rintro ⟨entry, found, isFile⟩
    cases entry with
    | file _ =>
        cases isFile
        exact found
    | link _ => cases isFile
    | directory _ => cases isFile
  · intro found
    exact ⟨_, found, rfl⟩

end Entry

namespace FileSystem

/-- Going along the steps from a place, and along the links that are met, one comes to a place by
its name, with steps left to be gone. Nothing but the links has to be there. -/
inductive Meets (linkAt? : Place → Option Path) : Place → List Bytes → Place → List Bytes → Prop
  | name {place step rest} (notDot : step ≠ Path.dot) (notAbove : step ≠ Path.dotDot) :
      Meets linkAt? place (step :: rest) (place ++ [step]) rest
  | here {place rest met left} (later : Meets linkAt? place rest met left) :
      Meets linkAt? place (Path.dot :: rest) met left
  | up {place rest met left} (later : Meets linkAt? place.dropLast rest met left) :
      Meets linkAt? place (Path.dotDot :: rest) met left
  | on {place step rest met left} (notDot : step ≠ Path.dot) (notAbove : step ≠ Path.dotDot)
      (noLink : linkAt? (place ++ [step]) = none)
      (later : Meets linkAt? (place ++ [step]) rest met left) :
      Meets linkAt? place (step :: rest) met left
  | along {place step rest met left target} (notDot : step ≠ Path.dot) (notAbove : step ≠ Path.dotDot)
      (isLink : linkAt? (place ++ [step]) = some target)
      (later : Meets linkAt? (if target.isAbsolute then [] else place) (steps target ++ rest)
        met left) :
      Meets linkAt? place (step :: rest) met left

def RunsThrough (disk : FileSystem) (path : Path) (place : Place) : Prop :=
  ∃ left, left ≠ [] ∧ Meets disk.root.linkAt? (disk.startOf path) path.names place left

namespace Meets

variable {linkAt? : Place → Option Path} {place met : Place} {path more left : List Bytes}

theorem append (meets : Meets linkAt? place path met left) (more : List Bytes) :
    Meets linkAt? place (path ++ more) met (left ++ more) := by
  induction meets with
  | name notDot notAbove => exact .name notDot notAbove
  | here _ ih => exact .here ih
  | up _ ih => exact .up ih
  | on notDot notAbove noLink _ ih => exact .on notDot notAbove noLink ih
  | along notDot notAbove isLink _ ih =>
      rw [List.append_assoc] at ih
      exact .along notDot notAbove isLink ih

/-- Without links only places that a beginning of the path spells out are met. -/
theorem of_unlinked (meets : Meets linkAt? place path met left)
    (unlinked : ∀ outer, outer <+: path → linkAt? (goAlong place outer) = none) :
    ∃ outer, outer ++ left = path ∧ goAlong place outer = met := by
  induction meets with
  | name notDot notAbove => exact ⟨[_], rfl, goStep_name notDot notAbove⟩
  | here _ ih =>
      obtain ⟨outer, rfl, spells⟩ := ih fun outer isPrefix =>
        unlinked (Path.dot :: outer) ((List.prefix_cons_inj Path.dot).mpr isPrefix)
      exact ⟨Path.dot :: outer, rfl, spells⟩
  | up _ ih =>
      obtain ⟨outer, rfl, spells⟩ := ih fun outer isPrefix =>
        unlinked (Path.dotDot :: outer) ((List.prefix_cons_inj Path.dotDot).mpr isPrefix)
      exact ⟨Path.dotDot :: outer, rfl, spells⟩
  | @on place step rest _ _ notDot notAbove _ _ ih =>
      have enters : ∀ outer, goAlong place (step :: outer) = goAlong (place ++ [step]) outer :=
        fun outer => by rw [goAlong, List.foldl_cons, goStep_name notDot notAbove, goAlong]
      obtain ⟨outer, rfl, spells⟩ := ih fun outer isPrefix =>
        enters outer ▸ unlinked (step :: outer) ((List.prefix_cons_inj step).mpr isPrefix)
      exact ⟨step :: outer, rfl, (enters outer).trans spells⟩
  | @along place step rest _ _ _ notDot notAbove isLink _ _ =>
      have noLink := unlinked [step] ((List.prefix_cons_inj step).mpr List.nil_prefix)
      rw [goAlong, List.foldl_cons, List.foldl_nil, goStep_name notDot notAbove, isLink] at noLink
      cases noLink

theorem cons_of_concat_dot {step : Bytes} {rest : List Bytes}
    (isPath : path ++ [Path.dot] = step :: rest) (notDot : step ≠ Path.dot) :
    ∃ inner, path = step :: inner ∧ inner ++ [Path.dot] = rest := by
  rcases List.append_eq_cons_iff.mp isPath with ⟨_, isDot⟩ | ⟨inner, split, rfl⟩
  · exact absurd (List.cons.inj isDot).1.symm notDot
  · exact ⟨inner, split, rfl⟩

/-- A dot at the end is not the name of anything. -/
theorem of_concat_dot (meets : Meets linkAt? place (path ++ [Path.dot]) met left) :
    ∃ before, left = before ++ [Path.dot] ∧ Meets linkAt? place path met before := by
  generalize isPath : path ++ [Path.dot] = whole at meets
  induction meets generalizing path with
  | name notDot notAbove =>
      obtain ⟨inner, rfl, rfl⟩ := cons_of_concat_dot isPath notDot
      exact ⟨inner, rfl, .name notDot notAbove⟩
  | here later ih =>
      rcases List.append_eq_cons_iff.mp isPath with ⟨_, isDot⟩ | ⟨inner, rfl, rfl⟩
      · obtain rfl := (List.cons.inj isDot).2
        cases later
      · obtain ⟨before, rfl, meets⟩ := ih rfl
        exact ⟨before, rfl, .here meets⟩
  | up later ih =>
      obtain ⟨inner, rfl, rfl⟩ := cons_of_concat_dot isPath (by decide)
      obtain ⟨before, rfl, meets⟩ := ih rfl
      exact ⟨before, rfl, .up meets⟩
  | on notDot notAbove noLink _ ih =>
      obtain ⟨inner, rfl, rfl⟩ := cons_of_concat_dot isPath notDot
      obtain ⟨before, rfl, meets⟩ := ih rfl
      exact ⟨before, rfl, .on notDot notAbove noLink meets⟩
  | along notDot notAbove isLink _ ih =>
      obtain ⟨inner, rfl, rfl⟩ := cons_of_concat_dot isPath notDot
      obtain ⟨before, rfl, meets⟩ := ih (List.append_assoc _ _ _)
      exact ⟨before, rfl, .along notDot notAbove isLink meets⟩

end Meets

end FileSystem

namespace Lookup

inductive Lacks (gone : Place → Bool) (meets : Place → List Bytes → Prop) :
    Lookup → Lookup → Prop
  | found {place : Place} {entry other : Entry} (stays : gone place = false)
      (same : other.shallow = entry.shallow) :
      Lacks gone meets (.found place entry) (.found place other)
  | absent {place : Place} (stays : gone place = false) :
      Lacks gone meets (.absent place) (.absent place)
  | missing : Lacks gone meets .missing .missing
  | blocked : Lacks gone meets .blocked .blocked
  | ends {place : Place} {content : Bytes} (isGone : gone place = true) (met : meets place []) :
      Lacks gone meets (.found place (.file content)) (.absent place)
  | through {place : Place} {left : List Bytes} (isGone : gone place = true) (more : left ≠ [])
      (met : meets place left) : Lacks gone meets .blocked .missing

variable {gone : Place → Bool} {meets others : Place → List Bytes → Prop}
  {lookup counterpart : Lookup}

theorem Lacks.imp (lacks : lookup.Lacks gone meets counterpart)
    (met : ∀ place left, gone place = true → meets place left → others place left) :
    lookup.Lacks gone others counterpart := by
  cases lacks with
  | found stays same => exact .found stays same
  | absent stays => exact .absent stays
  | missing => exact .missing
  | blocked => exact .blocked
  | ends isGone isMet => exact .ends isGone (met _ _ isGone isMet)
  | through isGone more isMet => exact .through isGone more (met _ _ isGone isMet)

end Lookup

namespace FileSystem

namespace Walk

inductive Lacks (gone : Place → Bool) (root : Entry) (meets : Place → List Bytes → Prop) :
    Walk → Walk → Prop
  | arrived {lookup counterpart : Lookup} (lacks : lookup.Lacks gone meets counterpart) :
      Lacks gone root meets (.arrived lookup) (.arrived counterpart)
  | detour {place : Place} {target : Path} {rest : List Bytes} (start : root.IsDirectory place)
      (onward : ∀ met left, Meets root.linkAt? (if target.isAbsolute then [] else place)
        (steps target ++ rest) met left → meets met left) :
      Lacks gone root meets (.detour place target rest) (.detour place target rest)

theorem Lacks.imp {gone : Place → Bool} {root : Entry} {meets others : Place → List Bytes → Prop}
    {walk counterpart : Walk} (lacks : walk.Lacks gone root meets counterpart)
    (met : ∀ place left, meets place left → others place left) :
    walk.Lacks gone root others counterpart := by
  cases lacks with
  | arrived lacks => exact .arrived (lacks.imp fun place left _ => met place left)
  | detour start onward =>
      exact .detour start fun place left meets => met _ _ (onward place left meets)

end Walk

namespace Lacks

variable {gone : Place → Bool} {disk other : FileSystem} {place : Place}

theorem stays_of_find? (lacks : Lacks gone disk other) {entry : Entry}
    (found : disk.root.find? place = some entry) (noFile : entry.isFile = false) :
    gone place = false := by
  refine Bool.eq_false_iff.mpr fun isGone => ?_
  obtain ⟨content, isFile⟩ := lacks.file isGone
  obtain rfl := Option.some.inj (isFile.symm.trans found)
  cases noFile

theorem stays_of_absent (lacks : Lacks gone disk other) (free : disk.root.find? place = none) :
    gone place = false := by
  refine Bool.eq_false_iff.mpr fun isGone => ?_
  obtain ⟨content, isFile⟩ := lacks.file isGone
  cases isFile.symm.trans free

theorem find?_none (lacks : Lacks gone disk other) (free : disk.root.find? place = none) :
    other.root.find? place = none := by
  have kept := lacks.kept (lacks.stays_of_absent free)
  rw [Entry.glance?, Entry.glance?, free] at kept
  exact Option.map_eq_none_iff.mp kept

theorem directory (lacks : Lacks gone disk other) (found : disk.root.IsDirectory place) :
    other.root.IsDirectory place := by
  have stays : gone place = false := by
    obtain ⟨children, found⟩ := found
    exact lacks.stays_of_find? found rfl
  rw [← Entry.glance?_eq_directory, lacks.kept stays]
  exact Entry.glance?_eq_directory.mpr found

theorem find?_link (lacks : Lacks gone disk other) {target : Path}
    (found : disk.root.find? place = some (.link target)) :
    other.root.find? place = some (.link target) := by
  rw [← Entry.glance?_eq_link, lacks.kept (lacks.stays_of_find? found rfl)]
  exact Entry.glance?_eq_link.mpr found

theorem find?_file (lacks : Lacks gone disk other) {content : Bytes} (stays : gone place = false)
    (found : disk.root.find? place = some (.file content)) :
    other.root.find? place = some (.file content) := by
  rw [← Entry.glance?_eq_file, lacks.kept stays]
  exact Entry.glance?_eq_file.mpr found

theorem otherSound (lacks : Lacks gone disk other) : other.IsSound := by
  rw [IsSound, lacks.workingDirectory]
  exact lacks.directory lacks.sound

theorem walk (lacks : Lacks gone disk other) (followLast : Bool) (steps : List Bytes)
    (start : disk.root.IsDirectory place) :
    (walk disk.root followLast place steps).Lacks gone disk.root
      (Meets disk.root.linkAt? place steps) (walk other.root followLast place steps) := by
  fun_induction FileSystem.walk disk.root followLast place steps with
  | case1 place =>
      obtain ⟨children, found⟩ := start
      obtain ⟨others, there⟩ := lacks.directory ⟨children, found⟩
      rw [FileSystem.walk, found, there]
      exact .arrived (.found (lacks.stays_of_find? found rfl) rfl)
  | case2 place rest ih =>
      rw [FileSystem.walk, if_pos rfl]
      exact (ih start).imp fun _ _ => .here
  | case3 place rest notDot ih =>
      rw [FileSystem.walk, if_neg notDot, if_pos rfl]
      exact (ih start.dropLast).imp fun _ _ => .up
  | case4 place step rest notDot notAbove long =>
      rw [FileSystem.walk, if_neg notDot, if_neg notAbove, if_pos long]
      exact .arrived .blocked
  | case5 place step rest notDot notAbove short inner absent =>
      rw [walk_name other.root followLast place rest notDot notAbove short, lacks.find?_none absent]
      split
      · exact .arrived (.absent (lacks.stays_of_absent absent))
      · exact .arrived .missing
  | case6 place step rest notDot notAbove short inner children found ih =>
      obtain ⟨others, there⟩ := lacks.directory ⟨children, found⟩
      rw [walk_name other.root followLast place rest notDot notAbove short, there]
      have noLink : disk.root.linkAt? inner = none := by
        rw [Entry.linkAt?, Entry.glance?_eq_directory.mpr ⟨children, found⟩]
      exact (ih ⟨children, found⟩).imp fun _ _ => .on notDot notAbove noLink
  | case7 place step rest notDot notAbove short inner content found =>
      rw [walk_name other.root followLast place rest notDot notAbove short]
      have meets : Meets disk.root.linkAt? place (step :: rest) inner rest := .name notDot notAbove
      cases isGone : gone inner with
      | true =>
          rw [lacks.absent isGone]
          split
          case isTrue last =>
            rw [List.isEmpty_iff.mp last] at meets ⊢
            exact .arrived (.ends isGone meets)
          case isFalse more =>
            exact .arrived (.through isGone (fun last => more (List.isEmpty_iff.mpr last)) meets)
      | false =>
          rw [lacks.find?_file isGone found]
          split
          · exact .arrived (.found isGone rfl)
          · exact .arrived .blocked
  | case8 place step rest notDot notAbove short inner target found last =>
      rw [walk_name other.root followLast place rest notDot notAbove short, lacks.find?_link found]
      simp only [last, if_true]
      exact .arrived (.found (lacks.stays_of_find? found rfl) rfl)
  | case9 place step rest notDot notAbove short inner target found notLast =>
      rw [walk_name other.root followLast place rest notDot notAbove short, lacks.find?_link found]
      simp only [notLast]
      exact .detour start fun _ _ =>
        .along notDot notAbove (Entry.linkAt?_eq_some.mpr found)

section Detours

variable {followLast : Bool} {steps : List Bytes}

theorem walk_arrived (lacks : Lacks gone disk other) (start : disk.root.IsDirectory place)
    {lookup : Lookup} (walked : FileSystem.walk disk.root followLast place steps = .arrived lookup) :
    ∃ counterpart, FileSystem.walk other.root followLast place steps = .arrived counterpart ∧
      lookup.Lacks gone (Meets disk.root.linkAt? place steps) counterpart := by
  have walks := lacks.walk followLast steps start
  rw [walked] at walks
  generalize FileSystem.walk other.root followLast place steps = otherWalk at walks ⊢
  cases walks with
  | arrived both => exact ⟨_, rfl, both⟩

theorem walk_detour (lacks : Lacks gone disk other) (start : disk.root.IsDirectory place)
    {outer : Place} {target : Path} {rest : List Bytes}
    (walked : FileSystem.walk disk.root followLast place steps = .detour outer target rest) :
    FileSystem.walk other.root followLast place steps = .detour outer target rest ∧
      disk.root.IsDirectory (if target.isAbsolute then [] else outer) ∧
      ∀ met left, Meets disk.root.linkAt? (if target.isAbsolute then [] else outer)
          (FileSystem.steps target ++ rest) met left →
        Meets disk.root.linkAt? place steps met left := by
  have walks := lacks.walk followLast steps start
  rw [walked] at walks
  generalize FileSystem.walk other.root followLast place steps = otherWalk at walks ⊢
  cases walks with
  | detour outerStart onward =>
      refine ⟨rfl, ?_, onward⟩
      split
      · exact outerStart.outermost
      · exact outerStart

end Detours

theorem follow (lacks : Lacks gone disk other) (followLast : Bool) (links : Nat)
    (steps : List Bytes) (start : disk.root.IsDirectory place) :
    (follow disk.root followLast links place steps).Lacks gone
      (Meets disk.root.linkAt? place steps) (follow other.root followLast links place steps) := by
  fun_induction FileSystem.follow disk.root followLast links place steps with
  | case1 links place steps lookup walked =>
      obtain ⟨counterpart, otherWalked, both⟩ := lacks.walk_arrived start walked
      rw [follow_arrived otherWalked links]
      exact both
  | case2 place steps outer target rest walked =>
      rw [follow_blocked (lacks.walk_detour start walked).1]
      exact .blocked
  | case3 place steps outer target rest links walked ih =>
      obtain ⟨otherWalked, next, onward⟩ := lacks.walk_detour start walked
      rw [follow_detour otherWalked]
      exact (ih next).imp fun met left _ => onward met left

theorem lookup (lacks : Lacks gone disk other) (path : Path) (followLast : Bool) :
    (disk.lookup path followLast).Lacks gone
      (Meets disk.root.linkAt? (disk.startOf path) (steps path)) (other.lookup path followLast) := by
  have start : disk.root.IsDirectory (disk.startOf path) := by
    rw [startOf]
    split
    · exact lacks.sound.outermost
    · exact lacks.sound
  rw [FileSystem.lookup, FileSystem.lookup, lacks.workingDirectory]
  split
  · exact .blocked
  · split
    · exact .missing
    · exact lacks.follow followLast _ _ start

theorem isDirectory (lacks : Lacks gone disk other) (path : Path) :
    disk.isDirectory path = other.isDirectory path := by
  rw [FileSystem.isDirectory, FileSystem.isDirectory, entry?, entry?]
  generalize disk.lookup path true = lookup, other.lookup path true = counterpart,
    lacks.lookup path true = lookups
  cases lookups with
  | @found place entry counterpart _ same =>
      cases entry <;> cases counterpart <;> cases same <;> rfl
  | _ => rfl

theorem read? (lacks : Lacks gone disk other) {path : Path}
    (stays : ∀ place entry, disk.lookup path true = .found place entry → gone place = false) :
    other.read? path = disk.read? path := by
  rw [FileSystem.read?, FileSystem.read?, open?, open?, lacks.limits]
  generalize disk.lookup path true = lookup, other.lookup path true = counterpart,
    lacks.lookup path true = lookups at stays
  cases lookups with
  | @found place entry counterpart _ same =>
      dsimp only
      cases disk.limits.isReadable place with
      | false => rfl
      | true => cases entry <;> cases counterpart <;> cases same <;> rfl
  | ends isGone _ =>
      rw [stays _ _ rfl] at isGone
      cases isGone
  | _ => rfl

theorem room (lacks : Lacks gone disk other) (path : Path) : disk.room path = other.room path := by
  rw [FileSystem.room, FileSystem.room, lacks.limits]
  generalize disk.lookup path true = lookup, other.lookup path true = counterpart,
    lacks.lookup path true = lookups
  cases lookups <;> rfl

theorem write?_isSome (lacks : Lacks gone disk other) (path : Path)
    (content otherContent : Bytes) :
    (disk.write? path content).isSome = (other.write? path otherContent).isSome := by
  rw [write?, write?]
  generalize disk.lookup path true = lookup, other.lookup path true = counterpart,
    lacks.lookup path true = lookups
  cases lookups with
  | @found place entry counterpart _ same =>
      cases entry <;> cases counterpart <;> cases same <;> rfl
  | _ => rfl

end Lacks

section Scans

variable {gone : Place → Bool} {disk : FileSystem} {directory : Path} {base : Place}
  {children : List (Bytes × Entry)}

theorem scanRoot?_without (lacks : Lacks gone disk (disk.without gone)) (tree : disk.root.IsTree)
    (leads : disk.lookup directory true = .found base (.directory children)) :
    (disk.without gone).scanRoot? directory =
      some (base, (Entry.directory children).without fun inner => gone (base ++ inner)) := by
  have lookups := lacks.lookup directory true
  rw [leads] at lookups
  generalize isLookup : (disk.without gone).lookup directory true = counterpart at lookups
  cases lookups with
  | @found _ _ entry stays same =>
      have isThere := find?_of_found isLookup
      have isLeft := Entry.find?_without tree (lacks.sound.root_stays gone) base
      rw [find?_of_found leads] at isLeft
      obtain rfl := Option.some.inj (isThere.symm.trans isLeft)
      exact scanRoot?_of_directory isLookup

end Scans

def Avoids (gone : Place → Bool) (disk : FileSystem) (path : Path) : Prop :=
  ∀ place left, gone place = true →
    ¬ Meets disk.root.linkAt? (disk.startOf path) path.names place left

structure StayLacking (gone : Place → Bool) (disk after otherAfter : FileSystem) : Prop where
  lacks : Lacks gone after otherAfter
  links : after.root.linkAt? = disk.root.linkAt?
  workingDirectory : after.workingDirectory = disk.workingDirectory

variable {gone : Place → Bool} {disk other middle otherMiddle after otherAfter : FileSystem}
  {path : Path}

namespace StayLacking

theorem refl (lacks : Lacks gone disk other) : StayLacking gone disk disk other := ⟨lacks, rfl, rfl⟩

theorem trans (first : StayLacking gone disk middle otherMiddle)
    (second : StayLacking gone middle after otherAfter) : StayLacking gone disk after otherAfter :=
  ⟨second.lacks, second.links.trans first.links,
    second.workingDirectory.trans first.workingDirectory⟩

theorem avoids (stay : StayLacking gone disk after otherAfter) (avoids : Avoids gone disk path) :
    Avoids gone after path := by
  rw [Avoids, startOf, stay.links, stay.workingDirectory]
  exact avoids

end StayLacking

namespace Lacks

theorem lookup_avoiding (lacks : Lacks gone disk other) (avoids : Avoids gone disk path)
    (followLast : Bool) :
    (disk.lookup path followLast).Lacks gone (fun _ _ => False) (other.lookup path followLast) := by
  refine (lacks.lookup path followLast).imp fun place left isGone meets => ?_
  rcases steps_eq path with same | isSlash
  · exact avoids place left isGone (same ▸ meets)
  · obtain ⟨before, _, meets⟩ := (isSlash ▸ meets).of_concat_dot
    exact avoids place before isGone meets

theorem exists? (lacks : Lacks gone disk other) (avoids : Avoids gone disk path) :
    disk.exists? path = other.exists? path := by
  rw [FileSystem.exists?, FileSystem.exists?, entry?, entry?]
  generalize disk.lookup path true = lookup, other.lookup path true = counterpart,
    lacks.lookup_avoiding avoids true = lookups
  cases lookups with
  | ends _ met | through _ _ met => exact met.elim
  | _ => rfl

theorem putDirectory (lacks : Lacks gone disk other) {place : Place}
    (free : disk.root.find? place = none) (takes : disk.root.Takes place)
    (otherTakes : other.root.Takes place) :
    StayLacking gone disk (disk.put place (.directory [])) (other.put place (.directory [])) := by
  have stays := lacks.stays_of_absent free
  have childless : ∀ name, (Entry.directory []).child? name = none := fun _ => rfl
  have apart : ∀ {found}, gone found = true → found ≠ place := by
    rintro found isGone rfl
    rw [isGone] at stays
    cases stays
  refine ⟨⟨lacks.sound.put takes childless, lacks.workingDirectory, lacks.limits,
    fun {found} isGone => ?_, fun {found} isGone => ?_, fun {found} foundStays => ?_⟩,
    funext fun found => ?_, rfl⟩
  · obtain ⟨content, isFile⟩ := lacks.file isGone
    exact ⟨content, Entry.find?_put_kept takes childless (apart isGone) isFile (by simp)⟩
  · have kept := Entry.find?_put_other otherTakes childless (apart isGone)
    rw [lacks.absent isGone] at kept
    exact Option.map_eq_none_iff.mp kept
  · by_cases here : found = place
    · subst here
      exact (Entry.glance?_put_same otherTakes).trans (Entry.glance?_put_same takes).symm
    · exact (Entry.glance?_put_other otherTakes childless here).trans
        ((lacks.kept foundStays).trans (Entry.glance?_put_other takes childless here).symm)
  · rw [Entry.linkAt?, Entry.linkAt?]
    by_cases here : found = place
    · subst here
      rw [FileSystem.put, Entry.glance?_put_same takes, Entry.glance?, free]
      rfl
    · rw [FileSystem.put, Entry.glance?_put_other takes childless here]

theorem makeDirectory (lacks : Lacks gone disk other) (avoids : Avoids gone disk path) :
    (disk.makeDirectory path).1.SameKind (other.makeDirectory path).1 ∧
      StayLacking gone disk (disk.makeDirectory path).2 (other.makeDirectory path).2 := by
  have bareAvoids : Avoids gone disk (withoutFinalSlashes path) := by
    obtain ⟨sameNames, sameStart⟩ := Path.names_withoutFinalSlashes path
    rw [Avoids, startOf, sameNames, sameStart]
    exact avoids
  have lookups := lacks.lookup_avoiding bareAvoids false
  rw [FileSystem.makeDirectory, FileSystem.makeDirectory]
  generalize here : disk.lookup (withoutFinalSlashes path) false = lookup at lookups
  generalize there : other.lookup (withoutFinalSlashes path) false = counterpart at lookups
  cases lookups with
  | @absent place stays =>
      have takes := takes_of_lookup lacks.sound (by rw [here]; rfl)
      have otherTakes := takes_of_lookup lacks.otherSound (by rw [there]; rfl)
      exact ⟨.absent, lacks.putDirectory (find?_of_absent here) takes otherTakes⟩
  | found _ _ => exact ⟨.found, .refl lacks⟩
  | missing => exact ⟨.missing, .refl lacks⟩
  | blocked => exact ⟨.blocked, .refl lacks⟩
  | ends _ met | through _ _ met => exact met.elim

theorem makeDirectories {paths : List Path} (lacks : Lacks gone disk other)
    (avoids : ∀ path ∈ paths, Avoids gone disk path) :
    (makeDirectories paths disk).1 = (makeDirectories paths other).1 ∧
      StayLacking gone disk (makeDirectories paths disk).2 (makeDirectories paths other).2 := by
  refine makeDirectories_related (fun stay => stay.lacks.isDirectory) ?_ (.refl lacks)
  intro path member after otherAfter stay
  obtain ⟨sameKind, next⟩ := stay.lacks.makeDirectory (stay.avoids (avoids path member))
  exact ⟨sameKind, stay.trans next⟩

end Lacks

/-- Where a path lies is reached without its last name, so what the path does not run through is not
met there at all. -/
theorem avoids_outer {parent outer : Path}
    (clear : ∀ place, gone place = true → ¬ disk.RunsThrough path place)
    (isParent : path.parent? = some parent) (isPrefix : outer.names <+: parent.names)
    (sameStart : outer.isAbsolute = parent.isAbsolute) : Avoids gone disk outer := by
  intro place left isGone meets
  obtain ⟨⟨last, nonempty, isPath⟩, parentStart⟩ := Path.parent?_names isParent
  obtain ⟨between, isBetween⟩ := isPrefix
  refine clear place isGone ⟨left ++ (between ++ last), by simp [nonempty], ?_⟩
  rw [isPath, ← isBetween, List.append_assoc, startOf, ← parentStart, ← sameStart]
  exact meets.append _

end FileSystem

end RemarkAtlas
