import RemarkAtlas.Proofs.Disk.Alike
import RemarkAtlas.Proofs.Disk.Route
import RemarkAtlas.Disk.Scan

/-!
Going down from a directory.  A path that leads to a directory, and on to a file below it, leads to
the file, unless a name or the path itself is too long.
-/

namespace RemarkAtlas.FileSystem

section Walks

variable {root : Entry} {place base : Place} {path more : List Bytes}

def Walk.GoesOn (root : Entry) (onward : List Bytes → Walk) : Walk → Prop
  | .arrived (.found base (.directory _)) => ∀ more, onward more = walk root true base more
  | .detour outer target rest => ∀ more, onward more = .detour outer target (rest ++ more)
  | _ => True

theorem walk_goesOn (root : Entry) (place : Place) (path : List Bytes) :
    (walk root true place path).GoesOn root fun more => walk root true place (path ++ more) := by
  fun_induction walk root true place path with
  | case1 place =>
      cases found : root.find? place with
      | none => trivial
      | some entry =>
          cases entry with
          | directory children => exact fun more => rfl
          | file _ | link _ => trivial
  | case2 place rest ih =>
      have skips : ∀ more, walk root true place (Path.dot :: (rest ++ more)) =
          walk root true place (rest ++ more) := fun more => by rw [walk, if_pos rfl]
      simpa only [List.cons_append, skips] using ih
  | case3 place rest notDot ih =>
      have climbs : ∀ more, walk root true place (Path.dotDot :: (rest ++ more)) =
          walk root true place.dropLast (rest ++ more) := fun more => by
        rw [walk, if_neg notDot, if_pos rfl]
      simpa only [List.cons_append, climbs] using ih
  | case4 place step rest notDot notAbove long => trivial
  | case5 place step rest notDot notAbove short inner absent =>
      split <;> trivial
  | case6 place step rest notDot notAbove short inner children found ih =>
      have enters : ∀ more, walk root true place (step :: (rest ++ more)) =
          walk root true inner (rest ++ more) := fun more => by
        rw [walk_name root true place _ notDot notAbove short, found]
      simpa only [List.cons_append, enters] using ih
  | case7 place step rest notDot notAbove short inner content found =>
      split <;> trivial
  | case8 place step rest notDot notAbove short inner target found last =>
      trivial
  | case9 place step rest notDot notAbove short inner target found notLast =>
      intro more
      dsimp only
      rw [List.cons_append, walk_name root true place _ notDot notAbove short, found]
      simp

theorem follow_congr {followLast : Bool} {other : Place} {otherPath : List Bytes}
    (same : walk root followLast place path = walk root followLast other otherPath) (links : Nat) :
    follow root followLast links place path = follow root followLast links other otherPath := by
  rw [follow.eq_def, follow.eq_def root followLast links other]
  dsimp only
  rw [same]

theorem follow_append {links : Nat} {children : List (Bytes × Entry)}
    (leads : follow root true links place path = .found base (.directory children)) :
    ∃ fewer, ∀ more, follow root true links place (path ++ more) =
      follow root true fewer base more := by
  have goesOn := walk_goesOn root place path
  fun_induction follow root true links place path with
  | case1 links place path lookup walked =>
      rw [walked, leads] at goesOn
      exact ⟨links, fun more => follow_congr (goesOn more) links⟩
  | case2 place path outer target rest walked => cases leads
  | case3 place path outer target rest links walked ih =>
      rw [walked] at goesOn
      obtain ⟨fewer, onward⟩ := ih leads (walk_goesOn root _ _)
      refine ⟨fewer, fun more => ?_⟩
      rw [follow_detour (goesOn more), ← List.append_assoc, onward]

/-- A dot on the way adds nothing. -/
theorem walk_dot (more : List Bytes) (nonempty : more ≠ []) (followLast : Bool) (place : Place)
    (path : List Bytes) :
    walk root followLast place (path ++ Path.dot :: more) =
        walk root followLast place (path ++ more) ∨
      ∃ outer target rest,
        walk root followLast place (path ++ Path.dot :: more) =
          .detour outer target (rest ++ Path.dot :: more) ∧
        walk root followLast place (path ++ more) = .detour outer target (rest ++ more) := by
  induction path generalizing place with
  | nil =>
      refine Or.inl ?_
      rw [List.nil_append, List.nil_append, walk, if_pos rfl]
  | cons step path ih =>
      rw [List.cons_append, List.cons_append]
      by_cases isDot : step = Path.dot
      · rw [walk, if_pos isDot, walk, if_pos isDot]
        exact ih place
      by_cases isAbove : step = Path.dotDot
      · rw [walk, if_neg isDot, if_pos isAbove, walk, if_neg isDot, if_pos isAbove]
        exact ih place.dropLast
      by_cases long : greatestNameLength < step.length
      · rw [walk, if_neg isDot, if_neg isAbove, if_pos long, walk, if_neg isDot, if_neg isAbove,
          if_pos long]
        exact Or.inl rfl
      have rest : (path ++ more).isEmpty = false := by simp [nonempty]
      have dottedRest : (path ++ Path.dot :: more).isEmpty = false := by simp
      rw [walk_name root followLast place _ isDot isAbove long,
        walk_name root followLast place _ isDot isAbove long, rest, dottedRest]
      cases root.find? (place ++ [step]) with
      | none => exact Or.inl rfl
      | some entry =>
          cases entry with
          | file _ => exact Or.inl rfl
          | link target => exact Or.inr ⟨place, target, path, rfl, rfl⟩
          | directory _ => exact ih _

theorem follow_dot (more : List Bytes) (nonempty : more ≠ []) (followLast : Bool) (links : Nat)
    (place : Place) (path : List Bytes) :
    follow root followLast links place (path ++ Path.dot :: more) =
      follow root followLast links place (path ++ more) := by
  induction links generalizing place path with
  | zero =>
      rcases walk_dot more nonempty followLast place path with same | ⟨_, _, _, dotted, walked⟩
      · exact follow_congr same 0
      · rw [follow_blocked dotted, follow_blocked walked]
  | succ links ih =>
      rcases walk_dot more nonempty followLast place path with same | ⟨_, _, _, dotted, walked⟩
      · exact follow_congr same (links + 1)
      · rw [follow_detour dotted, follow_detour walked, ← List.append_assoc, ih, List.append_assoc]

/-- From a directory the names on the way lead down to the file. -/
theorem walk_down {content : Bytes} (names : ∀ name ∈ path, IsName name)
    (isFile : root.find? (base ++ path) = some (.file content)) (followLast : Bool) :
    walk root followLast base path = .arrived (.found (base ++ path) (.file content)) ∨
      walk root followLast base path = .arrived .blocked := by
  induction path generalizing base with
  | nil =>
      refine Or.inl ?_
      rw [List.append_nil] at isFile ⊢
      rw [walk, isFile]
  | cons name path ih =>
      obtain ⟨isName, others⟩ := List.forall_mem_cons.mp names
      obtain ⟨_, notDot, notAbove⟩ := isName.proper
      by_cases long : greatestNameLength < name.length
      · exact Or.inr (by rw [walk, if_neg notDot, if_neg notAbove, if_pos long])
      have isPlace : base ++ name :: path = base ++ [name] ++ path := List.append_cons base name path
      rw [isPlace] at isFile ⊢
      rw [walk_name root followLast base path notDot notAbove long]
      cases path with
      | nil =>
          rw [List.append_nil] at isFile ⊢
          rw [isFile]
          exact Or.inl rfl
      | cons next path =>
          have isInner : root.IsDirectory (base ++ [name]) := by
            rw [Entry.find?_append, Option.bind_eq_some_iff] at isFile
            obtain ⟨inner, isInner, isBelow⟩ := isFile
            rw [Entry.find?_cons, Option.bind_eq_some_iff] at isBelow
            obtain ⟨_, isChild, _⟩ := isBelow
            obtain ⟨children, rfl, _⟩ := Entry.child?_eq_some isChild
            exact ⟨children, isInner⟩
          obtain ⟨children, isInner⟩ := isInner
          rw [isInner]
          exact ih others isFile

end Walks

section Lookups

variable {disk : FileSystem} {directory path : Path} {followLast : Bool} {base place : Place}
  {entry : Entry} {children : List (Bytes × Entry)}

theorem lookup_self (disk : FileSystem) (path : Path) (followLast : Bool) :
    (disk.lookup path followLast).Alike disk.root disk.root (disk.lookup path followLast) :=
  lookup_alike rfl (.refl disk.root) (Or.inr ⟨.refl disk.root, id⟩)

theorem find?_of_found (leads : disk.lookup path followLast = .found place entry) :
    disk.root.find? place = some entry := by
  have self := lookup_self disk path followLast
  rw [leads] at self
  cases self with
  | found here _ => exact here

theorem find?_of_absent (leads : disk.lookup path followLast = .absent place) :
    disk.root.find? place = none := by
  have self := lookup_self disk path followLast
  rw [leads] at self
  cases self with
  | absent here _ => exact here

theorem isDirectory_iff : disk.isDirectory path ↔
    ∃ base children, disk.lookup path true = .found base (.directory children) := by
  rw [isDirectory, entry?]
  cases disk.lookup path true with
  | found place entry => cases entry <;> simp
  | _ => simp

theorem lookup_followLast (notLink : ¬ (disk.lookup path false).isLink) :
    disk.lookup path true = disk.lookup path false := by
  rw [lookup] at notLink ⊢
  rw [lookup]
  split
  case isTrue => rfl
  case isFalse usable =>
    rw [if_neg usable] at notLink
    split
    case isTrue => rfl
    case isFalse nonempty =>
      rw [if_neg nonempty] at notLink
      exact follow_followLast _ _ _ notLink

/-- A scan of a directory starts there, whether or not the path ends in a link. -/
theorem scanRoot?_of_directory
    (leads : disk.lookup directory true = .found base (.directory children)) :
    disk.scanRoot? directory = some (base, .directory children) := by
  rw [scanRoot?]
  by_cases isLink : (disk.lookup directory false).isLink
  · cases isLookup : disk.lookup directory false with
    | found place entry =>
        rw [isLookup] at isLink
        cases entry with
        | link target => simp [leads]
        | file _ | directory _ => cases isLink
    | _ =>
        rw [isLookup] at isLink
        cases isLink
  · rw [← lookup_followLast isLink, leads]

theorem names_below (named : ∀ name ∈ place, IsName name) (directory : Path) :
    (directory.below place).names = directory.names ++ place ∧
      (directory.below place).isAbsolute = directory.isAbsolute := by
  induction place generalizing directory with
  | nil => exact ⟨(List.append_nil _).symm, rfl⟩
  | cons name place ih =>
      obtain ⟨isName, others⟩ := List.forall_mem_cons.mp named
      obtain ⟨names, sameStart⟩ := Path.names_join isName directory
      obtain ⟨belowNames, belowStart⟩ := ih others (directory.join name)
      rw [Path.below, List.foldl_cons]
      refine ⟨belowNames.trans ?_, belowStart.trans sameStart⟩
      rw [names, List.append_assoc]
      rfl

/-- A path that ends in a name has no slash at its end. -/
theorem steps_below (named : ∀ name ∈ place, IsName name) (nonempty : place ≠ [])
    (directory : Path) : steps (directory.below place) = directory.names ++ place := by
  obtain ⟨names, _⟩ := names_below named directory
  rcases steps_eq (directory.below place) with same | isSlash
  · exact same.trans names
  · obtain ⟨outer, last, rfl⟩ := (List.eq_nil_or_concat' place).resolve_left nonempty
    have isName : IsName last := named last (by simp)
    have endsIn := Path.getLast?_steps_join isName (directory.below outer)
    have isJoin : directory.below (outer ++ [last]) = (directory.below outer).join last := by
      rw [Path.below, List.foldl_append]
      rfl
    rw [isJoin] at isSlash
    rw [isSlash, List.getLast?_concat] at endsIn
    exact absurd (Option.some.inj endsIn).symm isName.proper.2.1

theorem lookup_below {content : Bytes} (named : ∀ name ∈ place, IsName name)
    (leads : disk.lookup directory true = .found base (.directory children))
    (isFile : disk.root.find? (base ++ place) = some (.file content)) :
    disk.lookup (directory.below place) true = .found (base ++ place) (.file content) ∨
      disk.lookup (directory.below place) true = .blocked := by
  have nonempty : place ≠ [] := by
    rintro rfl
    rw [List.append_nil, find?_of_found leads] at isFile
    cases isFile
  have belowSteps := steps_below named nonempty directory
  obtain ⟨_, sameStart⟩ := names_below named directory
  rw [lookup] at leads
  split at leads
  case isTrue => cases leads
  split at leads
  case isTrue => cases leads
  obtain ⟨fewer, onward⟩ := follow_append leads
  have arrives : follow disk.root true greatestLinkCount (disk.startOf directory)
      (directory.names ++ place) = follow disk.root true fewer base place := by
    rcases steps_eq directory with same | isSlash
    · rw [← same]
      exact onward place
    · rw [← follow_dot place nonempty, ← onward place, isSlash, List.append_assoc]
      rfl
  have down : follow disk.root true fewer base place = .found (base ++ place) (.file content) ∨
      follow disk.root true fewer base place = .blocked := by
    rcases walk_down named isFile true with walked | walked
    · exact Or.inl (follow_arrived walked fewer)
    · exact Or.inr (follow_arrived walked fewer)
  rw [lookup]
  split
  case isTrue => exact Or.inr rfl
  split
  case isTrue isEmpty =>
    rw [Path.isEmpty, List.isEmpty_iff] at isEmpty
    have noSteps : steps (directory.below place) = [] := by
      rw [steps, Path.segments, isEmpty]
      rfl
    rw [noSteps, eq_comm, List.append_eq_nil_iff] at belowSteps
    exact absurd belowSteps.2 nonempty
  rw [belowSteps, sameStart]
  rw [← arrives] at down
  exact down

end Lookups

end RemarkAtlas.FileSystem
