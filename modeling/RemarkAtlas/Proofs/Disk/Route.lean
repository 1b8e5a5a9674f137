import RemarkAtlas.Proofs.Disk.Naming

/-!
The places that a path spells out.  A path that passes no link leads to the last of them; the paths
that it lies in spell out some of them, and a name inside a directory adds one.
-/

namespace RemarkAtlas

open Path (slash dot dotDot)

namespace Path

def names (path : Path) : List Bytes := path.segments.filter (· != [])

variable {path : Path}

theorem noSlash_of_mem_segmentsOf {segment : Bytes} {reversed text : Bytes}
    (noSlash : slash ∉ reversed) (member : segment ∈ segmentsOf reversed text) :
    slash ∉ segment := by
  induction text generalizing reversed with
  | nil =>
      obtain rfl := List.mem_singleton.mp member
      simpa using noSlash
  | cons byte text ih =>
      rw [segmentsOf] at member
      by_cases isSlash : byte = slash
      · rw [if_pos isSlash, List.mem_cons] at member
        rcases member with rfl | later
        · simpa using noSlash
        · exact ih List.not_mem_nil later
      · rw [if_neg isSlash] at member
        exact ih (by simp [noSlash, Ne.symm isSlash]) member

theorem noSlash_of_mem_segments (path : Path) {segment : Bytes}
    (member : segment ∈ path.segments) : slash ∉ segment :=
  noSlash_of_mem_segmentsOf List.not_mem_nil member

theorem segmentsOf_first (reversed text : Bytes) :
    ∃ more rest, segmentsOf reversed text = (reversed.reverse ++ more) :: rest := by
  induction text generalizing reversed with
  | nil => exact ⟨[], [], by rw [segmentsOf, List.append_nil]⟩
  | cons byte text ih =>
      rw [segmentsOf]
      by_cases isSlash : byte = slash
      · exact ⟨[], segmentsOf [] text, by rw [if_pos isSlash, List.append_nil]⟩
      · obtain ⟨more, rest, isSegments⟩ := ih (byte :: reversed)
        exact ⟨byte :: more, rest, by rw [if_neg isSlash, isSegments]; simp⟩

theorem segmentsOf_intercalate {first : Bytes} {rest : List Bytes}
    (noSlash : ∀ segment ∈ first :: rest, slash ∉ segment) :
    segmentsOf [] ([slash].intercalate (first :: rest)) = first :: rest := by
  rw [List.forall_mem_cons] at noSlash
  induction rest generalizing first with
  | nil =>
      rw [List.intercalate_singleton, segmentsOf_of_noSlash noSlash.1]
      simp
  | cons next rest ih =>
      have isText : [slash].intercalate (first :: next :: rest) =
          first ++ slash :: [slash].intercalate (next :: rest) := by
        simp [List.intercalate_cons_cons]
      rw [isText, segmentsOf_slash, ih (List.forall_mem_cons.mp noSlash.2),
        segmentsOf_of_noSlash noSlash.1]
      simp

theorem head?_intercalate {first : Bytes} {rest : List Bytes} {byte : UInt8}
    (isFirst : first.head? = some byte) :
    ([slash].intercalate (first :: rest)).head? = some byte := by
  cases rest with
  | nil => rwa [List.intercalate_singleton]
  | cons next rest => simp [List.intercalate_cons_cons, isFirst]

theorem segments_absolute (absolute : path.isAbsolute = true) :
    ∃ text, path.bytes = slash :: text ∧ path.segments = [] :: segmentsOf [] text := by
  obtain ⟨text, isText⟩ := List.head?_eq_some_iff.mp (beq_iff_eq.mp absolute)
  refine ⟨text, isText, ?_⟩
  rw [segments, isText, segmentsOf, if_pos rfl]
  rfl

/-- Only the empty path begins with nothing without being absolute. -/
theorem head?_first {first : Bytes} {rest : List Bytes}
    (isSegments : path.segments = first :: rest) (relative : path.isAbsolute = false)
    (more : rest ≠ []) : ∃ byte ≠ slash, first.head? = some byte := by
  have noSlash : slash ∉ first := noSlash_of_mem_segments path (by simp [isSegments])
  rw [segments] at isSegments
  rw [isAbsolute] at relative
  cases isText : path.bytes with
  | nil =>
      rw [isText, segmentsOf, List.cons.injEq] at isSegments
      exact absurd isSegments.2.symm more
  | cons byte text =>
      rw [isText] at isSegments relative
      have notSlash : byte ≠ slash := by simpa using relative
      obtain ⟨last, others, first_eq⟩ := segmentsOf_first [byte] text
      rw [segmentsOf, if_neg notSlash, first_eq, List.cons.injEq] at isSegments
      refine ⟨byte, notSlash, ?_⟩
      rw [← isSegments.1]
      simp

theorem dropRedundantEnd_isPrefix (segments : List Bytes) :
    dropRedundantEnd segments <+: segments := by
  rw [dropRedundantEnd, ← List.reverse_suffix, List.reverse_reverse]
  exact List.dropWhile_suffix _

theorem names_absolute {outer : List Bytes} (noSlash : ∀ segment ∈ outer, slash ∉ segment) :
    names ⟨slash :: [slash].intercalate outer⟩ = outer.filter (· != []) ∧
      isAbsolute ⟨slash :: [slash].intercalate outer⟩ = true := by
  refine ⟨?_, by simp [isAbsolute]⟩
  have isText : slash :: [slash].intercalate outer =
      [] ++ slash :: [slash].intercalate outer := by simp
  rw [names, segments, isText, segmentsOf_slash]
  cases outer with
  | nil => rfl
  | cons first rest =>
      rw [segmentsOf_intercalate noSlash]
      rfl

theorem names_relative {first : Bytes} {outer : List Bytes} {byte : UInt8}
    (noSlash : ∀ segment ∈ first :: outer, slash ∉ segment)
    (isFirst : first.head? = some byte) (notSlash : byte ≠ slash) :
    names ⟨[slash].intercalate (first :: outer)⟩ = (first :: outer).filter (· != []) ∧
      isAbsolute ⟨[slash].intercalate (first :: outer)⟩ = false := by
  rw [names, segments, segmentsOf_intercalate noSlash, isAbsolute, head?_intercalate isFirst]
  exact ⟨rfl, by simpa using notSlash⟩

theorem dropRedundantEnd_concat {segments : List Bytes}
    (nonempty : dropRedundantEnd segments ≠ []) :
    ∃ outer last, last ≠ [] ∧ dropRedundantEnd segments = outer ++ [last] := by
  obtain ⟨outer, last, ends⟩ := (List.eq_nil_or_concat' _).resolve_left nonempty
  refine ⟨outer, last, ?_, ends⟩
  rintro rfl
  rw [dropRedundantEnd, List.reverse_eq_iff, List.reverse_append] at ends
  have stopped := List.head?_dropWhile_not
    (fun segment => segment == [] || segment == dot) segments.reverse
  rw [ends] at stopped
  simp at stopped

/-- A parent is spelled out by a beginning of the segments; a name comes after it. -/
theorem parent?_eq_some {parent : Path} {first : Bytes} {rest : List Bytes}
    (isSegments : path.segments = first :: rest) (isParent : path.parent? = some parent) :
    path.isAbsolute = false ∧ first ≠ [] ∧ parent = ⟨[]⟩ ∨
      ∃ outer more, rest = outer ++ more ∧ (∃ name ∈ more, name ≠ []) ∧
        (path.isAbsolute = true ∧ parent = ⟨slash :: [slash].intercalate outer⟩ ∨
          path.isAbsolute = false ∧ parent = ⟨[slash].intercalate (first :: outer)⟩) := by
  have splits (nonempty : dropRedundantEnd rest ≠ []) :
      ∃ more, rest = dropRedundantEnd (dropRedundantEnd rest).dropLast ++ more ∧
        ∃ name ∈ more, name ≠ [] := by
    obtain ⟨outer, last, isName, ends⟩ := dropRedundantEnd_concat nonempty
    obtain ⟨dropped, isRest⟩ := dropRedundantEnd_isPrefix rest
    obtain ⟨dots, isOuter⟩ := dropRedundantEnd_isPrefix outer
    refine ⟨dots ++ last :: dropped, ?_, last, by simp, isName⟩
    rw [ends, List.dropLast_concat, ← List.append_assoc, isOuter, ← isRest, ends, List.append_assoc]
    rfl
  rw [parent?, isSegments] at isParent
  dsimp only at isParent
  split at isParent
  case isTrue absolute =>
    split at isParent
    case isTrue => cases isParent
    case isFalse notRoot =>
      obtain ⟨more, isRest, isName⟩ := splits fun isEmpty => notRoot (List.isEmpty_iff.mpr isEmpty)
      exact Or.inr ⟨_, more, isRest, isName, Or.inl ⟨absolute, (Option.some.inj isParent).symm⟩⟩
  case isFalse notAbsolute =>
    have relative : path.isAbsolute = false := Bool.eq_false_iff.mpr notAbsolute
    split at isParent
    case isTrue =>
      split at isParent
      case isTrue => cases isParent
      case isFalse isName => exact Or.inl ⟨relative, isName, (Option.some.inj isParent).symm⟩
    case isFalse notLast =>
      obtain ⟨more, isRest, isName⟩ := splits fun isEmpty => notLast (List.isEmpty_iff.mpr isEmpty)
      exact Or.inr ⟨_, more, isRest, isName, Or.inr ⟨relative, (Option.some.inj isParent).symm⟩⟩

/-- The names of the path that a path lies in come first among its own, and others come after. -/
theorem parent?_names {parent : Path} (isParent : path.parent? = some parent) :
    (∃ more, more ≠ [] ∧ path.names = parent.names ++ more) ∧
      parent.isAbsolute = path.isAbsolute := by
  cases isSegments : path.segments with
  | nil =>
      rw [parent?, isSegments] at isParent
      cases isParent
  | cons first rest =>
      have names_eq : path.names = (first :: rest).filter (· != []) := by rw [names, isSegments]
      rw [names_eq]
      rcases parent?_eq_some isSegments isParent with
        ⟨relative, isName, rfl⟩ | ⟨outer, more, rfl, ⟨name, member, isName⟩, spelled⟩
      · have someName : (first :: rest).filter (· != []) ≠ [] :=
          List.ne_nil_of_mem (List.mem_filter.mpr ⟨List.mem_cons_self, by simpa using isName⟩)
        exact ⟨⟨_, someName, rfl⟩, relative.symm⟩
      have moreNames : more.filter (· != []) ≠ [] :=
        List.ne_nil_of_mem (List.mem_filter.mpr ⟨member, by simpa using isName⟩)
      have outerNoSlash : ∀ segment ∈ first :: outer, slash ∉ segment :=
        fun segment member => noSlash_of_mem_segments path <| by
          rw [isSegments, ← List.cons_append]
          exact List.mem_append_left more member
      rw [← List.cons_append, List.filter_append]
      rcases spelled with ⟨absolute, rfl⟩ | ⟨relative, rfl⟩
      · obtain ⟨parentNames, parentAbsolute⟩ :=
          names_absolute (List.forall_mem_cons.mp outerNoSlash).2
        obtain ⟨text, _, segments_eq⟩ := segments_absolute absolute
        obtain rfl : first = [] := (List.cons.inj (isSegments.symm.trans segments_eq)).1
        rw [parentNames, parentAbsolute, absolute]
        exact ⟨⟨_, moreNames, rfl⟩, rfl⟩
      · have moreSegments : outer ++ more ≠ [] :=
          List.append_ne_nil_of_right_ne_nil outer (List.ne_nil_of_mem member)
        obtain ⟨byte, notSlash, isFirst⟩ := head?_first isSegments relative moreSegments
        obtain ⟨parentNames, parentRelative⟩ := names_relative outerNoSlash isFirst notSlash
        rw [parentNames, parentRelative, relative]
        exact ⟨⟨_, moreNames, rfl⟩, rfl⟩

theorem parent?_isPrefix {parent : Path} (isParent : path.parent? = some parent) :
    parent.names <+: path.names ∧ parent.isAbsolute = path.isAbsolute := by
  obtain ⟨⟨more, _, split⟩, sameStart⟩ := parent?_names isParent
  exact ⟨⟨more, split.symm⟩, sameStart⟩

theorem ancestorsUpTo_isPrefix (count : Nat) :
    ∀ ancestor ∈ ancestorsUpTo count path,
      ancestor.names <+: path.names ∧ ancestor.isAbsolute = path.isAbsolute := by
  induction count generalizing path with
  | zero => simp [ancestorsUpTo]
  | succ count ih =>
      rw [ancestorsUpTo]
      cases isParent : path.parent? with
      | none => simp
      | some parent =>
          obtain ⟨isPrefix, sameStart⟩ := parent?_isPrefix isParent
          refine List.forall_mem_cons.mpr ⟨⟨List.prefix_rfl, rfl⟩, fun ancestor member => ?_⟩
          obtain ⟨outerPrefix, outerStart⟩ := ih ancestor member
          exact ⟨outerPrefix.trans isPrefix, outerStart.trans sameStart⟩

theorem filter_segmentsOf_slashes {slashes : Bytes}
    (areSlashes : ∀ byte ∈ slashes, byte = slash) :
    (segmentsOf [] slashes).filter (· != []) = [] := by
  induction slashes with
  | nil => rfl
  | cons byte slashes ih =>
      obtain ⟨rfl, rest⟩ := List.forall_mem_cons.mp areSlashes
      rw [segmentsOf, if_pos rfl]
      exact ih rest

theorem filter_segmentsOf_append {text slashes : Bytes}
    (areSlashes : ∀ byte ∈ slashes, byte = slash) :
    (segmentsOf [] (text ++ slashes)).filter (· != []) = (segmentsOf [] text).filter (· != []) := by
  cases slashes with
  | nil => rw [List.append_nil]
  | cons byte slashes =>
      obtain ⟨rfl, rest⟩ := List.forall_mem_cons.mp areSlashes
      rw [segmentsOf_slash, List.filter_append, filter_segmentsOf_slashes rest, List.append_nil]

theorem names_join {name : Bytes} (isName : IsName name) (directory : Path) :
    (directory.join name).names = directory.names ++ [name] ∧
      (directory.join name).isAbsolute = directory.isAbsolute := by
  have notAbsolute := head?_name isName
  rw [join, if_neg notAbsolute, names, names, segments, segments, isAbsolute, isAbsolute]
  split
  case isTrue ends =>
    rw [Bool.or_eq_true, isEmpty, List.isEmpty_iff, beq_iff_eq] at ends
    rcases ends with empty | isSlash
    · rw [empty, List.nil_append, filter_segmentsOf_name isName]
      exact ⟨rfl, by simpa using notAbsolute⟩
    · obtain ⟨outer, outer_eq⟩ := List.getLast?_eq_some_iff.mp isSlash
      have isText : directory.bytes ++ name = outer ++ slash :: name := by simp [outer_eq]
      have sameNames : (segmentsOf [] (outer ++ [slash])).filter (· != []) =
          (segmentsOf [] outer).filter (· != []) := filter_segmentsOf_append (by simp)
      rw [isText, outer_eq, filter_segmentsOf_slash_name isName, sameNames]
      exact ⟨rfl, by cases outer <;> rfl⟩
  case isFalse nonempty =>
    rw [filter_segmentsOf_slash_name isName]
    refine ⟨rfl, ?_⟩
    cases isDirectory : directory.bytes with
    | nil =>
        exfalso
        simp [isEmpty, isDirectory] at nonempty
    | cons byte text => rfl

theorem names_withoutFinalSlashes (path : Path) :
    (FileSystem.withoutFinalSlashes path).names = path.names ∧
      (FileSystem.withoutFinalSlashes path).isAbsolute = path.isAbsolute := by
  have isText : (path.bytes.reverse.dropWhile (· == slash)).reverse ++
      (path.bytes.reverse.takeWhile (· == slash)).reverse = path.bytes := by
    rw [← List.reverse_append, List.takeWhile_append_dropWhile, List.reverse_reverse]
  have areSlashes : ∀ byte ∈ (path.bytes.reverse.takeWhile (· == slash)).reverse, byte = slash :=
    fun byte member => by
      simpa using List.all_eq_true.mp List.all_takeWhile byte (List.mem_reverse.mp member)
  rw [FileSystem.withoutFinalSlashes]
  generalize (path.bytes.reverse.takeWhile (· == slash)).reverse = slashes at isText areSlashes
  generalize (path.bytes.reverse.dropWhile (· == slash)).reverse = text at isText ⊢
  split
  case isTrue => exact ⟨rfl, rfl⟩
  case isFalse nonempty =>
    obtain ⟨byte, rest, rfl⟩ : ∃ byte rest, text = byte :: rest :=
      List.exists_cons_of_ne_nil fun empty => nonempty (by rw [empty]; rfl)
    rw [names, names, segments, segments, isAbsolute, isAbsolute, ← isText]
    exact ⟨(filter_segmentsOf_append areSlashes).symm, rfl⟩

end Path

namespace FileSystem

def goStep (place : Place) (step : Bytes) : Place :=
  if step = dot then place else if step = dotDot then place.dropLast else place ++ [step]

def goAlong (place : Place) (steps : List Bytes) : Place := steps.foldl goStep place

def startOf (disk : FileSystem) (path : Path) : Place :=
  if path.isAbsolute then [] else disk.workingDirectory

def placeOf (disk : FileSystem) (path : Path) : Place := goAlong (disk.startOf path) path.names

def Passes (disk : FileSystem) (path : Path) (place : Place) : Prop :=
  ∃ outer, outer <+: path.names ∧ goAlong (disk.startOf path) outer = place

def Unlinked (disk : FileSystem) (path : Path) : Prop :=
  ∀ place, disk.Passes path place → ∀ target, disk.root.find? place ≠ some (.link target)

section Walks

variable {root : Entry} {place : Place} {steps : List Bytes}

theorem goStep_name {step : Bytes} (notDot : step ≠ dot) (notAbove : step ≠ dotDot) :
    goStep place step = place ++ [step] := by
  rw [goStep, if_neg notDot, if_neg notAbove]

/-- Without links a walk takes a path by its text. -/
theorem walk_unlinked (followLast : Bool)
    (unlinked : ∀ outer, outer <+: steps → ∀ target,
      root.find? (goAlong place outer) ≠ some (.link target)) :
    ∃ lookup, walk root followLast place steps = .arrived lookup ∧
      ∀ spot, lookup.spot? = some spot →
        spot.place = goAlong place steps ∧ root.find? spot.place = spot.content.map .file := by
  fun_induction walk root followLast place steps with
  | case1 place =>
      refine ⟨_, rfl, fun spot leads => ?_⟩
      cases found : root.find? place with
      | none => simp [found, Lookup.spot?] at leads
      | some entry =>
          rw [found] at leads
          cases entry with
          | file content =>
              obtain rfl : ⟨place, some content⟩ = spot := Option.some.inj leads
              exact ⟨rfl, found⟩
          | link _ => cases leads
          | directory _ => cases leads
  | case2 place rest ih =>
      exact ih fun outer isPrefix =>
        unlinked (dot :: outer) ((List.prefix_cons_inj dot).mpr isPrefix)
  | case3 place rest notDot ih =>
      exact ih fun outer isPrefix =>
        unlinked (dotDot :: outer) ((List.prefix_cons_inj dotDot).mpr isPrefix)
  | case4 place step rest notDot notAbove long => exact ⟨_, rfl, by simp [Lookup.spot?]⟩
  | case5 place step rest notDot notAbove short inner absent =>
      refine ⟨_, rfl, fun spot leads => ?_⟩
      cases rest with
      | nil =>
          obtain rfl : ⟨inner, none⟩ = spot := Option.some.inj leads
          exact ⟨(goStep_name notDot notAbove).symm, absent⟩
      | cons next rest => simp [Lookup.spot?] at leads
  | case6 place step rest notDot notAbove short inner children found ih =>
      have goes : goStep place step = inner := goStep_name notDot notAbove
      rw [goAlong, List.foldl_cons, goes]
      exact ih fun outer isPrefix =>
        goes ▸ unlinked (step :: outer) ((List.prefix_cons_inj step).mpr isPrefix)
  | case7 place step rest notDot notAbove short inner content found =>
      refine ⟨_, rfl, fun spot leads => ?_⟩
      cases rest with
      | nil =>
          obtain rfl : ⟨inner, some content⟩ = spot := Option.some.inj leads
          exact ⟨(goStep_name notDot notAbove).symm, found⟩
      | cons next rest => simp [Lookup.spot?] at leads
  | case8 place step rest notDot notAbove short inner target found last =>
      exact ⟨_, rfl, by simp [Lookup.spot?]⟩
  | case9 place step rest notDot notAbove short inner target found notLast =>
      have goes : goStep place step = inner := goStep_name notDot notAbove
      have isPrefix : [step] <+: step :: rest := ⟨rest, rfl⟩
      exact absurd found (goes ▸ unlinked [step] isPrefix target)

end Walks

theorem steps_eq (path : Path) : steps path = path.names ∨ steps path = path.names ++ [dot] := by
  rw [steps]
  split
  · exact Or.inr rfl
  · exact Or.inl rfl

section Routes

variable {disk : FileSystem} {path other : Path} {place : Place}

theorem goAlong_steps (disk : FileSystem) (path : Path) :
    goAlong (disk.startOf path) (steps path) = disk.placeOf path := by
  rcases steps_eq path with same | isSlash
  · rw [same, placeOf]
  · rw [isSlash, goAlong, List.foldl_append]
    rfl

theorem passes_of_steps {outer : List Bytes} (isPrefix : outer <+: steps path) :
    disk.Passes path (goAlong (disk.startOf path) outer) := by
  rcases steps_eq path with same | isSlash
  · exact ⟨outer, same ▸ isPrefix, rfl⟩
  · rw [isSlash, List.prefix_concat_iff] at isPrefix
    rcases isPrefix with rfl | isPrefix
    · refine ⟨path.names, List.prefix_rfl, ?_⟩
      rw [goAlong, goAlong, List.foldl_append]
      rfl
    · exact ⟨outer, isPrefix, rfl⟩

theorem spot_of_lookup (unlinked : disk.Unlinked path) {followLast : Bool} {spot : Spot}
    (leads : (disk.lookup path followLast).spot? = some spot) :
    spot.place = disk.placeOf path ∧ disk.root.find? spot.place = spot.content.map .file := by
  obtain ⟨lookup, walked, isPlace⟩ := walk_unlinked followLast
    fun outer isPrefix => unlinked _ (passes_of_steps isPrefix)
  rw [FileSystem.lookup] at leads
  split at leads
  case isTrue => simp [Lookup.spot?] at leads
  case isFalse =>
    split at leads
    case isTrue => simp [Lookup.spot?] at leads
    case isFalse =>
      have arrives := follow_arrived walked greatestLinkCount
      rw [startOf] at arrives
      rw [arrives] at leads
      rw [← goAlong_steps]
      exact isPlace spot leads

theorem passes_placeOf (disk : FileSystem) (path : Path) : disk.Passes path (disk.placeOf path) :=
  ⟨path.names, List.prefix_rfl, rfl⟩

theorem Passes.outer (passes : disk.Passes other place) (isPrefix : other.names <+: path.names)
    (sameStart : other.isAbsolute = path.isAbsolute) : disk.Passes path place := by
  obtain ⟨outer, outerPrefix, rfl⟩ := passes
  refine ⟨outer, outerPrefix.trans isPrefix, ?_⟩
  rw [startOf, startOf, sameStart]

theorem placeOf_join {name : Bytes} (isName : IsName name) (disk : FileSystem) (directory : Path) :
    disk.placeOf (directory.join name) = disk.placeOf directory ++ [name] := by
  obtain ⟨names, sameStart⟩ := Path.names_join isName directory
  rw [placeOf, placeOf, startOf, startOf, sameStart, names, goAlong, goAlong, List.foldl_append]
  exact goStep_name isName.proper.2.1 isName.proper.2.2

theorem Passes.of_single {name : Bytes} (names : path.names = [name])
    (passes : disk.Passes path place) : place = disk.startOf path ∨ place = disk.placeOf path := by
  obtain ⟨outer, isPrefix, rfl⟩ := passes
  rw [names, ← List.nil_append [name], List.prefix_concat_iff, List.prefix_nil] at isPrefix
  rcases isPrefix with rfl | rfl
  · refine Or.inr ?_
    rw [placeOf, names, List.nil_append]
  · exact Or.inl rfl

theorem Passes.of_join {name : Bytes} {directory : Path} (isName : IsName name)
    (passes : disk.Passes (directory.join name) place) :
    disk.Passes directory place ∨ place = disk.placeOf directory ++ [name] := by
  obtain ⟨names, sameStart⟩ := Path.names_join isName directory
  obtain ⟨outer, isPrefix, rfl⟩ := passes
  rw [names, List.prefix_concat_iff] at isPrefix
  rcases isPrefix with rfl | isPrefix
  · refine Or.inr ?_
    rw [← placeOf_join isName, placeOf, names]
  · refine Or.inl ⟨outer, isPrefix, ?_⟩
    rw [startOf, startOf, sameStart]

end Routes

end FileSystem

end RemarkAtlas
