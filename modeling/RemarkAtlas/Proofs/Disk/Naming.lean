import Mathlib.Data.List.Basic
import RemarkAtlas.Proofs.Disk.Writing
import RemarkAtlas.Proofs.Text.Utf8

/-!
Paths that end in a name inside a directory.  Unless the name is that of a symbolic link, the place
that such a path leads to ends in the name.
-/

namespace RemarkAtlas

open Path (slash dot dotDot)

structure IsName (name : Bytes) : Prop where
  noSlash : slash ∉ name
  proper : name ≠ [] ∧ name ≠ dot ∧ name ≠ dotDot

instance (name : Bytes) : Decidable (IsName name) :=
  decidable_of_iff (slash ∉ name ∧ name ≠ [] ∧ name ≠ dot ∧ name ≠ dotDot)
    ⟨fun ⟨noSlash, proper⟩ => ⟨noSlash, proper⟩, fun isName => ⟨isName.noSlash, isName.proper⟩⟩

theorem IsName.of_text {name : String} (noSlash : '/' ∉ name.toList)
    (proper : name ≠ "" ∧ name ≠ "." ∧ name ≠ "..") : IsName name where
  noSlash slashByte := noSlash ((Utf8.mem_encode_ascii (by decide)).mp slashByte)
  proper := by
    have differs : ∀ {other : String}, name ≠ other → Utf8.encode name ≠ Utf8.encode other :=
      fun different same => different (Utf8.encode_injective same)
    exact ⟨differs proper.1, differs proper.2.1, differs proper.2.2⟩

namespace Path

theorem segmentsOf_of_noSlash {text : Bytes} (noSlash : slash ∉ text) (reversed : Bytes) :
    segmentsOf reversed text = [reversed.reverse ++ text] := by
  induction text generalizing reversed with
  | nil => simp [segmentsOf]
  | cons byte text ih =>
      rw [List.mem_cons, not_or] at noSlash
      rw [segmentsOf, if_neg (Ne.symm noSlash.1), ih noSlash.2]
      simp

theorem segmentsOf_slash (reversed text rest : Bytes) :
    segmentsOf reversed (text ++ slash :: rest) = segmentsOf reversed text ++ segmentsOf [] rest := by
  induction text generalizing reversed with
  | nil => simp [segmentsOf]
  | cons byte text ih =>
      by_cases isSlash : byte = slash
      · simp [segmentsOf, isSlash, ih]
      · simp [segmentsOf, isSlash, ih]

section Names

variable {name : Bytes} (isName : IsName name)
include isName

theorem head?_name : name.head? ≠ some slash := fun starts =>
  isName.noSlash (List.mem_of_head? starts)

theorem filter_segmentsOf_name : (segmentsOf [] name).filter (· != []) = [name] := by
  rw [segmentsOf_of_noSlash isName.noSlash]
  simpa using isName.proper.1

theorem filter_segmentsOf_slash_name (outer : Bytes) :
    (segmentsOf [] (outer ++ slash :: name)).filter (· != []) =
      (segmentsOf [] outer).filter (· != []) ++ [name] := by
  rw [segmentsOf_slash, List.filter_append, filter_segmentsOf_name isName]

theorem bytes_join (directory : Path) :
    (directory.join name).bytes = name ∨
      ∃ outer, (directory.join name).bytes = outer ++ slash :: name := by
  rw [join, if_neg (head?_name isName)]
  split
  case isTrue ends =>
    rw [Bool.or_eq_true, isEmpty, List.isEmpty_iff, beq_iff_eq] at ends
    rcases ends with empty | isSlash
    · simp [empty]
    · obtain ⟨outer, outer_eq⟩ := List.getLast?_eq_some_iff.mp isSlash
      simp [outer_eq]
  case isFalse => exact Or.inr ⟨_, rfl⟩

theorem getLast?_steps_join (directory : Path) :
    (FileSystem.steps (directory.join name)).getLast? = some name := by
  have nonempty : name ≠ [] := isName.proper.1
  have last : name.getLast? ≠ some slash := fun isSlash =>
    isName.noSlash (List.mem_of_getLast? isSlash)
  rw [FileSystem.steps, segments]
  rcases bytes_join isName directory with alone | ⟨outer, after⟩
  · rw [alone, if_neg last, filter_segmentsOf_name isName]
    rfl
  · rw [after, List.getLast?_append_cons, List.getLast?_cons_of_ne_nil nonempty, if_neg last,
      filter_segmentsOf_slash_name isName, List.getLast?_concat]

end Names

end Path

def Lookup.isLink : Lookup → Bool
  | found _ (.link _) => true
  | _ => false

namespace FileSystem

section Walks

variable {root : Entry} {name : Bytes}

def Walk.isLink : Walk → Bool
  | .arrived lookup => lookup.isLink
  | .detour _ _ _ => false

/-- Only at a link does it matter whether the last link is followed. -/
theorem walk_followLast (steps : List Bytes) (place : Place)
    (notLink : ¬ (walk root false place steps).isLink) :
    walk root true place steps = walk root false place steps := by
  fun_induction walk root false place steps with
  | case1 place => rfl
  | case2 place rest ih =>
      rw [walk, if_pos rfl]
      exact ih notLink
  | case3 place rest notDot ih =>
      rw [walk, if_neg notDot, if_pos rfl]
      exact ih notLink
  | case4 place step rest notDot notAbove long =>
      rw [walk, if_neg notDot, if_neg notAbove, if_pos long]
  | case5 place step rest notDot notAbove short inner absent =>
      rw [walk_name root true place rest notDot notAbove short, absent]
  | case6 place step rest notDot notAbove short inner children found ih =>
      rw [walk_name root true place rest notDot notAbove short, found]
      exact ih notLink
  | case7 place step rest notDot notAbove short inner content found =>
      rw [walk_name root true place rest notDot notAbove short, found]
  | case8 place step rest notDot notAbove short inner link found last =>
      exact absurd rfl notLink
  | case9 place step rest notDot notAbove short inner link found notLast =>
      rw [walk_name root true place rest notDot notAbove short, found]
      simp

def Walk.EndsIn (name : Bytes) : Walk → Prop
  | .arrived lookup => ∀ spot, lookup.spot? = some spot → spot.place.getLast? = some name
  | .detour _ _ rest => rest.getLast? = some name

theorem walk_endsIn (isName : IsName name) (place : Place) (path : List Bytes)
    (ends : path.getLast? = some name) : (walk root false place path).EndsIn name := by
  -- As long as more steps follow, the last one stays the name.
  have isLast : ∀ {step : Bytes} {rest : List Bytes}, (step :: rest).getLast? = some name →
      step = name ∧ rest = [] ∨ rest.getLast? = some name := by
    intro step rest ends
    cases rest with
    | nil => exact Or.inl (by simpa using ends)
    | cons next rest => exact Or.inr ends
  have proper := isName.proper
  fun_induction walk root false place path with
  | case1 place => simp at ends
  | case2 place rest ih =>
      rcases isLast ends with ⟨same, _⟩ | ends
      · exact absurd same.symm proper.2.1
      · exact ih ends
  | case3 place rest notDot ih =>
      rcases isLast ends with ⟨same, _⟩ | ends
      · exact absurd same.symm proper.2.2
      · exact ih ends
  | case4 place step rest notDot notAbove long => simp [Walk.EndsIn, Lookup.spot?]
  | case5 place step rest notDot notAbove short inner absent =>
      rcases isLast ends with ⟨rfl, rfl⟩ | ends
      · simp [Walk.EndsIn, Lookup.spot?, inner]
      · cases rest with
        | nil => simp at ends
        | cons next rest => simp [Walk.EndsIn, Lookup.spot?]
  | case6 place step rest notDot notAbove short inner children found ih =>
      rcases isLast ends with ⟨rfl, rfl⟩ | ends
      · simp [walk, inner, found, Walk.EndsIn, Lookup.spot?]
      · exact ih ends
  | case7 place step rest notDot notAbove short inner content found =>
      rcases isLast ends with ⟨rfl, rfl⟩ | ends
      · simp [Walk.EndsIn, Lookup.spot?, inner]
      · cases rest with
        | nil => simp at ends
        | cons next rest => simp [Walk.EndsIn, Lookup.spot?]
  | case8 place step rest notDot notAbove short inner link found last =>
      simp [Walk.EndsIn, Lookup.spot?]
  | case9 place step rest notDot notAbove short inner link found notLast =>
      rcases isLast ends with ⟨rfl, rfl⟩ | ends
      · simp at notLast
      · exact ends

theorem follow_followLast (links : Nat) (place : Place) (path : List Bytes)
    (notLink : ¬ (follow root false links place path).isLink) :
    follow root true links place path = follow root false links place path := by
  fun_induction follow root false links place path with
  | case1 links place path lookup walked =>
      have same := walk_followLast path place (by rwa [walked])
      exact follow_arrived (same.trans walked) links
  | case2 place path outer target rest walked =>
      have same := walk_followLast path place (by rw [walked]; exact Bool.false_ne_true)
      exact follow_blocked (same.trans walked)
  | case3 place path outer target rest links walked ih =>
      have same := walk_followLast path place (by rw [walked]; exact Bool.false_ne_true)
      rw [follow_detour (same.trans walked)]
      exact ih notLink

theorem follow_endsIn (isName : IsName name) (links : Nat) (place : Place) (path : List Bytes)
    (ends : path.getLast? = some name) {spot : Spot}
    (leads : (follow root false links place path).spot? = some spot) :
    spot.place.getLast? = some name := by
  fun_induction follow root false links place path with
  | case1 links place path lookup walked =>
      have endsIn : (walk root false place path).EndsIn name := walk_endsIn isName place path ends
      rw [walked] at endsIn
      exact endsIn spot leads
  | case2 => simp [Lookup.spot?] at leads
  | case3 place path outer target rest links walked ih =>
      have endsIn : (walk root false place path).EndsIn name := walk_endsIn isName place path ends
      rw [walked] at endsIn
      exact ih (List.mem_getLast?_append_of_mem_getLast? endsIn) leads

end Walks

theorem spot?_join (disk : FileSystem) {name : Bytes} (isName : IsName name) (directory : Path)
    (notLink : ¬ (disk.lookup (directory.join name) false).isLink) {spot : Spot}
    (leads : disk.spot? (directory.join name) = some spot) :
    spot.place.getLast? = some name := by
  have ends := Path.getLast?_steps_join isName directory
  rw [spot?, lookup] at leads
  rw [lookup] at notLink
  split at leads
  case isTrue => simp [Lookup.spot?] at leads
  case isFalse usable =>
    split at leads
    case isTrue => simp [Lookup.spot?] at leads
    case isFalse nonempty =>
      rw [if_neg usable, if_neg nonempty] at notLink
      rw [follow_followLast _ _ _ notLink] at leads
      exact follow_endsIn isName _ _ _ ends leads

end FileSystem

end RemarkAtlas
