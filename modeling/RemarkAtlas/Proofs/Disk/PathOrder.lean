import RemarkAtlas.Disk.Scan
import RemarkAtlas.Proofs.Disk.Route

/-!
The order of paths: part by part, not by their texts.  Below one directory it is the order of the
places, whatever bytes stand in the names.
-/

namespace RemarkAtlas

namespace PathPart

def rank : PathPart → Nat
  | root => 0
  | here => 1
  | above => 2
  | name _ => 3

def nameBytes : PathPart → Bytes
  | name bytes => bytes
  | _ => []

instance : Ord PathPart := ⟨compareLex (compareOn rank) (compareOn nameBytes)⟩

instance : Std.TransOrd PathPart :=
  inferInstanceAs (Std.TransCmp (compareLex (compareOn rank) (compareOn nameBytes)))

theorem compare_name (left right : Bytes) :
    compare (name left) (name right) = compare left right := rfl

theorem compare_map_name (left right : Place) :
    compare (left.map name) (right.map name) = compare left right := by
  rw [List.compare_eq_compareLex, List.compare_eq_compareLex]
  induction left generalizing right with
  | nil => cases right <;> rfl
  | cons first left ih =>
      cases right with
      | nil => rfl
      | cons other right =>
          rw [List.map_cons, List.map_cons, List.compareLex_cons_cons, ih,
            compare_name, List.compareLex_cons_cons]

end PathPart

theorem compare_append_left {Part : Type} [Ord Part] [Std.ReflOrd Part]
    (start left right : List Part) :
    compare (start ++ left) (start ++ right) = compare left right := by
  induction start with
  | nil => rfl
  | cons part start ih =>
      rw [List.compare_eq_compareLex] at ih ⊢
      rw [List.cons_append, List.cons_append, List.compareLex_cons_cons,
        Std.ReflOrd.compare_self, ih]
      rfl

namespace Path

theorem partsOf_append (left right : List Bytes) :
    partsOf (left ++ right) = partsOf left ++ partsOf right := by
  induction left with
  | nil => rfl
  | cons segment left ih =>
    rw [List.cons_append, partsOf, partsOf, ih]
    split
    · rfl
    · split <;> rfl

theorem partsOf_filter (segments : List Bytes) :
    partsOf (segments.filter (· != [])) = partsOf segments := by
  induction segments with
  | nil => rfl
  | cons segment segments ih =>
      by_cases empty : segment = []
      · rw [List.filter_cons_of_neg (by simp [empty]), ih, partsOf, if_pos (Or.inl empty)]
      · rw [List.filter_cons_of_pos (by simp [empty]), partsOf, partsOf, ih]

def startParts (absolute : Bool) (names : List Bytes) : List PathPart :=
  if absolute then [.root] else if names.head? = some dot then [.here] else []

/-- Only the empty path begins with an empty segment, and that is its only one. -/
theorem head?_names {path : Path} (relative : path.isAbsolute = false) :
    path.names.head? = some dot ↔ path.segments.head? = some dot := by
  rw [names]
  cases isSegments : path.segments with
  | nil => rfl
  | cons first rest =>
      by_cases empty : first = []
      · subst empty
        obtain rfl : rest = [] := by
          by_contra more
          obtain ⟨byte, _, isFirst⟩ := head?_first isSegments relative more
          simp at isFirst
        decide
      · rw [List.filter_cons_of_pos (by simp [empty]), List.head?_cons, List.head?_cons]

theorem parts_eq (path : Path) :
    path.parts = startParts path.isAbsolute path.names ++ partsOf path.names := by
  have sameParts : partsOf path.names = partsOf path.segments := partsOf_filter _
  rw [sameParts, startParts]
  cases start : path.isAbsolute with
  | true => rw [parts, start, if_pos rfl, List.singleton_append]
  | false =>
      rw [if_neg Bool.false_ne_true]
      simp only [head?_names start]
      rw [parts, start]
      dsimp only
      split
      case isTrue isDot =>
        obtain ⟨rest, isSegments⟩ := List.head?_eq_some_iff.mp isDot
        rw [isSegments]
        rfl
      case isFalse => rfl

theorem startParts_concat {name : Bytes} (isName : IsName name) (absolute : Bool)
    (names : List Bytes) : startParts absolute (names ++ [name]) = startParts absolute names := by
  cases names with
  | nil => simp [startParts, isName.proper.2.1]
  | cons first rest => rfl

theorem parts_join {name : Bytes} (isName : IsName name) (directory : Path) :
    (directory.join name).parts = directory.parts ++ [.name name] := by
  obtain ⟨names, sameStart⟩ := names_join isName directory
  have last : partsOf [name] = [.name name] := by
    simp [partsOf, isName.proper]
  rw [parts_eq, parts_eq, names, sameStart, startParts_concat isName, partsOf_append, last,
    List.append_assoc]

theorem parts_below {place : Place} (areNames : ∀ name ∈ place, IsName name) (directory : Path) :
    (directory.below place).parts = directory.parts ++ place.map .name := by
  induction place generalizing directory with
  | nil => simp [below]
  | cons name place ih =>
      obtain ⟨isName, areNames⟩ := List.forall_mem_cons.mp areNames
      have below_eq : directory.below (name :: place) = (directory.join name).below place := rfl
      rw [below_eq, ih areNames, parts_join isName, List.append_assoc]
      rfl

instance : Ord Path := ⟨compareOn parts⟩

instance : Std.TransOrd Path := inferInstanceAs (Std.TransCmp (compareOn parts))

theorem compare_below {left right : Place} (leftNames : ∀ name ∈ left, IsName name)
    (rightNames : ∀ name ∈ right, IsName name) (directory : Path) :
    compare (directory.below left) (directory.below right) = compare left right := by
  have byParts : compare (directory.below left) (directory.below right) =
      compare (directory.below left).parts (directory.below right).parts := rfl
  rw [byParts, parts_below leftNames, parts_below rightNames, compare_append_left,
    PathPart.compare_map_name]

end Path

end RemarkAtlas
