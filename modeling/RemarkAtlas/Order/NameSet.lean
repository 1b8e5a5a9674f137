/-!
Finite sets of names.  A set keeps its names in ascending order, so two sets with the same names are
equal.
-/

namespace RemarkAtlas

structure NameSet where
  toList : List String
  ascending : toList.Pairwise (· < ·)
  deriving DecidableEq

namespace NameSet

instance : Repr NameSet := ⟨fun names _ => repr names.toList⟩

theorem ext_toList {left right : NameSet} (same : left.toList = right.toList) : left = right := by
  cases left
  cases right
  simp_all

def empty : NameSet := ⟨[], .nil⟩

def insertName (name : String) : List String → List String
  | [] => [name]
  | other :: rest =>
    if name < other then name :: other :: rest
    else if name = other then other :: rest
    else other :: insertName name rest

theorem mem_insertName {name other : String} {names : List String} :
    other ∈ insertName name names ↔ other = name ∨ other ∈ names := by
  induction names with
  | nil => simp [insertName]
  | cons first rest ih =>
    simp only [insertName]
    split
    · simp
    · split
      · rename_i same
        simp [same]
      · simp only [List.mem_cons, ih]
        grind

theorem pairwise_insertName (name : String) {names : List String}
    (ascending : names.Pairwise (· < ·)) : (insertName name names).Pairwise (· < ·) := by
  induction names with
  | nil => simp [insertName]
  | cons first rest ih =>
    obtain ⟨below, restAscending⟩ := List.pairwise_cons.mp ascending
    simp only [insertName]
    split
    · rename_i before
      refine List.pairwise_cons.mpr ⟨?_, ascending⟩
      intro other member
      rcases List.mem_cons.mp member with same | later
      · exact same ▸ before
      · exact String.lt_trans before (below other later)
    · split
      · exact ascending
      · rename_i notBefore different
        refine List.pairwise_cons.mpr ⟨?_, ih restAscending⟩
        intro other member
        rcases mem_insertName.mp member with same | later
        · rw [same]
          have le : first ≤ name := String.not_lt.mp notBefore
          exact String.not_le.mp fun reverse => different (String.le_antisymm reverse le)
        · exact below other later

def insert (name : String) (names : NameSet) : NameSet :=
  ⟨insertName name names.toList, pairwise_insertName name names.ascending⟩

def ofList (names : List String) : NameSet := names.foldl (fun set name => set.insert name) empty

theorem insertName_of_above {name : String} {names : List String}
    (above : ∀ other ∈ names, other < name) : insertName name names = names ++ [name] := by
  induction names with
  | nil => rfl
  | cons first rest ih =>
    have before : first < name := above first (by simp)
    have notBefore : ¬name < first :=
      fun reverse => String.lt_irrefl _ (String.lt_trans before reverse)
    have different : name ≠ first := fun same => notBefore (same ▸ before)
    rw [insertName, if_neg notBefore, if_neg different,
      ih fun other member => above other (by simp [member])]
    rfl

theorem foldl_insert (set : NameSet) {names : List String}
    (ascending : (set.toList ++ names).Pairwise (· < ·)) :
    (names.foldl (fun set name => set.insert name) set).toList = set.toList ++ names := by
  induction names generalizing set with
  | nil => simp
  | cons name rest ih =>
    have inserted : (set.insert name).toList = set.toList ++ [name] :=
      insertName_of_above fun other member =>
        (List.pairwise_append.mp ascending).2.2 other member name (by simp)
    rw [List.foldl_cons, ih (set.insert name) (by simpa [inserted] using ascending), inserted]
    simp

theorem ofList_toList (names : NameSet) : ofList names.toList = names :=
  ext_toList (foldl_insert empty names.ascending)

def contains (names : NameSet) (name : String) : Bool := names.toList.contains name

end NameSet

end RemarkAtlas
