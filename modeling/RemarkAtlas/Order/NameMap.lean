/-!
Finite maps from names.  A map keeps its names in ascending order, each once, so two maps that give
every name the same value are equal.
-/

namespace RemarkAtlas

structure NameMap (α : Type) where
  entries : List (String × α)
  ascending : entries.Pairwise fun left right => left.1 < right.1

namespace NameMap

variable {α : Type}

instance [Repr α] : Repr (NameMap α) := ⟨fun map _ => repr map.entries⟩

def empty : NameMap α := ⟨[], .nil⟩

def get? (map : NameMap α) (name : String) : Option α := List.lookup name map.entries

def contains (map : NameMap α) (name : String) : Bool := (map.get? name).isSome

def insertEntry (name : String) (value : α) : List (String × α) → List (String × α)
  | [] => [(name, value)]
  | (other, previous) :: rest =>
    if name < other then (name, value) :: (other, previous) :: rest
    else if name = other then (name, value) :: rest
    else (other, previous) :: insertEntry name value rest

theorem eq_or_mem_of_mem_insertEntry {name : String} {value : α} {entry : String × α}
    {entries : List (String × α)} (member : entry ∈ insertEntry name value entries) :
    entry = (name, value) ∨ entry ∈ entries := by
  induction entries with
  | nil => simpa [insertEntry] using member
  | cons first rest ih =>
    simp only [insertEntry] at member
    split at member
    · simpa using member
    · split at member
      · rcases List.mem_cons.mp member with same | later
        · exact Or.inl same
        · exact Or.inr (List.mem_cons_of_mem first later)
      · rcases List.mem_cons.mp member with same | later
        · exact Or.inr (by simp [same])
        · exact (ih later).imp_right (List.mem_cons_of_mem first)

theorem pairwise_insertEntry (name : String) (value : α) {entries : List (String × α)}
    (ascending : entries.Pairwise fun left right => left.1 < right.1) :
    (insertEntry name value entries).Pairwise fun left right => left.1 < right.1 := by
  induction entries with
  | nil => simp [insertEntry]
  | cons first rest ih =>
    obtain ⟨below, restAscending⟩ := List.pairwise_cons.mp ascending
    simp only [insertEntry]
    split
    · rename_i before
      refine List.pairwise_cons.mpr ⟨?_, ascending⟩
      intro entry member
      rcases List.mem_cons.mp member with same | later
      · exact same ▸ before
      · exact String.lt_trans before (below entry later)
    · split
      · rename_i notBefore same
        exact List.pairwise_cons.mpr ⟨fun entry member => same ▸ below entry member, restAscending⟩
      · rename_i notBefore different
        refine List.pairwise_cons.mpr ⟨?_, ih restAscending⟩
        intro entry member
        rcases eq_or_mem_of_mem_insertEntry member with same | later
        · rw [same]
          have le : first.1 ≤ name := String.not_lt.mp notBefore
          exact String.not_le.mp fun reverse => different (String.le_antisymm reverse le)
        · exact below entry later

theorem lookup_insertEntry (name other : String) (value : α) (entries : List (String × α)) :
    List.lookup other (insertEntry name value entries) =
      if other = name then some value else List.lookup other entries := by
  induction entries with
  | nil =>
    simp only [insertEntry, List.lookup_cons, List.lookup_nil]
    grind
  | cons first rest ih =>
    simp only [insertEntry]
    grind

def insert (map : NameMap α) (name : String) (value : α) : NameMap α :=
  ⟨insertEntry name value map.entries, pairwise_insertEntry name value map.ascending⟩

@[simp] theorem get?_empty (name : String) : (empty : NameMap α).get? name = none := rfl

theorem get?_insert (map : NameMap α) (name other : String) (value : α) :
    (map.insert name value).get? other = if other = name then some value else map.get? other :=
  lookup_insertEntry name other value map.entries

theorem lookup_of_below {name : String} {entries : List (String × α)}
    (below : ∀ entry ∈ entries, name < entry.1) : List.lookup name entries = none := by
  refine List.lookup_eq_none_iff.mpr ?_
  intro entry member
  exact bne_iff_ne.mpr fun same => String.lt_irrefl _ (same ▸ below entry member)

theorem lookup_of_before {name : String} {first : String × α} {rest : List (String × α)}
    (ascending : (first :: rest).Pairwise fun left right => left.1 < right.1)
    (before : name < first.1) : List.lookup name (first :: rest) = none := by
  refine lookup_of_below ?_
  intro entry member
  rcases List.mem_cons.mp member with same | later
  · exact same ▸ before
  · exact String.lt_trans before ((List.pairwise_cons.mp ascending).1 entry later)

theorem entries_ext {left right : List (String × α)}
    (leftAscending : left.Pairwise fun left right => left.1 < right.1)
    (rightAscending : right.Pairwise fun left right => left.1 < right.1)
    (same : ∀ name, List.lookup name left = List.lookup name right) : left = right := by
  induction left generalizing right with
  | nil =>
    cases right with
    | nil => rfl
    | cons other others =>
      obtain ⟨name, value⟩ := other
      simpa [List.lookup_cons] using same name
  | cons first rest ih =>
    cases right with
    | nil =>
      obtain ⟨name, value⟩ := first
      simpa [List.lookup_cons] using same name
    | cons other others =>
      obtain ⟨name, value⟩ := first
      obtain ⟨otherName, otherValue⟩ := other
      -- A smaller first name would have a value on one side only.
      have sameName : name = otherName := by
        refine String.le_antisymm (String.not_lt.mp fun before => ?_)
          (String.not_lt.mp fun before => ?_)
        · simpa [lookup_of_before leftAscending before] using same otherName
        · simpa [lookup_of_before rightAscending before] using same name
      subst sameName
      obtain ⟨below, restAscending⟩ := List.pairwise_cons.mp leftAscending
      obtain ⟨otherBelow, othersAscending⟩ := List.pairwise_cons.mp rightAscending
      have sameValue : value = otherValue := by simpa [List.lookup_cons] using same name
      have sameRest : rest = others := by
        refine ih restAscending othersAscending ?_
        intro query
        by_cases isFirst : query = name
        · rw [isFirst, lookup_of_below below, lookup_of_below otherBelow]
        · simpa [List.lookup_cons, beq_false_of_ne isFirst] using same query
      rw [sameValue, sameRest]

theorem ext_get? {left right : NameMap α} (same : ∀ name, left.get? name = right.get? name) :
    left = right := by
  obtain ⟨entries, ascending⟩ := left
  obtain ⟨others, othersAscending⟩ := right
  have equal : entries = others := entries_ext ascending othersAscending same
  subst equal
  rfl

end NameMap

end RemarkAtlas
