import Mathlib.Data.List.Nodup
import RemarkAtlas.Record.Unit

/-!
What holds the pass list of a unit together: a table that locates the passes by their ids, and the
order in which a walk through the lists of sub-passes meets them.
-/

namespace RemarkAtlas

theorem getElem?_concat_eq_some {α : Type} {items : List α} {last item : α} {index : Nat} :
    (items ++ [last])[index]? = some item ↔
      items[index]? = some item ∨ index = items.length ∧ item = last := by
  rcases Nat.lt_trichotomy index items.length with before | here | after
  · rw [List.getElem?_append_left before]
    simp [Nat.ne_of_lt before]
  · subst here
    simp [eq_comm]
  · rw [List.getElem?_eq_none (by simp; omega), List.getElem?_eq_none (by omega)]
    simp [Nat.ne_of_gt after]

def Locates (positions : NameMap Nat) (ids : List String) : Prop :=
  ∀ id index, positions.get? id = some index ↔ ids[index]? = some id

namespace Locates

variable {positions : NameMap Nat} {ids : List String}

theorem empty : Locates .empty [] := by
  intro id index
  simp

theorem nodup (located : Locates positions ids) : ids.Nodup := by
  rw [List.nodup_iff_getElem?_ne_getElem?]
  intro first second before bound same
  have found := List.getElem?_eq_getElem (show first < ids.length by omega)
  have atFirst := (located _ _).mpr found
  have atSecond := (located _ _).mpr (same ▸ found)
  rw [atFirst, Option.some.injEq] at atSecond
  omega

theorem get?_eq_none_iff (located : Locates positions ids) {id : String} :
    positions.get? id = none ↔ id ∉ ids := by
  constructor
  · intro absent member
    obtain ⟨index, found⟩ := List.mem_iff_getElem?.mp member
    have located := (located id index).mpr found
    simp [absent] at located
  · intro absent
    cases found : positions.get? id with
    | none => rfl
    | some index =>
        exact (absent (List.mem_of_getElem? ((located id index).mp found))).elim

theorem lt_length (located : Locates positions ids) {id : String} {index : Nat}
    (found : positions.get? id = some index) : index < ids.length :=
  (List.getElem?_eq_some_iff.mp ((located id index).mp found)).1

theorem insert (located : Locates positions ids) {id : String} (fresh : id ∉ ids) :
    Locates (positions.insert id ids.length) (ids ++ [id]) := by
  intro query index
  rw [NameMap.get?_insert, getElem?_concat_eq_some]
  by_cases same : query = id
  · subst same
    rw [if_pos rfl, Option.some.injEq]
    constructor
    · intro last
      exact Or.inr ⟨last.symm, rfl⟩
    · rintro (found | ⟨last, _⟩)
      · exact (fresh (List.mem_of_getElem? found)).elim
      · exact last.symm
  · rw [if_neg same, located query index]
    simp [same]

theorem unique {others : NameMap Nat} (located : Locates positions ids)
    (othersLocated : Locates others ids) : positions = others := by
  refine NameMap.ext_get? ?_
  intro id
  refine Option.ext ?_
  intro index
  rw [located id index, othersLocated id index]

end Locates

/-- Walking from the passes at some positions through their sub-passes, depth first, meets the
positions of a second list in its order. -/
inductive Visits (passes : List Pass) : List Nat → List Nat → Prop
  | done : Visits passes [] []
  | visit {index pass rest below later} : passes[index]? = some pass →
      Visits passes pass.children below → Visits passes rest later →
      Visits passes (index :: rest) (index :: below ++ later)

namespace Visits

variable {passes : List Pass} {roots order : List Nat}

theorem roots_subset (visits : Visits passes roots order) : roots ⊆ order := by
  induction visits with
  | done => exact List.Subset.refl []
  | visit _ _ _ _ laterSubset =>
      intro index member
      rcases List.mem_cons.mp member with same | later
      · simp [same]
      · simp [laterSubset later]

theorem children_subset (visits : Visits passes roots order) {index : Nat} {pass : Pass}
    (met : index ∈ order) (found : passes[index]? = some pass) : pass.children ⊆ order := by
  induction visits with
  | done => simp at met
  | visit here belowVisits _ belowSubset laterSubset =>
      rcases List.mem_cons.mp met with same | met
      · subst same
        rw [here, Option.some.injEq] at found
        subst found
        intro child member
        simp [belowVisits.roots_subset member]
      · rcases List.mem_append.mp met with inside | outside
        · intro child member
          simp [belowSubset inside member]
        · intro child member
          simp [laterSubset outside member]

end Visits

end RemarkAtlas
