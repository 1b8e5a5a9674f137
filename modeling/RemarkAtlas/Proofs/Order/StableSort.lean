import Mathlib.Data.List.Basic

/-!
Stable sorting: what a sort does not tell apart keeps its order.
-/

namespace RemarkAtlas

/-- Sorting a list that is in some order already puts items first by the new order, and those that
are alike in it by the old one. -/
theorem pairwise_mergeSort_stable {Item : Type} (le : Item → Item → Bool)
    (trans : ∀ first second third, le first second → le second third → le first third)
    (total : ∀ first second, le first second || le second first)
    {before : Item → Item → Prop} {items : List Item} (ordered : items.Pairwise before) :
    (items.mergeSort le).Pairwise fun left right =>
      le left right = true ∧ (le right left = true → before left right) := by
  induction items with
  | nil => simp
  | cons item rest ih =>
      obtain ⟨first, restOrdered⟩ := List.pairwise_cons.mp ordered
      obtain ⟨colder, others, sorted, restSorted, strict⟩ := List.mergeSort_cons trans total item rest
      have sortedPairs := List.pairwise_mergeSort trans total (item :: rest)
      have restPairs := ih restOrdered
      rw [sorted, List.pairwise_append, List.pairwise_cons] at sortedPairs
      rw [restSorted, List.pairwise_append] at restPairs
      obtain ⟨_, ⟨belowItem, _⟩, aboveItem⟩ := sortedPairs
      obtain ⟨colderPairs, othersPairs, across⟩ := restPairs
      rw [sorted, List.pairwise_append, List.pairwise_cons]
      refine ⟨colderPairs, ⟨?_, othersPairs⟩, ?_⟩
      · intro other member
        have inRest : other ∈ rest := by
          rw [← (List.mergeSort_perm rest le).mem_iff, restSorted]
          exact List.mem_append_right colder member
        exact ⟨belowItem other member, fun _ => first other inRest⟩
      · intro left leftMember right rightMember
        rcases List.mem_cons.mp rightMember with rfl | later
        · refine ⟨aboveItem left leftMember right rightMember, fun reverse => ?_⟩
          have notBelow := strict left leftMember
          simp [reverse] at notBelow
        · exact across left leftMember right later

section Selecting

variable {Item : Type} {le : Item → Item → Bool}
  (trans : ∀ first second third, le first second → le second third → le first third)
  (total : ∀ first second, le first second || le second first)
include trans total

/-- A new first item parts the sorted rest into what has to be before it and what has not. -/
theorem exists_mergeSort_cons (item : Item) (rest : List Item) :
    ∃ before after, rest.mergeSort le = before ++ after ∧
      (item :: rest).mergeSort le = before ++ item :: after ∧
      before = (rest.mergeSort le).filter (fun other => !le item other) ∧
      after = (rest.mergeSort le).filter (le item) := by
  obtain ⟨before, after, sorted, restSorted, strict⟩ := List.mergeSort_cons trans total item rest
  have pairs := List.pairwise_mergeSort trans total (item :: rest)
  rw [sorted, List.pairwise_append, List.pairwise_cons] at pairs
  have above : ∀ other ∈ after, le item other = true := pairs.2.1.1
  have keepBefore : before.filter (fun other => !le item other) = before :=
    List.filter_eq_self.mpr strict
  have dropAfter : after.filter (fun other => !le item other) = [] :=
    List.filter_eq_nil_iff.mpr fun other member => by simp [above other member]
  have dropBefore : before.filter (le item) = [] :=
    List.filter_eq_nil_iff.mpr fun other member => by simpa using strict other member
  have keepAfter : after.filter (le item) = after := List.filter_eq_self.mpr above
  refine ⟨before, after, restSorted, sorted, ?_, ?_⟩
  · rw [restSorted, List.filter_append, keepBefore, dropAfter, List.append_nil]
  · rw [restSorted, List.filter_append, dropBefore, keepAfter, List.nil_append]

/-- Leaving items out of a sorted list gives what sorting the others gives. -/
theorem filter_mergeSort (keep : Item → Bool) (items : List Item) :
    (items.mergeSort le).filter keep = (items.filter keep).mergeSort le := by
  induction items with
  | nil => simp
  | cons item rest ih =>
      obtain ⟨before, after, restSorted, sorted, isBefore, isAfter⟩ :=
        exists_mergeSort_cons trans total item rest
      cases kept : keep item with
      | false =>
          rw [List.filter_cons_of_neg (by simp [kept]), ← ih, sorted, restSorted,
            List.filter_append, List.filter_append, List.filter_cons_of_neg (by simp [kept])]
      | true =>
          obtain ⟨keptBefore, keptAfter, _, keptSorted, isKeptBefore, isKeptAfter⟩ :=
            exists_mergeSort_cons trans total item (rest.filter keep)
          rw [← ih, List.filter_comm] at isKeptBefore isKeptAfter
          rw [List.filter_cons_of_pos kept, keptSorted, sorted, List.filter_append,
            List.filter_cons_of_pos kept, isKeptBefore, isKeptAfter, ← isBefore, ← isAfter]

end Selecting

section Comparing

variable {Item : Type} [Ord Item] [Std.TransOrd Item]

theorem isLE_compare_trans (first second third : Item)
    (left : (compare first second).isLE) (right : (compare second third).isLE) :
    (compare first third).isLE :=
  Std.TransOrd.isLE_trans left right

theorem isLE_compare_total (first second : Item) :
    (compare first second).isLE || (compare second first).isLE := by
  rw [Std.OrientedOrd.eq_swap (a := second)]
  cases compare first second <;> rfl

variable [Std.LawfulEqOrd Item]

/-- Where only equal items compare as equal, sorting makes up for any order of the items. -/
theorem mergeSort_compare_perm {items others : List Item} (perm : items.Perm others) :
    items.mergeSort (fun left right => (compare left right).isLE) =
      others.mergeSort (fun left right => (compare left right).isLE) := by
  have sorted := List.pairwise_mergeSort isLE_compare_trans (@isLE_compare_total Item _ _)
  refine List.Perm.eq_of_pairwise ?_ (sorted items) (sorted others)
    (((List.mergeSort_perm items _).trans perm).trans (List.mergeSort_perm others _).symm)
  intro left right _ _ atMost atLeast
  exact Std.LawfulEqOrd.eq_of_compare (Std.OrientedCmp.isLE_antisymm atMost atLeast)

theorem pairwise_lt_mergeSort {items : List Item} (distinct : items.Nodup) :
    (items.mergeSort fun left right => (compare left right).isLE).Pairwise
      fun left right => compare left right = .lt := by
  have sorted := List.pairwise_mergeSort isLE_compare_trans isLE_compare_total items
  refine sorted.imp₂ ?_ ((List.mergeSort_perm items _).nodup_iff.mpr distinct)
  intro left right atMost different
  cases order : compare left right with
  | lt => rfl
  | eq => exact absurd (Std.LawfulEqOrd.eq_of_compare order) different
  | gt => simp [order] at atMost

end Comparing

end RemarkAtlas
