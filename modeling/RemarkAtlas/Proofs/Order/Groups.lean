import Mathlib.Data.List.Dedup
import Mathlib.Data.List.Forall2
import Mathlib.Data.List.Induction
import Mathlib.Data.List.Perm.Basic
import RemarkAtlas.Order.Groups

/-!
Laws of grouping.  The groups partition the items that have a key: each key has one group, which
holds the items with that key in the order of the list.
-/

namespace RemarkAtlas.Groups

section Change

variable {Key Item Other : Type} [Ord Key]

theorem add_map (change : Item → Other) (key : Key) (item : Item)
    (groups : List (Key × List Item)) :
    add key (change item) (groups.map (Prod.map id (List.map change))) =
      (add key item groups).map (Prod.map id (List.map change)) := by
  induction groups with
  | nil => rfl
  | cons group rest ih =>
      obtain ⟨other, items⟩ := group
      cases order : compare key other with
      | lt => simp [add, order]
      | eq => simp [add, order]
      | gt => simp [add, order, ih]

/-- Changing the items changes the items of the groups. -/
theorem byKey_map (change : Item → Other) (key? : Other → Option Key) (items : List Item) :
    byKey key? (items.map change) =
      (byKey (fun item => key? (change item)) items).map (Prod.map id (List.map change)) := by
  have regroup : ∀ groups : List (Key × List Item),
      items.foldl (fun groups item => addIfKeyed key? groups (change item))
          (groups.map (Prod.map id (List.map change))) =
        (items.foldl (addIfKeyed fun item => key? (change item)) groups).map
          (Prod.map id (List.map change)) := by
    intro groups
    refine List.foldl_hom (List.map (Prod.map id (List.map change))) ?_
    intro groups item
    cases keyed : key? (change item) with
    | none => simp [addIfKeyed, keyed]
    | some key => simp [addIfKeyed, keyed, add_map]
  rw [byKey, byKey, List.foldl_map]
  exact regroup []

theorem byKey_concat (key? : Item → Option Key) (items : List Item) (item : Item) :
    byKey key? (items ++ [item]) = addIfKeyed key? (byKey key? items) item := by
  rw [byKey, byKey, List.foldl_append]
  rfl

end Change

section Partition

variable {Key Item : Type} [Ord Key] [Std.LawfulEqOrd Key]

theorem mem_add {key : Key} {item : Item} {group : Key × List Item}
    {groups : List (Key × List Item)} (member : group ∈ add key item groups) :
    group ∈ groups ∨ group.1 = key ∧ ∃ earlier, group.2 = earlier ++ [item] := by
  induction groups with
  | nil =>
      rw [add, List.mem_singleton] at member
      exact Or.inr ⟨congrArg Prod.fst member, [], congrArg Prod.snd member⟩
  | cons first rest ih =>
      obtain ⟨other, items⟩ := first
      cases order : compare key other with
      | lt =>
          simp only [add, order] at member
          rcases List.mem_cons.mp member with rfl | old
          · exact Or.inr ⟨rfl, [], rfl⟩
          · exact Or.inl old
      | eq =>
          simp only [add, order] at member
          rcases List.mem_cons.mp member with rfl | old
          · exact Or.inr ⟨(Std.LawfulEqOrd.eq_of_compare order).symm, items, rfl⟩
          · exact Or.inl (List.mem_cons_of_mem _ old)
      | gt =>
          simp only [add, order] at member
          rcases List.mem_cons.mp member with rfl | later
          · exact Or.inl (List.mem_cons_self ..)
          · exact (ih later).imp_left (List.mem_cons_of_mem _)

theorem byKey_nonempty (key? : Item → Option Key) (items : List Item) :
    ∀ group ∈ byKey key? items, group.2 ≠ [] := by
  induction items using List.reverseRecOn with
  | nil => simp [byKey]
  | append_singleton items item ih =>
      rw [byKey_concat, addIfKeyed]
      cases key? item with
      | none => exact ih
      | some key =>
          intro group member
          rcases mem_add member with old | ⟨_, earlier, grown⟩
          · exact ih group old
          · simp [grown]

variable [Std.TransOrd Key]

def Ascending (groups : List (Key × List Item)) : Prop :=
  groups.Pairwise fun left right => compare left.1 right.1 = .lt

theorem ascending_add (key : Key) (item : Item) {groups : List (Key × List Item)}
    (ascending : Ascending groups) : Ascending (add key item groups) := by
  induction groups with
  | nil => simp [Ascending, add]
  | cons first rest ih =>
      obtain ⟨other, items⟩ := first
      obtain ⟨below, restAscending⟩ := List.pairwise_cons.mp ascending
      cases order : compare key other with
      | lt =>
          simp only [add, order]
          refine List.pairwise_cons.mpr ⟨?_, ascending⟩
          intro group member
          rcases List.mem_cons.mp member with rfl | later
          · exact order
          · exact Std.TransCmp.lt_trans order (below group later)
      | eq =>
          simp only [add, order]
          exact List.pairwise_cons.mpr ⟨below, restAscending⟩
      | gt =>
          simp only [add, order]
          refine List.pairwise_cons.mpr ⟨?_, ih restAscending⟩
          intro group member
          rcases mem_add member with later | ⟨same, _⟩
          · exact below group later
          · exact same ▸ Std.OrientedCmp.lt_of_gt order

theorem ascending_byKey (key? : Item → Option Key) (items : List Item) :
    Ascending (byKey key? items) := by
  induction items using List.reverseRecOn with
  | nil => exact List.Pairwise.nil
  | append_singleton items item ih =>
      rw [byKey_concat, addIfKeyed]
      cases key? item with
      | none => exact ih
      | some key => exact ascending_add key item ih

theorem pairwise_keys (key? : Item → Option Key) (items : List Item) :
    ((byKey key? items).map Prod.fst).Pairwise fun left right => compare left right = .lt :=
  List.pairwise_map.mpr (ascending_byKey key? items)

theorem nodup_keys (key? : Item → Option Key) (items : List Item) :
    ((byKey key? items).map Prod.fst).Nodup := by
  refine (pairwise_keys key? items).imp ?_
  intro left right before same
  rw [same, Std.ReflOrd.compare_self] at before
  exact Ordering.noConfusion before

variable [BEq Key] [LawfulBEq Key]

omit [Std.TransOrd Key] in
theorem lookup_of_below {key : Key} {groups : List (Key × List Item)}
    (below : ∀ group ∈ groups, compare key group.1 = .lt) : groups.lookup key = none := by
  refine List.lookup_eq_none_iff.mpr ?_
  intro group member
  refine bne_iff_ne.mpr ?_
  rintro rfl
  simpa using below group member

theorem lookup_add (key other : Key) (item : Item) {groups : List (Key × List Item)}
    (ascending : Ascending groups) :
    (add key item groups).lookup other =
      if other == key then some ((groups.lookup key).getD [] ++ [item])
      else groups.lookup other := by
  induction groups with
  | nil =>
      simp only [add, List.lookup_cons, List.lookup_nil]
      grind
  | cons first rest ih =>
      obtain ⟨present, items⟩ := first
      obtain ⟨below, restAscending⟩ := List.pairwise_cons.mp ascending
      cases order : compare key present with
      | lt =>
          -- All keys are above the new one, so it had no group.
          have absent : List.lookup key ((present, items) :: rest) = none := by
            refine lookup_of_below ?_
            intro group member
            rcases List.mem_cons.mp member with rfl | later
            · exact order
            · exact Std.TransCmp.lt_trans order (below group later)
          simp only [add, order, absent, List.lookup_cons (a := other), Option.getD_none,
            List.nil_append]
          grind
      | eq =>
          obtain rfl := Std.LawfulEqOrd.eq_of_compare order
          simp only [add, order, List.lookup_cons, beq_self_eq_true, Option.getD_some]
          grind
      | gt =>
          have different : (key == present) = false := by
            refine beq_false_of_ne ?_
            rintro rfl
            simp at order
          simp only [add, order, List.lookup_cons, different, ih restAscending]
          grind

omit [Ord Key] [Std.TransOrd Key] [Std.LawfulEqOrd Key] in
theorem mem_iff_lookup {Value : Type} {key : Key} {value : Value} {entries : List (Key × Value)}
    (distinct : (entries.map Prod.fst).Nodup) :
    (key, value) ∈ entries ↔ entries.lookup key = some value := by
  induction entries with
  | nil => simp
  | cons first rest ih =>
      obtain ⟨other, present⟩ := first
      obtain ⟨fresh, restDistinct⟩ := List.nodup_cons.mp distinct
      rw [List.mem_cons, ih restDistinct, List.lookup_cons]
      by_cases same : key = other
      · subst same
        have absent : rest.lookup key = none := List.lookup_eq_none_iff.mpr fun entry member =>
          bne_iff_ne.mpr fun equal => fresh (List.mem_map.mpr ⟨entry, member, equal.symm⟩)
        simp [absent, eq_comm]
      · simp [same, beq_false_of_ne same]

def having (key? : Item → Option Key) (key : Key) (items : List Item) : List Item :=
  items.filter fun item => key? item == some key

theorem getD_lookup_byKey (key? : Item → Option Key) (items : List Item) (key : Key) :
    ((byKey key? items).lookup key).getD [] = having key? key items := by
  induction items using List.reverseRecOn with
  | nil => rfl
  | append_singleton items item ih =>
      rw [byKey_concat, addIfKeyed, having, List.filter_append, ← having, ← ih]
      cases keyed : key? item with
      | none => simp [keyed]
      | some present =>
          have added := lookup_add present key item (ascending_byKey key? items)
          by_cases same : key = present
          · subst same
            simp [added, keyed]
          · simp [added, keyed, same, Ne.symm same]

theorem mem_byKey {key? : Item → Option Key} {items : List Item} {key : Key} {group : List Item} :
    (key, group) ∈ byKey key? items ↔ group ≠ [] ∧ group = having key? key items := by
  have distinct := nodup_keys key? items
  constructor
  · intro member
    refine ⟨byKey_nonempty key? items _ member, ?_⟩
    rw [← getD_lookup_byKey, (mem_iff_lookup distinct).mp member, Option.getD_some]
  · rintro ⟨nonempty, isGroup⟩
    rw [← getD_lookup_byKey] at isGroup
    rw [mem_iff_lookup distinct]
    cases found : (byKey key? items).lookup key with
    | none => simp [isGroup, found] at nonempty
    | some group => simp [isGroup, found]

theorem mem_keys {key? : Item → Option Key} {items : List Item} {key : Key} :
    key ∈ (byKey key? items).map Prod.fst ↔ ∃ item ∈ items, key? item = some key := by
  simp only [List.mem_map, Prod.exists, mem_byKey, exists_and_right, exists_eq_right]
  constructor
  · intro nonempty
    obtain ⟨item, member⟩ := List.exists_mem_of_ne_nil _ nonempty
    obtain ⟨present, keyed⟩ := List.mem_filter.mp member
    exact ⟨item, present, eq_of_beq keyed⟩
  · rintro ⟨item, member, keyed⟩
    exact List.ne_nil_of_mem (List.mem_filter.mpr ⟨member, by simp [keyed]⟩)

/-- There are as many groups as distinct keys. -/
theorem length_byKey [DecidableEq Key] (key? : Item → Option Key) (items : List Item) :
    (byKey key? items).length = (items.filterMap key?).dedup.length := by
  have keys : ((byKey key? items).map Prod.fst).Perm (items.filterMap key?).dedup := by
    refine (List.perm_ext_iff_of_nodup (nodup_keys key? items) (List.nodup_dedup _)).mpr ?_
    intro key
    rw [mem_keys, List.mem_dedup, List.mem_filterMap]
  rw [← keys.length_eq, List.length_map]

theorem byKey_eq (key? : Item → Option Key) (items : List Item) :
    byKey key? items =
      ((byKey key? items).map Prod.fst).map fun key => (key, having key? key items) := by
  calc
    byKey key? items = (byKey key? items).map id := (List.map_id _).symm
    _ = (byKey key? items).map fun group => (group.1, having key? group.1 items) :=
      List.map_congr_left fun _ member => Prod.ext rfl (mem_byKey.mp member).2
    _ = _ := by
      rw [List.map_map]
      rfl

theorem keys_perm (key? : Item → Option Key) {items others : List Item}
    (perm : items.Perm others) :
    (byKey key? items).map Prod.fst = (byKey key? others).map Prod.fst := by
  refine List.Perm.eq_of_pairwise ?_ (pairwise_keys key? items) (pairwise_keys key? others) ?_
  · intro left right _ _ before after
    rw [Std.OrientedCmp.gt_of_lt before] at after
    cases after
  · refine (List.perm_ext_iff_of_nodup (nodup_keys key? items) (nodup_keys key? others)).mpr ?_
    intro key
    simp only [mem_keys, perm.mem_iff]

/-- Items in another order make the same groups, each in another order. -/
theorem byKey_perm (key? : Item → Option Key) {items others : List Item}
    (perm : items.Perm others) :
    List.Forall₂ (fun group other => group.1 = other.1 ∧ group.2.Perm other.2)
      (byKey key? items) (byKey key? others) := by
  rw [byKey_eq key? items, byKey_eq key? others, keys_perm key? perm, List.forall₂_map_left_iff,
    List.forall₂_map_right_iff, List.forall₂_same]
  intro key _
  exact ⟨rfl, perm.filter _⟩

end Partition

section Covering

variable {Key Item : Type} [BEq Key] [LawfulBEq Key] {key? : Item → Option Key} {keys : List Key}

/-- Keys without repetition that cover all items list every item once. -/
theorem flatMap_having_perm {items : List Item} (nodup : keys.Nodup)
    (covers : ∀ item ∈ items, ∃ key ∈ keys, key? item = some key) :
    (keys.flatMap fun key => having key? key items).Perm items := by
  induction keys generalizing items with
  | nil =>
      have noItems : items = [] := List.eq_nil_iff_forall_not_mem.mpr fun item member => by
        simpa using covers item member
      simp [noItems]
  | cons first keys ih =>
      obtain ⟨firstNew, restNodup⟩ := List.nodup_cons.mp nodup
      let others := items.filter fun item => !(key? item == some first)
      have othersCovered : ∀ item ∈ others, ∃ key ∈ keys, key? item = some key := by
        intro item member
        obtain ⟨isItem, notFirst⟩ := List.mem_filter.mp member
        obtain ⟨key, isKey, keyed⟩ := covers item isItem
        rcases List.mem_cons.mp isKey with rfl | isKey
        · simp [keyed] at notFirst
        · exact ⟨key, isKey, keyed⟩
      have sameRest : ∀ key ∈ keys, having key? key items = having key? key others := by
        intro key isKey
        rw [having, having, List.filter_filter]
        refine List.filter_congr fun item _ => ?_
        by_cases keyed : key? item = some first
        · have different : first ≠ key := fun same => firstNew (same ▸ isKey)
          simp [keyed, different]
        · simp [keyed]
      rw [List.flatMap_cons, List.flatMap_congr sameRest]
      exact ((ih restNodup othersCovered).append_left _).trans (List.filter_append_perm _ items)

/-- A list made of one block for each key has under a key what the block of the key has. -/
theorem having_flatMap {block : Key → List Item} (nodup : keys.Nodup)
    (keyed : ∀ key, ∀ item ∈ block key, key? item = some key) {key : Key}
    (complete : key ∉ keys → block key = []) :
    having key? key (keys.flatMap block) = block key := by
  have whole : having key? key (block key) = block key := by
    refine List.filter_eq_self.mpr fun item isItem => ?_
    simp [keyed key item isItem]
  have othersNone : ∀ others : List Key, key ∉ others →
      having key? key (others.flatMap block) = [] := by
    intro others absent
    refine List.filter_eq_nil_iff.mpr fun item isItem => ?_
    obtain ⟨other, isOther, inBlock⟩ := List.mem_flatMap.mp isItem
    have different : other ≠ key := fun same => absent (same ▸ isOther)
    simp [keyed other item inBlock, different]
  by_cases member : key ∈ keys
  case neg => rw [othersNone keys member, complete member]
  obtain ⟨before, after, rfl⟩ := List.append_of_mem member
  have notBefore : key ∉ before := by
    intro early
    exact (List.nodup_append.mp nodup).2.2 key early key (List.mem_cons_self ..) rfl
  have notAfter : key ∉ after := (List.nodup_cons.mp (List.nodup_append.mp nodup).2.1).1
  have beforeNone := othersNone before notBefore
  have afterNone := othersNone after notAfter
  rw [having] at whole beforeNone afterNone ⊢
  rw [List.flatMap_append, List.flatMap_cons, List.filter_append, List.filter_append, whole,
    beforeNone, afterNone, List.nil_append, List.append_nil]

end Covering

/-- If every item has a key, the groups together hold every item once. -/
theorem flatMap_byKey_perm {Key Item : Type} [Ord Key] [Std.LawfulEqOrd Key] [Std.TransOrd Key]
    [BEq Key] [LawfulBEq Key] {key? : Item → Option Key} {items : List Item}
    (keyed : ∀ item ∈ items, (key? item).isSome) :
    ((byKey key? items).flatMap (·.2)).Perm items := by
  have groups : (byKey key? items).flatMap (·.2) =
      ((byKey key? items).map Prod.fst).flatMap fun key => having key? key items := by
    rw [List.flatMap_map]
    refine List.flatMap_congr fun group member => ?_
    exact (mem_byKey.mp member).2
  rw [groups]
  refine flatMap_having_perm (nodup_keys key? items) ?_
  intro item member
  obtain ⟨key, isKey⟩ := Option.isSome_iff_exists.mp (keyed item member)
  exact ⟨key, mem_keys.mpr ⟨item, member, isKey⟩, isKey⟩

end RemarkAtlas.Groups
