import RemarkAtlas.Corpus.Ranking
import RemarkAtlas.Proofs.Order.StableSort

/-!
Ranking is the stable sort from hot to cold, so a ranking of some of the records is what the ranking
of all records has of them.  The highest count does not depend on the order of the records.
-/

namespace RemarkAtlas.Ranking

variable {Item : Type} {policy : PrecisionPolicy} {recordOf : Item → Record}

section Order

def isAtLeastAsHot (policy : PrecisionPolicy) (recordOf : Item → Record) (left right : Item) : Bool :=
  heat policy (recordOf right) ≤ heat policy (recordOf left)

theorem isAtLeastAsHot_trans (first second third : Item)
    (firstSecond : isAtLeastAsHot policy recordOf first second)
    (secondThird : isAtLeastAsHot policy recordOf second third) :
    isAtLeastAsHot policy recordOf first third := by
  simp only [isAtLeastAsHot, decide_eq_true_eq] at firstSecond secondThird ⊢
  exact UInt64.le_trans secondThird firstSecond

theorem isAtLeastAsHot_total (first second : Item) :
    isAtLeastAsHot policy recordOf first second ||
      isAtLeastAsHot policy recordOf second first := by
  simp only [isAtLeastAsHot, Bool.or_eq_true, decide_eq_true_eq]
  exact UInt64.le_total _ _

theorem rankBy_perm (policy : PrecisionPolicy) (recordOf : Item → Record) (items : List Item) :
    (rankBy policy recordOf items).Perm items :=
  List.mergeSort_perm _ _

theorem rank_perm (policy : PrecisionPolicy) (records : List Sighting) :
    (rank policy records).Perm records :=
  rankBy_perm policy _ records

theorem pairwise_rankBy (policy : PrecisionPolicy) (recordOf : Item → Record) (items : List Item) :
    (rankBy policy recordOf items).Pairwise fun left right =>
      heat policy (recordOf right) ≤ heat policy (recordOf left) := by
  have sorted := List.pairwise_mergeSort (@isAtLeastAsHot_trans Item policy recordOf)
    isAtLeastAsHot_total items
  exact sorted.imp fun ordered => of_decide_eq_true ordered

theorem pairwise_rank (policy : PrecisionPolicy) (records : List Sighting) :
    (rank policy records).Pairwise fun left right =>
      heat policy right.record ≤ heat policy left.record :=
  pairwise_rankBy policy _ records

theorem rankBy_of_pairwise {items : List Item}
    (ranked : items.Pairwise fun left right =>
      heat policy (recordOf right) ≤ heat policy (recordOf left)) :
    rankBy policy recordOf items = items :=
  List.mergeSort_of_pairwise (ranked.imp fun ordered => decide_eq_true ordered)

/-- Some of a ranking are ranked as they are without the others. -/
theorem filter_rankBy (policy : PrecisionPolicy) (recordOf : Item → Record) (keep : Item → Bool)
    (items : List Item) :
    (rankBy policy recordOf items).filter keep = rankBy policy recordOf (items.filter keep) :=
  filter_mergeSort (@isAtLeastAsHot_trans Item policy recordOf) isAtLeastAsHot_total keep items

/-- What is equally hot keeps its order. -/
theorem filter_heat_rankBy (policy : PrecisionPolicy) (recordOf : Item → Record) (value : UInt64)
    (items : List Item) :
    (rankBy policy recordOf items).filter (fun item => heat policy (recordOf item) == value) =
      items.filter fun item => heat policy (recordOf item) == value := by
  rw [filter_rankBy, rankBy_of_pairwise]
  refine List.pairwise_of_forall_mem_list fun left leftMember right rightMember => ?_
  have leftHeat := eq_of_beq (List.mem_filter.mp leftMember).2
  have rightHeat := eq_of_beq (List.mem_filter.mp rightMember).2
  rw [leftHeat, rightHeat]
  exact UInt64.le_refl value

/-- The first of a ranking is as hot as any item. -/
theorem exists_head_rankBy (policy : PrecisionPolicy) (recordOf : Item → Record)
    {items : List Item} {item : Item} (member : item ∈ items) :
    ∃ first ∈ items, (rankBy policy recordOf items).head? = some first ∧
      ∀ other ∈ items, heat policy (recordOf other) ≤ heat policy (recordOf first) := by
  have ranked := rankBy_perm policy recordOf items
  have sorted := pairwise_rankBy policy recordOf items
  cases isRank : rankBy policy recordOf items with
  | nil =>
      rw [isRank] at ranked
      exact absurd (ranked.mem_iff.mpr member) List.not_mem_nil
  | cons first rest =>
      rw [isRank] at ranked sorted
      refine ⟨first, ranked.mem_iff.mp (List.mem_cons_self ..), rfl, ?_⟩
      intro other isItem
      rcases List.mem_cons.mp (ranked.mem_iff.mpr isItem) with rfl | later
      · exact UInt64.le_refl _
      · exact (List.pairwise_cons.mp sorted).1 other later

theorem exists_head_rank (policy : PrecisionPolicy) {records : List Sighting} {record : Sighting}
    (member : record ∈ records) :
    ∃ first ∈ records, (rank policy records).head? = some first ∧
      heat policy record.record ≤ heat policy first.record := by
  obtain ⟨first, isRecord, isFirst, greatest⟩ := exists_head_rankBy policy Sighting.record member
  exact ⟨first, isRecord, isFirst, greatest record member⟩

end Order

section Highest

variable {records others : List Record}

theorem lawfulMax : Std.LawfulOrderMax UInt64 where
  max_eq_or left right := by
    change (if left ≤ right then right else left) = left ∨
      (if left ≤ right then right else left) = right
    split
    · exact Or.inr rfl
    · exact Or.inl rfl
  max_le_iff left right bound := by
    change (if left ≤ right then right else left) ≤ bound ↔ left ≤ bound ∧ right ≤ bound
    split
    case isTrue ordered => exact ⟨fun below => ⟨UInt64.le_trans ordered below, below⟩, And.right⟩
    case isFalse ordered =>
      have reverse := UInt64.le_of_lt (UInt64.not_le.mp ordered)
      exact ⟨fun below => ⟨below, UInt64.le_trans reverse below⟩, And.left⟩

theorem highest_eq_none_iff :
    highest policy records = none ↔ ∀ record ∈ records, policy.hotness record = none := by
  rw [highest, List.max?_eq_none_iff, List.filterMap_eq_nil_iff]

theorem highest_eq_some_iff {count : UInt64} :
    highest policy records = some count ↔
      (∃ record ∈ records, policy.hotness record = some count) ∧
        ∀ record ∈ records, ∀ other, policy.hotness record = some other → other ≤ count := by
  have lawful := lawfulMax
  rw [highest, List.max?_eq_some_iff, List.mem_filterMap]
  refine and_congr_right fun _ => ?_
  simp only [List.mem_filterMap, forall_exists_index, and_imp]
  constructor
  · intro bound record member other counted
    exact bound other record member counted
  · intro bound other record member counted
    exact bound record member other counted

theorem highest_perm (policy : PrecisionPolicy) (perm : records.Perm others) :
    highest policy records = highest policy others := by
  refine Option.ext fun count => ?_
  simp only [highest_eq_some_iff, perm.mem_iff]

/-- The highest count is that of a hottest record, with nothing for zero. -/
theorem heat_eq_highest {hottest : Record} (member : hottest ∈ records)
    (greatest : ∀ record ∈ records, heat policy record ≤ heat policy hottest) :
    heat policy hottest = (highest policy records).getD 0 := by
  cases isHighest : highest policy records with
  | none => rw [heat, highest_eq_none_iff.mp isHighest hottest member, Option.getD_none]
  | some count =>
      obtain ⟨⟨record, isRecord, counted⟩, bound⟩ := highest_eq_some_iff.mp isHighest
      have below := greatest record isRecord
      rw [heat, counted, Option.getD_some] at below
      refine UInt64.le_antisymm ?_ below
      cases known : policy.hotness hottest with
      | none =>
          rw [heat, known]
          exact UInt64.zero_le
      | some other =>
          rw [heat, known]
          exact bound hottest member other known

end Highest

structure IsStableRanking (policy : PrecisionPolicy) (recordOf : Item → Record)
    (items ranked : List Item) : Prop where
  perm : ranked.Perm items
  sorted : ranked.Pairwise fun left right =>
    heat policy (recordOf right) ≤ heat policy (recordOf left)
  stable (value : UInt64) :
    ranked.filter (fun item => heat policy (recordOf item) == value) =
      items.filter fun item => heat policy (recordOf item) == value

theorem isStableRanking_rankBy (policy : PrecisionPolicy) (recordOf : Item → Record)
    (items : List Item) : IsStableRanking policy recordOf items (rankBy policy recordOf items) where
  perm := rankBy_perm policy recordOf items
  sorted := pairwise_rankBy policy recordOf items
  stable value := filter_heat_rankBy policy recordOf value items

theorem rankBy_stableSort (policy : PrecisionPolicy) (recordOf : Item → Record)
    (items : List Item) :
    IsStableRanking policy recordOf items (rankBy policy recordOf items) ∧
    rankBy policy recordOf (rankBy policy recordOf items) = rankBy policy recordOf items ∧
    (∀ keep, (rankBy policy recordOf items).filter keep =
      rankBy policy recordOf (items.filter keep)) ∧
    (highest policy (items.map recordOf) = none ↔
      ∀ item ∈ items, policy.hotness (recordOf item) = none) ∧
    highest policy ((rankBy policy recordOf items).map recordOf) =
      highest policy (items.map recordOf) ∧
    (rankBy policy recordOf items).head?.map (fun item => heat policy (recordOf item)) =
      items.head?.map fun _ => (highest policy (items.map recordOf)).getD 0 := by
  have ranking := isStableRanking_rankBy policy recordOf items
  refine ⟨ranking, rankBy_of_pairwise ranking.sorted,
    fun keep => filter_rankBy policy recordOf keep items, ?_,
    highest_perm policy (ranking.perm.map recordOf), ?_⟩
  · rw [highest_eq_none_iff, List.forall_mem_map]
  · cases items with
    | nil =>
        rw [ranking.perm.eq_nil]
        rfl
    | cons item rest =>
        obtain ⟨first, member, isFirst, greatest⟩ :=
          exists_head_rankBy policy recordOf (List.mem_cons_self (a := item) (l := rest))
        have hottest := heat_eq_highest (List.mem_map_of_mem (f := recordOf) member)
          (List.forall_mem_map.mpr greatest)
        rw [isFirst, Option.map_some, hottest, List.head?_cons, Option.map_some]

end RemarkAtlas.Ranking
