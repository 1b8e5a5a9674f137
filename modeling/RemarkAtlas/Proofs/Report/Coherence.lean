import RemarkAtlas.Proofs.Corpus.Functions
import RemarkAtlas.Proofs.Corpus.Passes
import RemarkAtlas.Report.Summary

/-!
The parts of a summary agree with one another: its functions, its passes and its hottest records are
gathered separately, but from the same records.  A count that is absent ranks like zero.
-/

namespace RemarkAtlas

namespace FunctionSummary

variable {policy : PrecisionPolicy} {units : List CompilationUnit}

def heat (summary : FunctionSummary) : UInt64 := summary.activity.hotness.getD 0

/-- A function that a record names is at least as hot as the record. -/
theorem exists_named (policy : PrecisionPolicy) {record : Sighting}
    (member : record ∈ Corpus.allRecords units) {name : String}
    (named : record.record.function? = some name) :
    ∃ summary ∈ ofUnits policy units, summary.name = name ∧
      ∀ count, policy.hotness record.record = some count →
        ∃ hotness, summary.activity.hotness = some hotness ∧ count ≤ hotness := by
  have isKey := Groups.mem_keys.mpr
    (⟨record, member, named⟩ : ∃ other ∈ Corpus.allRecords units,
      other.record.function? = some name)
  rw [← names_byName policy, List.mem_map] at isKey
  obtain ⟨summary, inNames, rfl⟩ := isKey
  refine ⟨summary, (ofUnits_perm policy units).mem_iff.mpr inNames, rfl, ?_⟩
  intro count counted
  have sums := (describes_byName inNames).sums
  have isPair := List.mem_map_of_mem
    (f := fun sighting : Sighting => (policy.hotness sighting.record, sighting.location?))
    (List.mem_filter.mpr ⟨member, by simp [named]⟩ : record ∈ recordsOf units summary.name)
  cases known : summary.activity.hotness with
  | none =>
      have absent := sums.unknown.mp known _ isPair
      simp [counted] at absent
  | some hotness => exact ⟨hotness, rfl, sums.greatest hotness known _ isPair count counted⟩

theorem exists_hotter (policy : PrecisionPolicy) {record : Sighting}
    (member : record ∈ Corpus.allRecords units) (named : record.record.function?.isSome) :
    ∃ summary ∈ ofUnits policy units, Ranking.heat policy record.record ≤ summary.heat := by
  obtain ⟨name, isName⟩ := Option.isSome_iff_exists.mp named
  obtain ⟨summary, isSummary, _, hotter⟩ := exists_named policy member isName
  refine ⟨summary, isSummary, ?_⟩
  cases counted : policy.hotness record.record with
  | none =>
      rw [Ranking.heat, counted]
      exact UInt64.zero_le
  | some count =>
      obtain ⟨hotness, known, bound⟩ := hotter count counted
      rw [Ranking.heat, counted, heat, known]
      exact bound

/-- A function is as hot as one of the records that name it. -/
theorem exists_hottest {summary : FunctionSummary} (member : summary ∈ ofUnits policy units) :
    ∃ record ∈ Corpus.allRecords units, summary.heat ≤ Ranking.heat policy record.record := by
  have inNames := (ofUnits_perm policy units).mem_iff.mp member
  have describes := describes_byName inNames
  cases known : summary.activity.hotness with
  | none =>
      have isFirst := List.mem_of_head? describes.first
      refine ⟨summary.first, (List.mem_filter.mp isFirst).1, ?_⟩
      rw [heat, known]
      exact UInt64.zero_le
  | some hotness =>
      obtain ⟨pair, isPair, counted⟩ := describes.sums.attained hotness known
      obtain ⟨record, isRecord, rfl⟩ := List.mem_map.mp isPair
      refine ⟨record, (List.mem_filter.mp isRecord).1, ?_⟩
      have hottest : policy.hotness record.record = some hotness := counted
      rw [heat, Ranking.heat, known, hottest]
      exact UInt64.le_refl _

theorem heat_le_of_precedes {left right : FunctionSummary} (precedes : Precedes left right) :
    right.heat ≤ left.heat := by
  rw [Precedes] at precedes
  cases rightHotness : right.activity.hotness with
  | none =>
      rw [heat, rightHotness]
      exact UInt64.zero_le
  | some rightCount =>
      cases leftHotness : left.activity.hotness with
      | none => simp [leftHotness, rightHotness] at precedes
      | some leftCount =>
          simp only [leftHotness, rightHotness] at precedes
          rw [heat, heat, leftHotness, rightHotness]
          rcases precedes with hotter | ⟨same, _⟩
          · exact UInt64.le_of_lt hotter
          · exact UInt64.le_of_eq same.symm

theorem heat_le_head {first summary : FunctionSummary}
    (isFirst : (ofUnits policy units).head? = some first)
    (member : summary ∈ ofUnits policy units) : summary.heat ≤ first.heat := by
  have sorted := precedes_ofUnits policy units
  cases summaries : ofUnits policy units with
  | nil => simp [summaries] at member
  | cons head rest =>
      rw [summaries] at isFirst member sorted
      obtain rfl : head = first := by simpa using isFirst
      rcases List.mem_cons.mp member with rfl | later
      · exact UInt64.le_refl _
      · exact heat_le_of_precedes ((List.pairwise_cons.mp sorted).1 summary later)

/-- When every record names a function, the hottest function is as hot as the hottest record. -/
theorem head?_heat (policy : PrecisionPolicy)
    (allNamed : ∀ record ∈ Corpus.allRecords units, record.record.function?.isSome) :
    (ofUnits policy units).head?.map heat =
      (Ranking.rank policy (Corpus.allRecords units)).head?.map
        fun record => Ranking.heat policy record.record := by
  have named : ∀ record ∈ Corpus.allRecords units, ∃ summary ∈ ofUnits policy units,
      Ranking.heat policy record.record ≤ summary.heat :=
    fun record member => exists_hotter policy member (allNamed record member)
  cases isFirst : (ofUnits policy units).head? with
  | none =>
      have noFunctions := List.head?_eq_none_iff.mp isFirst
      have noRecords : Corpus.allRecords units = [] := by
        refine List.eq_nil_iff_forall_not_mem.mpr fun record member => ?_
        obtain ⟨summary, isSummary, _⟩ := named record member
        simp [noFunctions] at isSummary
      have noRanking : Ranking.rank policy (Corpus.allRecords units) = [] := by
        rw [noRecords]
        exact List.mergeSort_nil
      rw [noRanking]
      rfl
  | some first =>
      obtain ⟨record, member, firstBelow⟩ := exists_hottest (List.mem_of_head? isFirst)
      obtain ⟨hottest, isRecord, isHottest, recordBelow⟩ :=
        Ranking.exists_head_rank policy member
      obtain ⟨summary, isSummary, hottestBelow⟩ := named hottest isRecord
      have summaryBelow := heat_le_head isFirst isSummary
      have same : first.heat = Ranking.heat policy hottest.record :=
        UInt64.le_antisymm (UInt64.le_trans firstBelow recordBelow)
          (UInt64.le_trans hottestBelow summaryBelow)
      rw [isHottest, Option.map_some, Option.map_some, same]

end FunctionSummary

def FunctionEntry.heat (entry : FunctionEntry) : UInt64 := entry.hotness.getD 0

def HotRecord.heat (record : HotRecord) : UInt64 := record.count.getD 0

namespace Summary

structure Coheres (policy : PrecisionPolicy) (limit : Nat) (units : List CompilationUnit)
    (summary : Summary) : Prop where
  length : summary.hottest.length = min limit (summary.passes.map (·.total)).sum
  descending : summary.hottest.Pairwise fun left right => right.heat ≤ left.heat
  chosen : ∃ shown others : List Sighting, (shown ++ others).Perm (Corpus.allRecords units) ∧
    summary.hottest = shown.map (hotRecord policy) ∧
    ∀ record ∈ shown, ∀ other ∈ others,
      Ranking.heat policy other.record ≤ Ranking.heat policy record.record
  function : ∀ record ∈ summary.hottest, ∀ name, record.function = some name →
    ∃ entry ∈ summary.functions, entry.name = name ∧
      ∀ count, record.count = some count → ∃ hotness, entry.hotness = some hotness ∧ count ≤ hotness
  pass : ∀ record ∈ summary.hottest, ∃ entry ∈ summary.passes, entry.name = record.pass
  bound : 0 < limit → ∀ entry ∈ summary.functions,
    ∃ first, summary.hottest.head? = some first ∧ entry.heat ≤ first.heat
  first : 0 < limit → (∀ record ∈ Corpus.allRecords units, record.record.function?.isSome) →
    summary.functions.head?.map (·.heat) = summary.hottest.head?.map (·.heat)

variable (policy : PrecisionPolicy) (limit : Nat) (generatedAt : String)
  (units : List CompilationUnit)

theorem exists_of_mem_hottest {record : HotRecord}
    (member : record ∈ (ofUnits policy limit generatedAt units).hottest) :
    ∃ sighting ∈ Corpus.allRecords units, record = hotRecord policy sighting := by
  obtain ⟨sighting, isShown, rfl⟩ := List.mem_map.mp member
  have isRanked := List.mem_of_mem_take isShown
  exact ⟨sighting, (Ranking.rank_perm policy _).mem_iff.mp isRanked, rfl⟩

theorem head?_hottest (positive : 0 < limit) :
    (ofUnits policy limit generatedAt units).hottest.head? =
      (Ranking.rank policy (Corpus.allRecords units)).head?.map (hotRecord policy) := by
  rw [ofUnits, List.head?_map, List.head?_take, if_neg (Nat.ne_of_gt positive)]

theorem ofUnits_coheres :
    (ofUnits policy limit generatedAt units).Coheres policy limit units ∧
      ∀ greater later, limit ≤ greater →
        (ofUnits policy limit generatedAt units).hottest <+:
          (ofUnits policy greater later units).hottest := by
  have ranked := Ranking.rank_perm policy (Corpus.allRecords units)
  have sorted := Ranking.pairwise_rank policy (Corpus.allRecords units)
  constructor
  case right =>
    intro greater later longer
    exact (List.take_prefix_take_left longer).map _
  constructor
  case length =>
    rw [ofUnits, List.length_map, List.length_take, PassSummary.sum_totals, ranked.length_eq]
  case descending =>
    refine List.pairwise_map.mpr ?_
    exact sorted.sublist (List.take_sublist ..)
  case chosen =>
    refine ⟨_, (Ranking.rank policy (Corpus.allRecords units)).drop limit, ?_, rfl, ?_⟩
    · rw [List.take_append_drop]
      exact ranked
    · rw [← List.take_append_drop limit (Ranking.rank policy _)] at sorted
      exact (List.pairwise_append.mp sorted).2.2
  case function =>
    intro record member name named
    obtain ⟨sighting, isRecord, rfl⟩ := exists_of_mem_hottest policy limit generatedAt units member
    obtain ⟨summary, isSummary, isName, hotter⟩ :=
      FunctionSummary.exists_named policy isRecord named
    exact ⟨functionEntry summary, List.mem_map_of_mem isSummary, isName, hotter⟩
  case pass =>
    intro record member
    obtain ⟨sighting, isRecord, rfl⟩ := exists_of_mem_hottest policy limit generatedAt units member
    exact PassSummary.exists_named isRecord
  case bound =>
    intro positive entry member
    obtain ⟨summary, isSummary, rfl⟩ := List.mem_map.mp member
    obtain ⟨record, isRecord, below⟩ := FunctionSummary.exists_hottest isSummary
    obtain ⟨first, _, isFirst, recordBelow⟩ :=
      Ranking.exists_head_rank policy isRecord
    refine ⟨hotRecord policy first, ?_, UInt64.le_trans below recordBelow⟩
    rw [head?_hottest policy limit generatedAt units positive, isFirst]
    rfl
  case first =>
    intro positive allNamed
    have same := FunctionSummary.head?_heat policy allNamed
    rw [head?_hottest policy limit generatedAt units positive, ofUnits, List.head?_map,
      Option.map_map, Option.map_map]
    exact same

end Summary

end RemarkAtlas
