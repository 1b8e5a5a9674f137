import RemarkAtlas.Corpus.Functions
import RemarkAtlas.Proofs.Corpus.Counts
import RemarkAtlas.Proofs.Order.Groups

/-!
When two corpora that differ in nothing but their counts look the same.  Records are told apart by
their positions among all records of their corpus.
-/

namespace RemarkAtlas

namespace Ranking

/-- A ranking does not see what the items are, but how hot their records are. -/
theorem rankBy_map {policy otherPolicy : PrecisionPolicy} {Item Other : Type}
    {recordOf : Item → Record} {otherRecordOf : Other → Record}
    {change : Item → Other}
    (sameHeat : ∀ item,
      heat otherPolicy (otherRecordOf (change item)) = heat policy (recordOf item))
    (items : List Item) :
    rankBy otherPolicy otherRecordOf (items.map change) =
      (rankBy policy recordOf items).map change := by
  refine (List.map_mergeSort ?_).symm
  intro left _ right _
  simp only [sameHeat]

end Ranking

variable {policy otherPolicy : PrecisionPolicy} {change : Option Count → Option Count}

def SameHotness (policy otherPolicy : PrecisionPolicy) (change : Option Count → Option Count) :
    Prop :=
  ∀ record : Record, otherPolicy.hotness (record.mapCounts change) = policy.hotness record

theorem Activity.ofRecords_mapCounts (same : SameHotness policy otherPolicy change)
    (records : List Record) :
    ofRecords otherPolicy (records.map (·.mapCounts change)) = ofRecords policy records := by
  simp only [ofRecords, List.foldl_map, same _, Record.location?_mapCounts]

namespace FunctionSummary

def mapCounts (change : Option Count → Option Count) (summary : FunctionSummary) :
    FunctionSummary :=
  { summary with first := summary.first.mapCounts change }

theorem ofGroup?_mapCounts (same : SameHotness policy otherPolicy change)
    (group : String × List Sighting) :
    ofGroup? otherPolicy (Prod.map id (List.map (·.mapCounts change)) group) =
      (ofGroup? policy group).map (·.mapCounts change) := by
  obtain ⟨name, records⟩ := group
  cases records with
  | nil => rfl
  | cons first rest =>
      have activity : Activity.ofRecords otherPolicy
          (((first :: rest).map (·.mapCounts change)).map (·.record)) =
            Activity.ofRecords policy ((first :: rest).map (·.record)) := by
        rw [← Activity.ofRecords_mapCounts same, List.map_map, List.map_map]
        rfl
      exact congrArg (fun activity => some (mk name (first.mapCounts change) activity)) activity

theorem ofUnits_mapCounts (same : SameHotness policy otherPolicy change)
    (units : List CompilationUnit) :
    ofUnits otherPolicy (units.map (·.mapCounts change)) =
      (ofUnits policy units).map (·.mapCounts change) := by
  have sameFunction : ∀ sighting : Sighting,
      (sighting.mapCounts change).record.function? = sighting.record.function? := by
    intro sighting
    simp only [Record.function?, Sighting.mapCounts, Record.header_mapCounts]
  simp only [ofUnits, Corpus.allRecords_mapCounts, Groups.byKey_map, sameFunction,
    List.filterMap_map, Function.comp_def, ofGroup?_mapCounts same, ← List.map_filterMap]
  refine (List.map_mergeSort ?_).symm
  intro left _ right _
  rfl

def facts (summary : FunctionSummary) : String × Nat × Activity :=
  (summary.name, summary.first.unitIndex, summary.activity)

end FunctionSummary

namespace Corpus

def rankedEntries (policy : PrecisionPolicy) (units : List CompilationUnit)
    (selected : Sighting → Bool) : List (Sighting × Nat) :=
  Ranking.rankBy policy (·.1.record)
    ((allRecords units).zipIdx.filter fun entry => selected entry.1)

/-- Ranking the selected records of a corpus gives the sightings of a list, which stand at the
positions of another. -/
def RanksAs (policy : PrecisionPolicy) (units : List CompilationUnit)
    (selected : Sighting → Bool) (ranked : List Sighting) (positions : List Nat) : Prop :=
  (rankedEntries policy units selected).unzip = (ranked, positions)

theorem ranksAs_rank (policy : PrecisionPolicy) (units : List CompilationUnit)
    (selected : Sighting → Bool) :
    RanksAs policy units selected (Ranking.rank policy ((allRecords units).filter selected))
      ((rankedEntries policy units selected).map (·.2)) := by
  have withoutPositions : ((allRecords units).zipIdx.filter fun entry => selected entry.1).map
      Prod.fst = (allRecords units).filter selected := by
    calc
      _ = ((allRecords units).zipIdx.map Prod.fst).filter selected := List.filter_map.symm
      _ = (allRecords units).filter selected := by rw [List.zipIdx_map_fst]
  rw [RanksAs, List.unzip_eq_map, Ranking.rank, ← withoutPositions,
    Ranking.rankBy_map fun _ => rfl]
  rfl

/-- All views in which counts matter are the same for one policy and corpus as for another. -/
structure SameViews (policy : PrecisionPolicy) (units : List CompilationUnit)
    (otherPolicy : PrecisionPolicy) (others : List CompilationUnit) : Prop where
  ranking : ∃ positions,
    RanksAs policy units (fun _ => true) (Ranking.rank policy (allRecords units)) positions ∧
    RanksAs otherPolicy others (fun _ => true) (Ranking.rank otherPolicy (allRecords others))
      positions
  forPass : ∀ name, ∃ positions,
    RanksAs policy units (fun sighting => sighting.passName? == some name)
      (Ranking.forPass policy units name) positions ∧
    RanksAs otherPolicy others (fun sighting => sighting.passName? == some name)
      (Ranking.forPass otherPolicy others name) positions
  highest : Ranking.highest policy ((allRecords units).map (·.record)) =
    Ranking.highest otherPolicy ((allRecords others).map (·.record))
  functions : (FunctionSummary.ofUnits policy units).map (·.facts) =
    (FunctionSummary.ofUnits otherPolicy others).map (·.facts)

theorem rankedEntries_mapCounts (same : SameHotness policy otherPolicy change)
    {selected : Sighting → Bool}
    (sameSelection : ∀ sighting, selected (sighting.mapCounts change) = selected sighting)
    (units : List CompilationUnit) :
    rankedEntries otherPolicy (units.map (·.mapCounts change)) selected =
      (rankedEntries policy units selected).map (Prod.map (·.mapCounts change) id) := by
  have entries : (allRecords (units.map (·.mapCounts change))).zipIdx.filter
      (fun entry => selected entry.1) =
        ((allRecords units).zipIdx.filter fun entry => selected entry.1).map
          (Prod.map (·.mapCounts change) id) := by
    simp only [allRecords_mapCounts, List.zipIdx_map, List.filter_map, Function.comp_def,
      Prod.map_fst, sameSelection]
  rw [rankedEntries, rankedEntries, entries, Ranking.rankBy_map]
  intro entry
  simp only [Ranking.heat, Prod.map_fst, Sighting.mapCounts, same _]

/-- Changing the counts of a corpus changes no view if every record stays as hot as it was. -/
theorem sameViews_mapCounts (same : SameHotness policy otherPolicy change)
    (units : List CompilationUnit) :
    SameViews policy units otherPolicy (units.map (·.mapCounts change)) := by
  have ranking : ∀ selected : Sighting → Bool,
      (∀ sighting, selected (sighting.mapCounts change) = selected sighting) →
      ∃ positions,
        RanksAs policy units selected
          (Ranking.rank policy ((allRecords units).filter selected)) positions ∧
        RanksAs otherPolicy (units.map (·.mapCounts change)) selected
          (Ranking.rank otherPolicy
            ((allRecords (units.map (·.mapCounts change))).filter selected)) positions := by
    intro selected sameSelection
    refine ⟨_, ranksAs_rank policy units selected, ?_⟩
    -- The entries keep their positions when counts change, so the positions come out the same.
    have others := ranksAs_rank otherPolicy (units.map (·.mapCounts change)) selected
    rw [rankedEntries_mapCounts same sameSelection, List.map_map] at others
    exact others
  refine ⟨?_, ?_, ?_, ?_⟩
  · have everything : ∀ others : List CompilationUnit,
        (allRecords others).filter (fun _ => true) = allRecords others :=
      fun _ => List.filter_eq_self.mpr fun _ _ => rfl
    have all := ranking (fun _ => true) fun _ => rfl
    rw [everything, everything] at all
    exact all
  · intro name
    exact ranking _ fun sighting => by simp
  · simp only [Ranking.highest, allRecords_mapCounts, List.map_map, List.filterMap_map,
      Function.comp_def, Sighting.mapCounts, same _]
  · rw [FunctionSummary.ofUnits_mapCounts same, List.map_map]
    rfl

end Corpus

end RemarkAtlas
