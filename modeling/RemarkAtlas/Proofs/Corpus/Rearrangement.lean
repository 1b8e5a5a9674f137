import RemarkAtlas.Proofs.Corpus.Functions
import RemarkAtlas.Proofs.Corpus.Passes

/-!
Corpora with their units in another order.  The order decides which record is met first, and so
where a function was seen, what is its peak and how ties are ranked; all else comes out the same.
-/

namespace RemarkAtlas

namespace Sighting

def moved (newIndex : Nat → Nat) (sighting : Sighting) : Sighting :=
  { sighting with unitIndex := newIndex sighting.unitIndex }

end Sighting

namespace FunctionSummary

variable {policy : PrecisionPolicy}

def nameAndHotness (summary : FunctionSummary) : String × Option UInt64 :=
  (summary.name, summary.activity.hotness)

/-- A function is as hot as the highest count of its records. -/
theorem Describes.hotness {records : List Sighting} {summary : FunctionSummary}
    (describes : summary.Describes policy records) :
    summary.activity.hotness = Ranking.highest policy (records.map (·.record)) := by
  have sums := describes.sums
  refine Option.ext fun count => ?_
  rw [Ranking.highest_eq_some_iff, List.forall_mem_map]
  constructor
  · intro known
    obtain ⟨pair, isPair, counted⟩ := sums.attained count known
    obtain ⟨sighting, isRecord, rfl⟩ := List.mem_map.mp isPair
    refine ⟨⟨sighting.record, List.mem_map_of_mem isRecord, counted⟩, ?_⟩
    intro other isOther otherCount isCount
    exact sums.greatest count known _ (List.mem_map_of_mem isOther) otherCount isCount
  · rintro ⟨⟨_, isRecord, counted⟩, bound⟩
    obtain ⟨sighting, member, rfl⟩ := List.mem_map.mp isRecord
    cases known : summary.activity.hotness with
    | none =>
        have absent := sums.unknown.mp known _ (List.mem_map_of_mem member)
        rw [counted] at absent
        cases absent
    | some greatest =>
        obtain ⟨pair, isPair, attained⟩ := sums.attained greatest known
        obtain ⟨hottest, isHottest, rfl⟩ := List.mem_map.mp isPair
        have below := bound hottest isHottest greatest attained
        have above := sums.greatest greatest known _ (List.mem_map_of_mem member) count counted
        rw [UInt64.le_antisymm below above]

theorem map_nameAndHotness_byName (policy : PrecisionPolicy) (units : List CompilationUnit) :
    (byName policy units).map nameAndHotness =
      ((Groups.byKey (fun sighting => sighting.record.function?) (Corpus.allRecords units)).map
        Prod.fst).map fun name =>
          (name, Ranking.highest policy ((recordsOf units name).map (·.record))) := by
  rw [← names_byName policy, List.map_map]
  exact List.map_congr_left fun _ member => Prod.ext rfl (describes_byName member).hotness

theorem map_nameAndHotness_ofUnits (policy : PrecisionPolicy) (units : List CompilationUnit) :
    (ofUnits policy units).map nameAndHotness =
      ((byName policy units).map nameAndHotness).mergeSort
        fun left right => !Activity.isHotter right.2 left.2 :=
  List.map_mergeSort fun _ _ _ _ => rfl

end FunctionSummary

namespace Corpus

variable {newIndex : Nat → Nat} {units others : List CompilationUnit}

def Rearranges (newIndex : Nat → Nat) (units others : List CompilationUnit) : Prop :=
  (units.zipIdx.map (Prod.map id newIndex)).Perm others.zipIdx

theorem exists_rearranges (perm : units.Perm others) :
    ∃ newIndex, Rearranges newIndex units others := by
  have indexed : List.Forall₂ (fun (unit : CompilationUnit) (entry : CompilationUnit × Nat) =>
      unit = entry.1) (others.zipIdx.map Prod.fst) others.zipIdx :=
    List.forall₂_map_left_iff.mpr (List.forall₂_same.mpr fun _ _ => rfl)
  rw [List.zipIdx_map_fst] at indexed
  -- The same pairs of units and positions, in the order of the units.
  obtain ⟨entries, aligned, isPerm⟩ := List.perm_comp_forall₂ perm indexed
  have isUnits : units = entries.map Prod.fst := by
    rw [← List.forall₂_eq_eq_eq, List.forall₂_map_right_iff]
    exact aligned
  let newIndex (index : Nat) : Nat := (entries[index]?.map Prod.snd).getD 0
  have sameEntries : units.zipIdx.map (Prod.map id newIndex) = entries := by
    rw [isUnits, List.zipIdx_map, List.map_map]
    calc
      _ = entries.zipIdx.map Prod.fst := by
        refine List.map_congr_left fun ⟨entry, index⟩ member => ?_
        have isEntry := List.mk_mem_zipIdx_iff_getElem?.mp member
        simp [newIndex, isEntry]
      _ = entries := List.zipIdx_map_fst ..
  refine ⟨newIndex, ?_⟩
  rw [Rearranges, sameEntries]
  exact isPerm

namespace Rearranges

theorem allRecords (rearranges : Rearranges newIndex units others) :
    ((Corpus.allRecords units).map (·.moved newIndex)).Perm (Corpus.allRecords others) := by
  have isMoved : (Corpus.allRecords units).map (·.moved newIndex) =
      (units.zipIdx.map (Prod.map id newIndex)).flatMap fun indexed =>
        sightings indexed.2 indexed.1 indexed.1.allRecords := by
    simp only [Corpus.allRecords, List.map_flatMap, List.flatMap_map, sightings, List.map_map]
    rfl
  rw [isMoved]
  exact rearranges.flatMap_right _

theorem records (rearranges : Rearranges newIndex units others) :
    ((Corpus.allRecords units).map (·.record)).Perm
      ((Corpus.allRecords others).map (·.record)) := by
  have moved := rearranges.allRecords.map (·.record)
  rwa [List.map_map] at moved

/-- Groups by a key that does not depend on the order of the units. -/
theorem byKey {Key : Type} [Ord Key] [Std.LawfulEqOrd Key] [Std.TransOrd Key] [BEq Key]
    [LawfulBEq Key] (rearranges : Rearranges newIndex units others) (key? : Sighting → Option Key)
    (unmoved : ∀ sighting, key? (sighting.moved newIndex) = key? sighting) :
    List.Forall₂ (fun group other =>
        group.1 = other.1 ∧ (group.2.map (·.moved newIndex)).Perm other.2)
      (Groups.byKey key? (Corpus.allRecords units))
      (Groups.byKey key? (Corpus.allRecords others)) := by
  have groups := Groups.byKey_perm key? rearranges.allRecords
  simp only [Groups.byKey_map, unmoved, List.forall₂_map_left_iff] at groups
  exact groups

theorem policy (rearranges : Rearranges newIndex units others) :
    PrecisionPolicy.ofUnits others = PrecisionPolicy.ofUnits units := by
  have counts := rearranges.records.filterMap (·.count?)
  rw [List.filterMap_map, List.filterMap_map] at counts
  exact congrArg PrecisionPolicy.mk counts.any_eq.symm

theorem passes (rearranges : Rearranges newIndex units others) :
    PassSummary.ofUnits others = PassSummary.ofUnits units := by
  have groups := rearranges.byKey (fun sighting => some sighting.passName?) fun _ => rfl
  refine Eq.symm ?_
  rw [PassSummary.ofUnits, PassSummary.ofUnits, ← List.forall₂_eq_eq_eq,
    List.forall₂_map_left_iff, List.forall₂_map_right_iff]
  refine groups.imp ?_
  rintro ⟨name, group⟩ ⟨_, other⟩ ⟨rfl, perm⟩
  have sameLength := perm.length_eq
  have sameTop := perm.countP_eq fun sighting => sighting.depth == 0
  rw [List.length_map] at sameLength
  rw [List.countP_map] at sameTop
  rw [PassSummary.ofGroup, PassSummary.ofGroup, ← sameTop, ← sameLength]
  rfl

theorem functions (rearranges : Rearranges newIndex units others) (policy : PrecisionPolicy) :
    (FunctionSummary.ofUnits policy others).map (·.nameAndHotness) =
      (FunctionSummary.ofUnits policy units).map (·.nameAndHotness) := by
  have groups := rearranges.byKey (fun sighting => sighting.record.function?) fun _ => rfl
  have names : (Groups.byKey (fun sighting => sighting.record.function?)
      (Corpus.allRecords others)).map Prod.fst =
        (Groups.byKey (fun sighting => sighting.record.function?)
          (Corpus.allRecords units)).map Prod.fst := by
    refine Eq.symm ?_
    rw [← List.forall₂_eq_eq_eq, List.forall₂_map_left_iff, List.forall₂_map_right_iff]
    exact groups.imp fun _ _ => And.left
  have hotness (name : String) :
      Ranking.highest policy ((FunctionSummary.recordsOf others name).map (·.record)) =
        Ranking.highest policy ((FunctionSummary.recordsOf units name).map (·.record)) := by
    have records := (rearranges.allRecords.filter fun sighting =>
      sighting.record.function? == some name).map (·.record)
    rw [List.filter_map, List.map_map] at records
    exact (Ranking.highest_perm policy records).symm
  simp only [FunctionSummary.map_nameAndHotness_ofUnits, FunctionSummary.map_nameAndHotness_byName,
    names, hotness]

theorem ranking (rearranges : Rearranges newIndex units others) (policy : PrecisionPolicy) :
    (Ranking.rank policy (Corpus.allRecords others)).map (Ranking.heat policy ·.record) =
      (Ranking.rank policy (Corpus.allRecords units)).map (Ranking.heat policy ·.record) := by
  have sorted (units : List CompilationUnit) :
      ((Ranking.rank policy (Corpus.allRecords units)).map (Ranking.heat policy ·.record)).Pairwise
        fun left right => right ≤ left :=
    List.pairwise_map.mpr (Ranking.pairwise_rank policy _)
  have heats (units : List CompilationUnit) :
      ((Ranking.rank policy (Corpus.allRecords units)).map (Ranking.heat policy ·.record)).Perm
        (((Corpus.allRecords units).map (·.record)).map (Ranking.heat policy)) := by
    rw [List.map_map]
    exact (Ranking.rank_perm policy _).map _
  have perm := (heats others).trans ((rearranges.records.map _).symm.trans (heats units).symm)
  exact perm.eq_of_pairwise (fun _ _ _ _ below above => UInt64.le_antisymm above below)
    (sorted others) (sorted units)

end Rearranges

structure SameAggregates (newIndex : Nat → Nat) (units others : List CompilationUnit) : Prop where
  policy : PrecisionPolicy.ofUnits others = PrecisionPolicy.ofUnits units
  passes : PassSummary.ofUnits others = PassSummary.ofUnits units
  highest (policy : PrecisionPolicy) :
    Ranking.highest policy ((allRecords others).map (·.record)) =
      Ranking.highest policy ((allRecords units).map (·.record))
  functions (policy : PrecisionPolicy) :
    (FunctionSummary.ofUnits policy others).map (·.nameAndHotness) =
      (FunctionSummary.ofUnits policy units).map (·.nameAndHotness)
  files : List.Forall₂ (fun group other =>
      group.1 = other.1 ∧ (group.2.map (·.moved newIndex)).Perm other.2)
    (bySourceFile units) (bySourceFile others)
  /-- Only equally hot records can change places. -/
  ranking (policy : PrecisionPolicy) :
    ((Ranking.rank policy (allRecords units)).map (·.moved newIndex)).Perm
        (Ranking.rank policy (allRecords others)) ∧
      (Ranking.rank policy (allRecords others)).map (Ranking.heat policy ·.record) =
        (Ranking.rank policy (allRecords units)).map (Ranking.heat policy ·.record)

theorem sameAggregates_rearranged (perm : units.Perm others) :
    ∃ newIndex, Rearranges newIndex units others ∧ SameAggregates newIndex units others := by
  obtain ⟨newIndex, rearranges⟩ := exists_rearranges perm
  refine ⟨newIndex, rearranges, rearranges.policy, rearranges.passes, ?_, rearranges.functions,
    rearranges.byKey _ fun _ => rfl, ?_⟩
  · intro policy
    exact (Ranking.highest_perm policy rearranges.records).symm
  · intro policy
    refine ⟨?_, rearranges.ranking policy⟩
    exact ((Ranking.rank_perm policy _).map _).trans
      (rearranges.allRecords.trans (Ranking.rank_perm policy _).symm)

def unitMeasuring (file : String) : CompilationUnit where
  filename := none
  format := "1"
  generator := ⟨"GNU C17", "", "13.2.0", "x86_64-pc-linux-gnu"⟩
  passes := []
  rootPasses := []
  positions := .empty
  records := [.remark ⟨.note, none, some "main"⟩
    ⟨none, [], some ⟨"precise", 5⟩, some ⟨file, 1, 1⟩, none⟩ []]

theorem activities_measuring (first second : String) :
    (FunctionSummary.ofUnits .precise [unitMeasuring first, unitMeasuring second]).map
      (·.activity) = [⟨some 5, some first, some ⟨first, 1, 1⟩⟩] := by
  rw [FunctionSummary.ofUnits, allRecords_eq]
  exact congrArg (List.map _) (List.mergeSort_singleton _)

theorem ranked_measuring (first second : String) :
    (Ranking.rank .precise (allRecords [unitMeasuring first, unitMeasuring second])).map
      (fun sighting => sighting.location?.map (·.file)) = [some first, some second] := by
  rw [Ranking.rank, Ranking.rankBy_of_pairwise, allRecords_eq]
  · rfl
  · rw [allRecords_eq]
    exact List.pairwise_pair.mpr (UInt64.le_refl 5)

def measuredUnits : List CompilationUnit := [unitMeasuring "a.c", unitMeasuring "b.c"]

def swappedUnits : List CompilationUnit := [unitMeasuring "b.c", unitMeasuring "a.c"]

/-- The peak of the function and the order of the tie are not among what stays. -/
theorem swappedUnits_sameAggregates :
    measuredUnits.Perm swappedUnits ∧
    (∃ newIndex, Rearranges newIndex measuredUnits swappedUnits ∧
      SameAggregates newIndex measuredUnits swappedUnits) ∧
    (FunctionSummary.ofUnits .precise measuredUnits).map (·.activity) ≠
      (FunctionSummary.ofUnits .precise swappedUnits).map (·.activity) ∧
    (Ranking.rank .precise (allRecords measuredUnits)).map
        (fun sighting => sighting.location?.map (·.file)) ≠
      (Ranking.rank .precise (allRecords swappedUnits)).map
        fun sighting => sighting.location?.map (·.file) := by
  refine ⟨.swap .., sameAggregates_rearranged (.swap ..), ?_, ?_⟩
  · rw [measuredUnits, swappedUnits, activities_measuring, activities_measuring]
    decide
  · rw [measuredUnits, swappedUnits, ranked_measuring, ranked_measuring]
    decide

end Corpus

end RemarkAtlas
