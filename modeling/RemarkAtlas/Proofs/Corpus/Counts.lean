import RemarkAtlas.Corpus.Sighting
import RemarkAtlas.Proofs.Record.Counts

/-!
Corpora with other counts.  Nothing that is seen of a corpus depends on the counts but the counts
themselves, so every record has a counterpart at its position.
-/

namespace RemarkAtlas

namespace CompilationUnit

def withCounts (counts : List (Option Count)) (unit : CompilationUnit) :
    CompilationUnit × List (Option Count) :=
  let (records, left) := Record.withAllCounts counts unit.records
  ({ unit with records }, left)

def mapCounts (change : Option Count → Option Count) (unit : CompilationUnit) : CompilationUnit :=
  { unit with records := Record.mapAllCounts change unit.records }

variable {change : Option Count → Option Count}

theorem allRecords_mapCounts (unit : CompilationUnit) :
    (unit.mapCounts change).allRecords =
      unit.allRecords.map fun entry => (entry.1, entry.2.mapCounts change) := by
  rw [allRecords_eq, allRecords_eq]
  exact Record.flattenAll_mapAllCounts 0 unit.records

theorem withCounts_eq (unit : CompilationUnit) (left : List (Option Count)) :
    unit.withCounts ((unit.allRecords.map fun entry => change entry.2.count?) ++ left) =
      (unit.mapCounts change, left) := by
  simp only [withCounts, allRecords_eq, Record.withAllCounts_eq, mapCounts]

end CompilationUnit

namespace Sighting

def mapCounts (change : Option Count → Option Count) (sighting : Sighting) : Sighting :=
  { sighting with
    unit := sighting.unit.mapCounts change
    record := sighting.record.mapCounts change }

@[simp] theorem passName?_mapCounts (change : Option Count → Option Count) (sighting : Sighting) :
    (sighting.mapCounts change).passName? = sighting.passName? := by
  simp only [passName?, pass?, CompilationUnit.passOf?, Record.pass?, mapCounts,
    Record.header_mapCounts]
  rfl

end Sighting

namespace Corpus

def counts (units : List CompilationUnit) : List (Option Count) :=
  (allRecords units).map (·.record.count?)

def withCounts (counts : List (Option Count)) : List CompilationUnit → List CompilationUnit
  | [] => []
  | unit :: rest =>
    let (unit, left) := unit.withCounts counts
    unit :: withCounts left rest

variable {change : Option Count → Option Count}

theorem counts_eq (units : List CompilationUnit) :
    counts units = units.flatMap fun unit => unit.allRecords.map fun entry => entry.2.count? := by
  simp only [counts, allRecords, sightings, List.map_flatMap, List.map_map, Function.comp_def]
  rw [← List.flatMap_map Prod.fst fun unit : CompilationUnit =>
    unit.allRecords.map fun entry => entry.2.count?, List.zipIdx_map_fst]

theorem allRecords_mapCounts (units : List CompilationUnit) :
    allRecords (units.map (·.mapCounts change)) =
      (allRecords units).map (·.mapCounts change) := by
  simp only [allRecords, List.zipIdx_map, List.flatMap_map, List.map_flatMap, sightings,
    CompilationUnit.allRecords_mapCounts, List.map_map, Prod.map, Function.comp_def, id_eq,
    Sighting.mapCounts]

theorem withCounts_map_counts (units : List CompilationUnit) :
    withCounts ((counts units).map change) units = units.map (·.mapCounts change) := by
  rw [counts_eq]
  induction units with
  | nil => rfl
  | cons unit rest ih =>
      simp only [List.flatMap_cons, List.map_append, List.map_map, Function.comp_def, withCounts,
        CompilationUnit.withCounts_eq, ih, List.map_cons]

theorem counts_mapCounts (keepsNone : change none = none) (units : List CompilationUnit) :
    counts (units.map (·.mapCounts change)) = (counts units).map change := by
  simp only [counts, allRecords_mapCounts, List.map_map]
  refine List.map_congr_left ?_
  intro sighting _
  exact Record.count?_mapCounts keepsNone sighting.record

end Corpus

end RemarkAtlas
