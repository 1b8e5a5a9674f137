import Mathlib.Data.List.Forall2
import RemarkAtlas.Corpus.NoiseFilter
import RemarkAtlas.Proofs.Corpus.Reconciliation
import RemarkAtlas.Proofs.Record.Flatten

/-!
Corpora with noise put in.  What a filter drops leaves no trace in the filtered corpus, and so
cannot decide which counts are trusted.
-/

namespace RemarkAtlas

inductive WithNoise (isNoise : Record → Bool) : List Record → List Record → Prop
  | nil : WithNoise isNoise [] []
  | keep (record : Record) {records noisy : List Record} (rest : WithNoise isNoise records noisy) :
      WithNoise isNoise (record :: records) (record :: noisy)
  | noise {record : Record} (isDropped : isNoise record = true) {records noisy : List Record}
      (rest : WithNoise isNoise records noisy) : WithNoise isNoise records (record :: noisy)

namespace WithNoise

variable {isNoise : Record → Bool} {records noisy : List Record}

theorem refl (records : List Record) : WithNoise isNoise records records := by
  induction records with
  | nil => exact .nil
  | cons record records ih => exact .keep record ih

theorem filter_eq (withNoise : WithNoise isNoise records noisy) :
    noisy.filter (fun record => !isNoise record) =
      records.filter (fun record => !isNoise record) := by
  induction withNoise with
  | nil => rfl
  | keep record _ ih => rw [List.filter_cons, List.filter_cons, ih]
  | noise isDropped _ ih => simpa [isDropped] using ih

end WithNoise

namespace CompilationUnit

def HasNoise (filter : NoiseFilter) (unit noisy : CompilationUnit) : Prop :=
  ∃ records, noisy = { unit with records } ∧
    WithNoise (filter.isNoise unit) unit.records records

end CompilationUnit

namespace NoiseFilter

variable {filter : NoiseFilter}

/-- A record is noise because of its unit's passes, whatever the other records of the unit are. -/
theorem isNoise_withRecords (unit : CompilationUnit) (records : List Record) :
    filter.isNoise { unit with records } = filter.isNoise unit := rfl

theorem apply_hasNoise {unit noisy : CompilationUnit} (hasNoise : unit.HasNoise filter noisy) :
    filter.apply noisy = filter.apply unit := by
  obtain ⟨records, rfl, withNoise⟩ := hasNoise
  rw [apply, apply, isNoise_withRecords, CompilationUnit.retain, CompilationUnit.retain,
    withNoise.filter_eq]

theorem map_apply_hasNoise {units noisy : List CompilationUnit}
    (hasNoise : List.Forall₂ (CompilationUnit.HasNoise filter) units noisy) :
    noisy.map filter.apply = units.map filter.apply := by
  induction hasNoise with
  | nil => rfl
  | cons first _ ih => rw [List.map_cons, List.map_cons, apply_hasNoise first, ih]

end NoiseFilter

namespace Corpus

theorem mem_records {units : List CompilationUnit} {record : Record} :
    record ∈ (allRecords units).map (·.record) ↔
      ∃ unit ∈ units, ∃ top ∈ unit.records, ∃ depth, (depth, record) ∈ top.flatten 0 := by
  constructor
  · intro member
    obtain ⟨sighting, isSighting, rfl⟩ := List.mem_map.mp member
    obtain ⟨⟨unit, index⟩, isUnit, inUnit⟩ := List.mem_flatMap.mp isSighting
    obtain ⟨⟨depth, record⟩, isRecord, rfl⟩ := List.mem_map.mp inUnit
    rw [CompilationUnit.allRecords_eq, Record.mem_flattenAll] at isRecord
    obtain ⟨top, isTop, isBelow⟩ := isRecord
    exact ⟨unit, List.fst_mem_of_mem_zipIdx isUnit, top, isTop, depth, isBelow⟩
  · rintro ⟨unit, isUnit, top, isTop, depth, isBelow⟩
    obtain ⟨index, isIndexed⟩ := List.getElem?_of_mem isUnit
    have isIndexed := List.mk_mem_zipIdx_iff_getElem?.mpr isIndexed
    have isRecord : (depth, record) ∈ unit.allRecords := by
      rw [CompilationUnit.allRecords_eq, Record.mem_flattenAll]
      exact ⟨top, isTop, isBelow⟩
    exact List.mem_map.mpr ⟨_, List.mem_flatMap.mpr ⟨_, isIndexed, List.mem_map_of_mem isRecord⟩, rfl⟩

end Corpus

namespace PrecisionPolicy

/-- Only a measured count of a record that is kept, or of one below it, turns guesses away. -/
theorem preciseOnly_filtered (filter : NoiseFilter) (units : List CompilationUnit) :
    (ofUnits (units.map filter.apply)).preciseOnly = true ↔
      ∃ unit ∈ units, ∃ top ∈ unit.records, filter.isNoise unit top = false ∧
        ∃ depth record, (depth, record) ∈ top.flatten 0 ∧
          ∃ count, record.count? = some count ∧ count.isPrecise = true := by
  rw [preciseOnly_ofUnits]
  constructor
  · rintro ⟨count, isCount, isPrecise⟩
    obtain ⟨sighting, isSighting, hasCount⟩ := List.mem_map.mp isCount
    obtain ⟨kept, isKept, top, isTop, depth, isBelow⟩ :=
      Corpus.mem_records.mp (List.mem_map_of_mem isSighting)
    obtain ⟨unit, isUnit, rfl⟩ := List.mem_map.mp isKept
    obtain ⟨isRecord, notNoise⟩ := List.mem_filter.mp isTop
    exact ⟨unit, isUnit, top, isRecord, by simpa using notNoise, depth, sighting.record, isBelow,
      count, hasCount, isPrecise⟩
  · rintro ⟨unit, isUnit, top, isRecord, notNoise, depth, record, isBelow, count, hasCount, isPrecise⟩
    have isTop : top ∈ (filter.apply unit).records :=
      List.mem_filter.mpr ⟨isRecord, by simp [notNoise]⟩
    have isKept : record ∈ (Corpus.allRecords (units.map filter.apply)).map (·.record) :=
      Corpus.mem_records.mpr ⟨_, List.mem_map_of_mem isUnit, top, isTop, depth, isBelow⟩
    obtain ⟨sighting, isSighting, rfl⟩ := List.mem_map.mp isKept
    exact ⟨count, List.mem_map.mpr ⟨sighting, isSighting, hasCount⟩, isPrecise⟩

end PrecisionPolicy

end RemarkAtlas
