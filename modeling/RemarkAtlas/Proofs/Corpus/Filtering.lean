import RemarkAtlas.Proofs.Corpus.Noise

/-!
Filtering by several filters, and what filtering does to the listing of a unit: whole trees go, and
what stays is as it was.
-/

namespace RemarkAtlas

theorem Text.occursIn_iff {part text : List Char} : occursIn part text ↔ part <:+: text := by
  induction text with
  | nil => rw [occursIn, List.isEmpty_iff, List.infix_nil]
  | cons char rest ih => rw [occursIn, Bool.or_eq_true, startsWith_iff, ih, List.infix_cons_iff]

namespace NameSet

variable {names left right : NameSet} {name : String}

theorem contains_iff : names.contains name ↔ name ∈ names.toList := List.contains_iff_mem

def union (left right : NameSet) : NameSet :=
  right.toList.foldl (fun set name => set.insert name) left

theorem mem_foldl_insert {added : List String} :
    name ∈ (added.foldl (fun set name => set.insert name) names).toList ↔
      name ∈ names.toList ∨ name ∈ added := by
  induction added generalizing names with
  | nil => simp
  | cons first rest ih =>
      have inserted : name ∈ (names.insert first).toList ↔ name = first ∨ name ∈ names.toList :=
        mem_insertName
      rw [List.foldl_cons, ih, inserted, List.mem_cons]
      tauto

theorem contains_union :
    (left.union right).contains name = (left.contains name || right.contains name) := by
  rw [Bool.eq_iff_iff, Bool.or_eq_true, contains_iff, contains_iff, contains_iff]
  exact mem_foldl_insert

end NameSet

namespace NoiseFilter

variable {first second filter : NoiseFilter} {unit : CompilationUnit} {record : Record}

def union (first second : NoiseFilter) : NoiseFilter where
  enabled := first.enabled && second.enabled
  noisyFiles := first.noisyFiles ++ second.noisyFiles
  excludedPasses := first.excludedPasses.union second.excludedPasses

theorem isNoisyFile_iff {file : String} :
    filter.isNoisyFile file ↔ ∃ part ∈ filter.noisyFiles, part.toList <:+: file.toList := by
  simp only [isNoisyFile, List.any_eq_true, Text.occursIn_iff]

def Drops (filter : NoiseFilter) (unit : CompilationUnit) (record : Record) : Prop :=
  filter.enabled = true ∧ record.isSnapshot = false ∧
    ((∃ location, record.location? = some location ∧
        ∃ part ∈ filter.noisyFiles, part.toList <:+: location.file.toList) ∨
      ∃ pass, unit.passOf? record = some pass ∧ pass.name ∈ filter.excludedPasses.toList)

theorem isNoise_iff : filter.isNoise unit record ↔ filter.Drops unit record := by
  simp only [Drops, isNoise, Bool.and_eq_true, Bool.or_eq_true, Bool.not_eq_true', Option.any_eq_true,
    isNoisyFile_iff, NameSet.contains_iff, and_assoc]

theorem isNoise_of_disabled (disabled : filter.enabled = false) :
    filter.isNoise unit record = false := by
  rw [isNoise, disabled, Bool.false_and, Bool.false_and]

theorem isNoise_snapshot (isSnapshot : record.isSnapshot = true) :
    filter.isNoise unit record = false := by
  rw [isNoise, isSnapshot, Bool.not_true, Bool.and_false, Bool.false_and]

theorem isNoise_union (firstEnabled : first.enabled = true) (secondEnabled : second.enabled = true) :
    (first.union second).isNoise unit record =
      (first.isNoise unit record || second.isNoise unit record) := by
  have noisyFile (file : String) : (first.union second).isNoisyFile file =
      (first.isNoisyFile file || second.isNoisyFile file) := List.any_append
  have excluded (name : String) : (first.union second).excludedPasses.contains name =
      (first.excludedPasses.contains name || second.excludedPasses.contains name) :=
    NameSet.contains_union
  have enabled : (first.union second).enabled = true := by
    rw [union, firstEnabled, secondEnabled, Bool.and_self]
  cases isSnapshot : record.isSnapshot with
  | true => simp only [isNoise_snapshot isSnapshot, Bool.or_self]
  | false =>
      simp only [isNoise, enabled, firstEnabled, secondEnabled, isSnapshot, noisyFile, excluded]
      cases record.location? <;> cases unit.passOf? record <;> simp [Bool.or_assoc, Bool.or_left_comm]

theorem apply_apply :
    second.apply (first.apply unit) = unit.retain fun record =>
      !(first.isNoise unit record || second.isNoise unit record) := by
  -- The second filter sees the unit that the first one leaves, with the same passes.
  have unchanged : second.isNoise (first.apply unit) = second.isNoise unit :=
    isNoise_withRecords unit _
  rw [apply, unchanged, apply, CompilationUnit.retain, CompilationUnit.retain,
    CompilationUnit.retain, List.filter_filter]
  simp only [Bool.not_or, Bool.and_comm]

structure Composes (first second : NoiseFilter) (unit : CompilationUnit) : Prop where
  comm : second.apply (first.apply unit) = first.apply (second.apply unit)
  union (firstEnabled : first.enabled = true) (secondEnabled : second.enabled = true) :
    second.apply (first.apply unit) = (first.union second).apply unit
  disabled (isDisabled : first.enabled = false) : first.apply unit = unit
  twice : first.apply (first.apply unit) = first.apply unit

theorem composes (first second : NoiseFilter) (unit : CompilationUnit) :
    Composes first second unit where
  comm := by
    rw [apply_apply, apply_apply]
    simp only [Bool.or_comm]
  union firstEnabled secondEnabled := by
    rw [apply_apply, apply]
    simp only [isNoise_union firstEnabled secondEnabled]
  disabled isDisabled := by
    rw [apply, CompilationUnit.retain]
    simp only [isNoise_of_disabled isDisabled, Bool.not_false, List.filter_true]
  twice := by
    rw [apply_apply, apply]
    simp only [Bool.or_self]

end NoiseFilter

def CompilationUnit.rooted (unit : CompilationUnit) : List (Record × (Nat × Record)) :=
  unit.records.flatMap fun top => (top.flatten 0).map fun entry => (top, entry)

theorem Record.flattenAll_eq_flatMap (depth : Nat) (records : List Record) :
    flattenAll depth records = records.flatMap (flatten depth) := by
  induction records with
  | nil => rfl
  | cons record rest ih => rw [flattenAll, ih, List.flatMap_cons]

namespace CompilationUnit

variable (unit : CompilationUnit) (keep : Record → Bool)

theorem allRecords_eq_rooted : unit.allRecords = unit.rooted.map (·.2) := by
  rw [allRecords_eq, Record.flattenAll_eq_flatMap, rooted, List.map_flatMap]
  refine List.flatMap_congr fun top _ => ?_
  rw [List.map_map]
  exact (List.map_id _).symm

theorem rooted_retain : (unit.retain keep).rooted = unit.rooted.filter fun entry => keep entry.1 := by
  rw [rooted, retain, rooted]
  induction unit.records with
  | nil => rfl
  | cons top rest ih =>
      rw [List.flatMap_cons, List.filter_append, ← ih]
      cases kept : keep top <;> simp [List.filter_map, Function.comp_def, kept]

end CompilationUnit

namespace NoiseFilter

structure Prunes (filter : NoiseFilter) (unit filtered : CompilationUnit) : Prop where
  frame : filtered = { unit with records := filtered.records }
  snapshots : filtered.records.filter (·.isSnapshot) = unit.records.filter (·.isSnapshot)
  listed : unit.allRecords = unit.rooted.map (·.2)
  pruned : filtered.allRecords =
    (unit.rooted.filter fun entry => !filter.isNoise unit entry.1).map (·.2)

theorem apply_prunes (filter : NoiseFilter) (unit : CompilationUnit) :
    Prunes filter unit (filter.apply unit) where
  frame := rfl
  snapshots := by
    rw [apply, CompilationUnit.retain, List.filter_filter]
    refine List.filter_congr fun record _ => ?_
    cases isSnapshot : record.isSnapshot with
    | true => rw [isNoise_snapshot isSnapshot, Bool.not_false, Bool.and_self]
    | false => rw [Bool.false_and]
  listed := unit.allRecords_eq_rooted
  pruned := by
    rw [CompilationUnit.allRecords_eq_rooted, apply, CompilationUnit.rooted_retain]

theorem apply_composes (first second : NoiseFilter) (unit : CompilationUnit) :
    Composes first second unit ∧ Prunes first unit (first.apply unit) ∧
      ∀ record, first.isNoise unit record ↔ first.Drops unit record :=
  ⟨composes first second unit, apply_prunes first unit, fun _ => isNoise_iff⟩

def locatedIn (file : String) (pass : Option Nat) (children : List Record) : Record :=
  .remark ⟨.note, pass, none⟩ ⟨none, [], none, some ⟨file, 1, 1⟩, none⟩ children

def mixedUnit : CompilationUnit where
  filename := none
  format := "1"
  generator := ⟨"GNU C17", "", "13.2.0", "x86_64-pc-linux-gnu"⟩
  passes := [⟨"1", "loop", 6, .empty, "gimple", []⟩]
  rootPasses := [0]
  positions := NameMap.empty.insert "1" 0
  records :=
    [locatedIn "pgen.c" none [locatedIn "a.c" none []], locatedIn "b.c" (some 0) [],
      .snapshot ⟨.state, some 0, none⟩ none, locatedIn "c.c" none [locatedIn "pgen.c" (some 0) []]]

def generated : NoiseFilter := { noisyFiles := ["gen"], excludedPasses := .empty }

def loops : NoiseFilter := { noisyFiles := [], excludedPasses := .ofList ["loop"] }

theorem mixedUnit_filtered :
    generated.enabled = true ∧ loops.enabled = true ∧
    loops.apply (generated.apply mixedUnit) = (generated.union loops).apply mixedUnit ∧
    ((generated.union loops).apply mixedUnit).records = mixedUnit.records.drop 2 ∧
    (generated.apply mixedUnit).allRecords = mixedUnit.allRecords.drop 2 := by
  have laws := apply_composes generated loops mixedUnit
  refine ⟨rfl, rfl, laws.1.union rfl rfl, ?_, ?_⟩
  · rfl
  · rw [laws.2.1.pruned, laws.2.1.listed]
    rfl

end NoiseFilter

end RemarkAtlas
