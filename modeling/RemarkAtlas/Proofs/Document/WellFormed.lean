import RemarkAtlas.Document.Reader
import RemarkAtlas.Proofs.Document.PassTable
import RemarkAtlas.Proofs.Document.Records

/-!
Every unit that is read from a document is well-formed, and stays so when noise is left out of it.
-/

namespace RemarkAtlas.Document

theorem readUnit_eq_ok {options : Options} {document : Json} {unit : CompilationUnit} :
    readUnit options document = .ok unit ↔
      ∃ (metadata : Members) (generator : Json) (passes records : List Json) (table : PassTable),
        document = .array [.object metadata, .array passes, .array records] ∧
          scalar .metadata "format" metadata = .ok unit.format ∧
          metadata.get? "generator" = some generator ∧
          readGenerator generator = .ok unit.generator ∧
          readPasses .empty passes = .ok (unit.rootPasses, table) ∧
          readRecords options table.positions records = .ok unit.records ∧
          table.passes = unit.passes ∧ table.positions = unit.positions ∧
          unit.filename = none := by
  constructor
  · intro read
    unfold readUnit at read
    split at read
    · simp only [bind_eq_ok, object_eq_ok, array_eq_ok, required_eq_ok, pure_eq_ok,
        Except.ok.injEq, Prod.exists] at read
      obtain ⟨metadata, rfl, format, hasFormat, generator, hasGenerator, _, readsGenerator, passes,
        rfl, roots, table, readsPasses, records, rfl, _, readsRecords, rfl⟩ := read
      exact ⟨metadata, generator, passes, records, table, rfl, hasFormat, hasGenerator,
        readsGenerator, readsPasses, readsRecords, rfl, rfl, rfl⟩
    · simp at read
  · rintro ⟨metadata, generator, passes, records, table, rfl, hasFormat, hasGenerator,
      readsGenerator, readsPasses, readsRecords, samePasses, samePositions, noFilename⟩
    simp only [readUnit, bind_eq_ok, object_eq_ok, array_eq_ok, required_eq_ok, pure_eq_ok,
      Except.ok.injEq, Prod.exists]
    refine ⟨metadata, rfl, unit.format, hasFormat, generator, hasGenerator, unit.generator,
      readsGenerator, passes, rfl, unit.rootPasses, table, readsPasses, records, rfl, unit.records,
      readsRecords, ?_⟩
    rw [← noFilename, samePasses, samePositions]

theorem readUnit_wellFormed {options : Options} {document : Json} {unit : CompilationUnit}
    (read : readUnit options document = .ok unit) : unit.WellFormed := by
  obtain ⟨_, _, passes, records, table, _, _, _, _, readsPasses, readsRecords, samePasses,
    samePositions, _⟩ := readUnit_eq_ok.mp read
  have located : Locates unit.positions (unit.passes.map (·.id)) := by
    rw [← samePasses, ← samePositions]
    exact readPasses_located PassTable.located_empty readsPasses
  obtain ⟨family, adds⟩ := readPasses_adds readsPasses
  have samePieces : unit.passes = family := by simp [← samePasses, adds.passes, PassTable.empty]
  refine ⟨located.nodup, located, ?_, ?_⟩
  · simpa [← samePieces, List.range_eq_range'] using adds.visits [] [] rfl
  · rw [CompilationUnit.allRecords_eq]
    refine readRecords_wellFormed ?_ readsRecords 0
    intro id index found
    simpa using located.lt_length (samePositions ▸ found)

theorem readUnit_filtered_wellFormed {options : Options} {document : Json}
    {unit : CompilationUnit} (read : readUnit options document = .ok unit)
    (filters : List NoiseFilter) :
    (filters.foldl (fun unit filter => filter.apply unit) unit).WellFormed ∧
      (filters.foldl (fun unit filter => filter.apply unit) unit).InBounds := by
  have wellFormed := (readUnit_wellFormed read).filtered filters
  exact ⟨wellFormed, wellFormed.inBounds⟩

def sampleDocument : Json :=
  .array [
    .object [("format", .string "1"),
      ("generator", .object [("name", .string "GNU C17"), ("pkgversion", .string "(GCC) "),
        ("target", .string "x86_64-pc-linux-gnu"), ("version", .natural 13)])],
    .array [
      .object [("children", .array [
          .object [("id", .natural 2), ("name", .string "unroll"), ("num", .natural 7),
            ("optgroups", .array []), ("type", .string "gimple")]]),
        ("id", .string "1"), ("name", .string "loop"), ("num", .natural 6),
        ("optgroups", .array [.string "vec", .string "loop"]), ("type", .string "ipa")]],
    .array [
      .object [("children", .array [
          .object [("cfg", .array [
              .object [("index", .natural 4), ("succs", .array [.object [("dest", .natural 9)]])],
              .object [("index", .natural 9)]]),
            ("kind", .string "state")]]),
        ("inlining_chain", .array []), ("kind", .string "scope"), ("message", .array []),
        ("pass", .string "2")],
      .object [("kind", .string "missed"),
        ("location", .object [("column", .natural 1), ("file", .string "pgen.c"),
          ("line", .natural 3)]),
        ("message", .array [.string "not inlined"])]]]

def sampleUnit : CompilationUnit where
  filename := none
  format := "1"
  generator := ⟨"GNU C17", "(GCC) ", "13", "x86_64-pc-linux-gnu"⟩
  passes := [⟨"1", "loop", 6, .ofList ["loop", "vec"], "ipa", [1]⟩,
    ⟨"2", "unroll", 7, .empty, "gimple", []⟩]
  rootPasses := [0]
  positions := (NameMap.empty.insert "1" 0).insert "2" 1
  records := [
    .remark ⟨.scope, some 1, none⟩ ⟨none, [], none, none, some []⟩ [
      .snapshot ⟨.state, none, none⟩
        (some ⟨[⟨4, .empty, none⟩, ⟨9, .empty, none⟩], [⟨0, 1, .empty⟩]⟩)],
    .remark ⟨.other "missed", none, none⟩
      ⟨none, [.plain "not inlined"], none, some ⟨"pgen.c", 3, 1⟩, none⟩ []]

theorem readUnit_sampleDocument : readUnit {} sampleDocument = .ok sampleUnit :=
  rfl

theorem sampleUnit_filtered_wellFormed :
    readUnit {} sampleDocument = .ok sampleUnit ∧
      ([.disabled, {}].foldl (fun unit filter => NoiseFilter.apply filter unit)
        sampleUnit).WellFormed ∧
      ([.disabled, {}].foldl (fun unit filter => NoiseFilter.apply filter unit)
        sampleUnit).InBounds :=
  ⟨readUnit_sampleDocument, readUnit_filtered_wellFormed readUnit_sampleDocument [.disabled, {}]⟩

end RemarkAtlas.Document
