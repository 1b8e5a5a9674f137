import RemarkAtlas.Proofs.Corpus.Reconciliation
import RemarkAtlas.Proofs.Document.Listing
import RemarkAtlas.Proofs.Report.Noise
import RemarkAtlas.Report.Validation

/-!
What checking a record file prints about it, told from the objects of its document.  The number of
distinct pass names counts the records without a pass as one name more.
-/

namespace RemarkAtlas

/-- Of the distinct items of a list at most one is nothing. -/
theorem length_dedup_option {Item : Type} [DecidableEq Item] (items : List (Option Item)) :
    items.dedup.length =
      (items.filterMap id).dedup.length + if none ∈ items then 1 else 0 := by
  induction items with
  | nil => rfl
  | cons item rest ih =>
      cases item with
      | none =>
          by_cases known : none ∈ rest
          · rw [List.dedup_cons_of_mem known, ih]
            simp [known]
          · rw [List.dedup_cons_of_notMem known, List.length_cons, ih]
            simp [known]
      | some item =>
          have isItem : some item ∈ rest ↔ item ∈ rest.filterMap id := by simp
          have others : (none ∈ some item :: rest) = (none ∈ rest) := by simp
          have reduced : (some item :: rest).filterMap id = item :: rest.filterMap id := rfl
          simp only [others, reduced]
          by_cases known : some item ∈ rest
          · rw [List.dedup_cons_of_mem known, List.dedup_cons_of_mem (isItem.mp known), ih]
          · rw [List.dedup_cons_of_notMem known, List.dedup_cons_of_notMem (known ∘ isItem.mpr),
              List.length_cons, List.length_cons, ih, Nat.add_right_comm]

theorem PassSummary.length_ofUnits (units : List CompilationUnit) :
    (ofUnits units).length = ((Corpus.allRecords units).map Sighting.passName?).dedup.length := by
  rw [ofUnits, List.length_map, Groups.length_byKey, List.filterMap_eq_map']

namespace Document

def namedPass? (passes : List Json) (record : Members) : Option String :=
  (idText? "pass" record).bind fun id =>
    ((passObjects passes).find? fun pass => idText? "id" pass == some id).bind (text? "name")

def distinctNames (passes records : List Json) : Nat :=
  ((recordObjects records).filterMap (namedPass? passes)).dedup.length

def isMeasured (record : Members) : Bool :=
  quality? record == some "precise" || quality? record == some "adjusted"

theorem namedPass?_eq {unit : CompilationUnit} {passes : List Json} {record : Record}
    {members : Members} (located : Locates unit.positions (unit.passes.map (·.id)))
    (objects : unit.passes.map (fun pass => (some pass.id, some pass.name)) =
      (passObjects passes).map fun members => (idText? "id" members, text? "name" members))
    (isRead : IsReadFrom unit.positions record members) :
    (unit.passOf? record).map (·.name) = namedPass? passes members := by
  have named := isRead.passOf?_id located
  rw [namedPass?, ← named]
  cases isPass : unit.passOf? record with
  | none => rfl
  | some pass =>
      have isListed : pass ∈ unit.passes := by
        obtain ⟨position, _, found⟩ := Option.bind_eq_some_iff.mp isPass
        exact List.mem_of_getElem? found
      -- The ids are distinct, so the first pass with the id is this one, and in the document alike.
      have found := congrArg (List.find? fun label => label.1 == some pass.id) objects
      rw [List.find?_map, List.find?_map] at found
      have first : unit.passes.find? (fun other => some other.id == some pass.id) = some pass := by
        have known : (unit.passes.find? fun other => some other.id == some pass.id).isSome :=
          List.find?_isSome.mpr ⟨pass, isListed, by simp⟩
        obtain ⟨other, isOther⟩ := Option.isSome_iff_exists.mp known
        have sameId : other.id = pass.id := by simpa using List.find?_some isOther
        rw [isOther, List.inj_on_of_nodup_map located.nodup (List.mem_of_find?_eq_some isOther)
          isListed sameId]
      rw [Function.comp_def, first, Option.map_some] at found
      obtain ⟨object, isObject, same⟩ := Option.map_eq_some_iff.mp found.symm
      rw [Option.map_some, Option.map_some, Option.bind_some]
      rw [Function.comp_def] at isObject
      rw [isObject, Option.bind_some]
      exact (congrArg Prod.snd same).symm

theorem readRecords_length {options : Options} {positions : NameMap Nat} {values : List Json}
    {records : List Record} (read : readRecords options positions values = .ok records) :
    records.length = values.length := by
  induction values generalizing records with
  | nil =>
      obtain rfl : [] = records := Except.ok.inj read
      rfl
  | cons value rest ih =>
      obtain ⟨record, others, _, readOthers, rfl⟩ := readRecords_cons_eq_ok.mp read
      rw [List.length_cons, List.length_cons, ih readOthers]

structure CountsAgree (unit : CompilationUnit) (passes records : List Json) : Prop where
  passCount : unit.passes.length = (passObjects passes).length
  topLevelCount : unit.records.length = records.length
  recordCount : unit.allRecords.length = (recordObjects records).length
  names : (unit.allRecords.map fun entry => (unit.passOf? entry.2).map (·.name)) =
    (recordObjects records).map (namedPass? passes)
  qualities : (unit.allRecords.map fun entry => entry.2.count?.map (·.quality)) =
    (recordObjects records).map quality?

theorem readUnit_counts {options : Options} {document : Json} {unit : CompilationUnit}
    (read : readUnit options document = .ok unit) :
    ∃ metadata passes records, document = .array [metadata, .array passes, .array records] ∧
      CountsAgree unit passes records := by
  have located := (readUnit_wellFormed read).located
  obtain ⟨metadata, _, passes, records, table, isArray, _, _, _, readsPasses, readsRecords,
    samePasses, samePositions, _⟩ := readUnit_eq_ok.mp read
  have listed := readPasses_objects readsPasses
  rw [PassTable.empty, List.map_nil, List.nil_append, samePasses] at listed
  have objects := readRecords_objects readsRecords 0
  rw [samePositions, ← CompilationUnit.allRecords_eq] at objects
  refine ⟨.object metadata, passes, records, isArray, ?_, readRecords_length readsRecords,
    objects.length_eq, ?_, ?_⟩
  · simpa using congrArg List.length listed
  · rw [← List.forall₂_eq_eq_eq, List.forall₂_map_left_iff, List.forall₂_map_right_iff]
    exact objects.imp fun _ _ isRead => namedPass?_eq located listed isRead
  · rw [← List.forall₂_eq_eq_eq, List.forall₂_map_left_iff, List.forall₂_map_right_iff]
    exact objects.imp fun _ _ isRead => isRead.quality

end Document

namespace Validation

open Document (passObjects recordObjects namedPass? distinctNames isMeasured)

variable {unit : CompilationUnit} {passes records : List Json}

def linesOf (path : Path) (unit : CompilationUnit) (passes records : List Json) (names : Nat) :
    List String :=
  ["Validating record file: " ++ path.text,
    "✓ Valid optimization record file",
    "  Format: " ++ unit.format,
    "  Generator: " ++ unit.generator.name ++ " " ++ unit.generator.version ++
      " (" ++ unit.generator.target ++ ")",
    "  Passes: " ++ toString (passObjects passes).length,
    "  Top-level Records: " ++ toString records.length,
    "  All Records: " ++ toString (recordObjects records).length,
    "  Distinct Pass Names: " ++ toString names,
    "  Profile Counts: " ++ yesOrNo ((recordObjects records).any isMeasured)]

theorem length_ofUnits (agree : Document.CountsAgree unit passes records) :
    (PassSummary.ofUnits [unit]).length =
      distinctNames passes records +
        if none ∈ (recordObjects records).map (namedPass? passes) then 1 else 0 := by
  have all : Corpus.allRecords [unit] = Corpus.sightings 0 unit unit.allRecords :=
    List.append_nil _
  have names : (Corpus.allRecords [unit]).map Sighting.passName? =
      (recordObjects records).map (namedPass? passes) := by
    rw [← agree.names, all, Corpus.sightings.eq_def, List.map_map]
    rfl
  rw [PassSummary.length_ofUnits, names, length_dedup_option, List.filterMap_map]
  rfl

theorem preciseOnly_ofUnits (agree : Document.CountsAgree unit passes records) :
    (PrecisionPolicy.ofUnits [unit]).preciseOnly = (recordObjects records).any isMeasured := by
  have measured : (unit.allRecords.map fun entry => entry.2.count?.map (·.quality)).any
      (fun quality => quality == some "precise" || quality == some "adjusted") =
      (recordObjects records).any isMeasured := by
    rw [agree.qualities, List.any_map]
    rfl
  have counts : Corpus.counts [unit] = unit.allRecords.map fun entry => entry.2.count? := by
    rw [Corpus.counts_eq, List.flatMap_singleton]
  rw [← measured, List.any_map, PrecisionPolicy.ofUnits_eq, PrecisionPolicy.ofCounts, counts,
    List.filterMap_map, List.any_filterMap]
  refine congrArg unit.allRecords.any (funext fun entry => ?_)
  rw [Function.comp_apply, Function.comp_apply, id]
  cases entry.2.count? with
  | none => rfl
  | some count => simp [Count.isPrecise, Count.preciseQualities, beq_eq_decide]

/-- Checking a file succeeds exactly when the file can be loaded. It then prints the numbers of the
passes and of the records in the document, whether a count was measured, and as the number of
distinct pass names one more than there are if some record has no pass. -/
theorem run_statistics (path : Path) (options : Document.Options) (disk : FileSystem) :
    ((run path options disk).result = .ok () ↔
      ∃ unit, RecordFile.loadUnit disk options path = .ok unit) ∧
    (run path options disk).disk = disk ∧
    ∀ unit, RecordFile.loadUnit disk options path = .ok unit →
      ∃ metadata passes records,
        RecordFile.readDocument disk path = .ok (.array [metadata, .array passes, .array records]) ∧
        (run path options disk).printed = printLines (linesOf path unit passes records
          (distinctNames passes records +
            if none ∈ (recordObjects records).map (namedPass? passes) then 1 else 0)) := by
  have outcome : (run path options disk).disk = disk ∧
      ((run path options disk).result = .ok () ↔
        ∃ unit, RecordFile.loadUnit disk options path = .ok unit) := by
    rw [run]
    cases RecordFile.loadUnit disk options path <;> simp
  refine ⟨outcome.2, outcome.1, fun unit loads => ?_⟩
  obtain ⟨document, unnamed, isDocument, read, rfl⟩ := RecordFile.loadUnit_eq_ok.mp loads
  obtain ⟨metadata, passes, records, rfl, agree⟩ := Document.readUnit_counts read
  refine ⟨metadata, passes, records, isDocument, ?_⟩
  have sameCounts : Document.CountsAgree (unnamed.withFilename path) passes records :=
    ⟨agree.passCount, agree.topLevelCount, agree.recordCount, agree.names, agree.qualities⟩
  rw [run, loads]
  dsimp only
  rw [statistics, sameCounts.passCount, sameCounts.topLevelCount, sameCounts.recordCount,
    length_ofUnits sameCounts, preciseOnly_ofUnits sameCounts]
  rfl

open ReportRequest in
/-- A single record without a pass counts for one name. -/
theorem unnamedPass_counted :
    let note := countedNoteJson "guessed" "a.c" []
    let unit := (unitWith [countedNote "guessed" "a.c" []]).withFilename recordFile
    RecordFile.loadUnit cleanDisk {} recordFile = .ok unit ∧
    RecordFile.readDocument cleanDisk recordFile = .ok (documentWith [note]) ∧
    distinctNames [] [note] = 0 ∧
    (run recordFile {} cleanDisk).printed = printLines (linesOf recordFile unit [] [note] 1) ∧
    (run recordFile {} cleanDisk).printed ≠
      printLines (linesOf recordFile unit [] [note] (distinctNames [] [note])) := by
  intro note unit
  have isRead : (documentWith [note]).IsRead Json.depthLimit := by
    refine isRead_documentWith (List.forall_mem_singleton.mpr ?_)
    exact isRead_countedNoteJson "guessed" "a.c" (List.forall_mem_nil _)
  have holds : cleanDisk.read? recordFile = some (Utf8.encode ((documentWith [note]).pretty 0)) :=
    rfl
  have loads : RecordFile.loadUnit cleanDisk {} recordFile = .ok unit :=
    RecordFile.loadUnit_pretty isRead holds rfl
  have printed : (run recordFile {} cleanDisk).printed =
      printLines (linesOf recordFile unit [] [note] 1) := by
    rw [run, loads]
    decide +kernel
  refine ⟨loads, RecordFile.readDocument_pretty isRead holds, by decide, printed, ?_⟩
  rw [printed]
  decide +kernel

end Validation

end RemarkAtlas
