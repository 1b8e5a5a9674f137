import Mathlib.Data.List.Forall2
import RemarkAtlas.Proofs.Document.FieldAcceptance
import RemarkAtlas.Proofs.Document.PassTable
import RemarkAtlas.Proofs.Document.WellFormed

/-!
A document is read exactly when it is valid.  The readers compare each id, index and reference with
a table of what came before; the grammar compares them all at once.
-/

namespace RemarkAtlas.Document

variable {value : Json} {members : Members} {options : Options} {indices : List UInt64}

theorem positionOf?_isSome {index : UInt64} :
    (∃ position, positionOf? indices index = some position) ↔ index ∈ indices := by
  rw [← Option.isSome_iff_exists, positionOf?, List.findIdx?_isSome, List.any_eq_true]
  simp

theorem readEdge_accepts {source : Nat} {index : UInt64} :
    Accepts (readEdge indices source index) value ↔ ValidEdge indices value := by
  simp only [Accepts, readEdge_eq_ok, ValidEdge]
  constructor
  · rintro ⟨edge, _, members, target, isObject, found, located, flags⟩
    exact ⟨members, isObject, ⟨target, positionOf?_isSome.mp ⟨_, located⟩, found⟩,
      (optionalNames_accepts _).mp ⟨_, flags⟩⟩
  · rintro ⟨members, isObject, ⟨target, known, found⟩, flags⟩
    obtain ⟨position, located⟩ := positionOf?_isSome.mpr known
    obtain ⟨flags, readsFlags⟩ := (optionalNames_accepts .edgeFlags).mpr flags
    exact ⟨⟨source, position, flags⟩, rfl, members, target, isObject, found, located, readsFlags⟩

def BlockFields (index : UInt64) (value : Json) : Prop :=
  ∃ members : Members, value = .object members ∧
    members.get? "index" = some (.natural index.toNat) ∧
    MayHave members "flags" (IsArrayOf IsString)

def BlockEdges (indices : List UInt64) (value : Json) : Prop :=
  ∃ members : Members, value = .object members ∧
    MayHave members "succs" (IsArrayOf (ValidEdge indices))

theorem validBlock_iff {index : UInt64} :
    ValidBlock indices index value ↔ BlockFields index value ∧ BlockEdges indices value := by
  constructor
  · rintro ⟨members, isObject, isIndex, flags, edges⟩
    exact ⟨⟨members, isObject, isIndex, flags⟩, members, isObject, edges⟩
  · rintro ⟨⟨members, rfl, isIndex, flags⟩, others, same, edges⟩
    obtain rfl : members = others := by simpa using same
    exact ⟨members, rfl, isIndex, flags, edges⟩

theorem validBlocks_iff {blocks : List Json} :
    List.Forall₂ (ValidBlock indices) indices blocks ↔
      List.Forall₂ BlockFields indices blocks ∧
        ∀ entry ∈ indices.zip blocks, BlockEdges indices entry.2 := by
  simp only [List.forall₂_iff_zip, validBlock_iff, Prod.forall]
  constructor
  · rintro ⟨sameLength, each⟩
    exact ⟨⟨sameLength, fun member => (each member).1⟩, fun _ _ member => (each member).2⟩
  · rintro ⟨⟨sameLength, fields⟩, edges⟩
    exact ⟨sameLength, fun member => ⟨fields member, edges _ _ member⟩⟩

theorem readBlocks_sound {values : List Json} {seen : List UInt64} {blocks : List Block}
    (read : readBlocks seen values = .ok blocks) :
    List.Forall₂ BlockFields (blocks.map (·.index)) values := by
  induction values generalizing seen blocks with
  | nil =>
      simp only [readBlocks, Except.ok.injEq] at read
      simp [← read]
  | cons value rest ih =>
      obtain ⟨block, others, readFirst, readOthers, rfl⟩ := readBlocks_cons_eq_ok.mp read
      obtain ⟨members, isObject, newIndex, flags, _⟩ := readBlock_eq_ok.mp readFirst
      have found := (newBlockIndex_eq_ok.mp newIndex).1
      exact .cons ⟨members, isObject, found, (optionalNames_accepts _).mp ⟨_, flags⟩⟩ (ih readOthers)

theorem readBlocks_complete {values : List Json} {seen : List UInt64}
    (fields : List.Forall₂ BlockFields indices values) (distinct : (seen ++ indices).Nodup) :
    ∃ blocks, readBlocks seen values = .ok blocks ∧ blocks.map (·.index) = indices := by
  -- The indices seen before grow from block to block; together with the others they stay distinct.
  induction fields generalizing seen with
  | nil => exact ⟨[], rfl, rfl⟩
  | @cons index value others rest first _ ih =>
      obtain ⟨members, isObject, found, flags⟩ := first
      obtain ⟨flags, readsFlags⟩ := (optionalNames_accepts .blockFlags).mpr flags
      have fresh : index ∉ seen := by
        intro member
        exact List.disjoint_of_nodup_append distinct member (by simp)
      have newIndex : newBlockIndex seen members = .ok index :=
        newBlockIndex_eq_ok.mpr ⟨found, fresh⟩
      have distinctLater : (seen ++ [index] ++ others).Nodup := by simpa using distinct
      obtain ⟨blocks, readsBlocks, sameIndices⟩ := ih distinctLater
      refine ⟨⟨index, flags, (members.get? "stmts").map statementsText⟩ :: blocks, ?_, ?_⟩
      · exact readBlocks_cons_eq_ok.mpr ⟨_, blocks,
          readBlock_eq_ok.mpr ⟨members, isObject, newIndex, readsFlags, rfl⟩, readsBlocks, rfl⟩
      · simp [sameIndices]

theorem listed_accepts {key : String} {read : Json → Reading Edge} {valid : Json → Prop}
    (same : ∀ item, Accepts read item ↔ valid item) :
    (∃ items edges, Lists members key items ∧ readEach read items = .ok edges) ↔
      MayHave members key (IsArrayOf valid) := by
  simp only [exists_and_left, readEach_accepts, MayHave, IsArrayOf, ← same, Accepts, Lists]
  cases found : members.get? key with
  | none => simp
  | some value => simp

theorem readEdges_accepts {entries : List (UInt64 × Json)} {source : Nat} :
    (∃ edges, readEdges indices source entries = .ok edges) ↔
      ∀ entry ∈ entries, BlockEdges indices entry.2 := by
  induction entries generalizing source with
  | nil => simp [readEdges]
  | cons entry rest ih =>
      obtain ⟨index, value⟩ := entry
      rw [List.forall_mem_cons]
      constructor
      · rintro ⟨edges, reads⟩
        obtain ⟨members, items, first, others, isObject, lists, readsItems, readsOthers, _⟩ :=
          readEdges_cons_eq_ok.mp reads
        exact ⟨⟨members, isObject, (listed_accepts fun _ => readEdge_accepts).mp
          ⟨items, first, lists, readsItems⟩⟩, ih.mp ⟨others, readsOthers⟩⟩
      · rintro ⟨⟨members, isObject, successors⟩, later⟩
        have accepted : ∀ item, Accepts (readEdge indices source index) item ↔
          ValidEdge indices item := fun _ => readEdge_accepts
        obtain ⟨items, first, lists, readsItems⟩ := (listed_accepts accepted).mpr successors
        have readsLater : ∃ others, readEdges indices (source + 1) rest = .ok others :=
          ih.mpr later
        obtain ⟨others, readsOthers⟩ := readsLater
        exact ⟨first ++ others, readEdges_cons_eq_ok.mpr
          ⟨members, items, first, others, isObject, lists, readsItems, readsOthers, rfl⟩⟩

theorem readGraph_accepts : Accepts readGraph value ↔ ValidGraph value := by
  simp only [Accepts, readGraph_eq_ok, ValidGraph, validBlocks_iff]
  constructor
  · rintro ⟨graph, blocks, isArray, readsBlocks, readsEdges⟩
    exact ⟨blocks, graph.blocks.map (·.index), isArray,
      by simpa using readBlocks_distinct List.nodup_nil readsBlocks, readBlocks_sound readsBlocks,
      readEdges_accepts.mp ⟨_, readsEdges⟩⟩
  · rintro ⟨values, indices, isArray, distinct, fields, edges⟩
    have fresh : ([] ++ indices).Nodup := by simpa using distinct
    obtain ⟨blocks, readsBlocks, rfl⟩ := readBlocks_complete fields fresh
    obtain ⟨edges, readsEdges⟩ := readEdges_accepts.mpr edges
    exact ⟨⟨blocks, edges⟩, values, isArray, readsBlocks, readsEdges⟩

theorem passFields_iff {id : String} :
    PassFields members id ↔
      (Has members "id" fun value => scalarText? value = some id) ∧
        ∃ pass, passWithId id members = .ok pass := by
  simp only [passWithId, bind_eq_ok, required_eq_ok, demand_eq_ok]
  constructor
  · intro fields
    obtain ⟨groupValue, foundGroups, groupsValid⟩ := fields.groups
    obtain ⟨groups, readsGroups⟩ := names_accepts.mpr groupsValid
    obtain ⟨name, readsName⟩ := (string_accepts .pass).mpr fields.name
    obtain ⟨numberValue, foundNumber, numberValid⟩ := fields.number
    obtain ⟨number, isNumber⟩ := asInt64?_isSome.mpr numberValid
    obtain ⟨type, readsType⟩ := (string_accepts .pass).mpr fields.type
    exact ⟨fields.id, _, groupValue, foundGroups, groups, readsGroups, name, readsName,
      numberValue, foundNumber, number, isNumber, type, readsType, rfl⟩
  · rintro ⟨hasId, pass, groupValue, foundGroups, groups, readsGroups, name, readsName,
      numberValue, foundNumber, number, isNumber, type, readsType, _⟩
    exact {
      id := hasId
      name := (string_accepts _).mp ⟨name, readsName⟩
      number := ⟨numberValue, foundNumber, asInt64?_isSome.mp ⟨number, isNumber⟩⟩
      groups := ⟨groupValue, foundGroups, names_accepts.mp ⟨groups, readsGroups⟩⟩
      type := (string_accepts _).mp ⟨type, readsType⟩ }

/-- Passes that are read are valid, and their ids follow those in the table. -/
theorem readPasses_sound {values : List Json} {table after : PassTable} {roots : List Nat}
    (read : readPasses table values = .ok (roots, after)) :
    ∃ ids, PassForest values ids ∧
      after.passes.map (·.id) = table.passes.map (·.id) ++ ids := by
  induction values using Json.forestInduction "children" generalizing table after roots with
  | nil =>
      simp only [readPasses, Except.ok.injEq, Prod.mk.injEq] at read
      exact ⟨[], .nil, by simp [read.2]⟩
  | cons value rest ihBelow ihRest =>
      obtain ⟨position, middle, positions, readFirst, readRest, _⟩ :=
        readPasses_cons_eq_ok.mp read
      obtain ⟨members, id, pass, items, children, below, isObject, newId, fields, lists, readBelow,
        _, rfl⟩ := readPass_eq_ok.mp readFirst
      obtain ⟨inner, innerForest, innerIds⟩ := ihBelow members items isObject lists readBelow
      obtain ⟨others, otherForest, otherIds⟩ := ihRest readRest
      subst isObject
      have valid : PassFields members id :=
        passFields_iff.mpr ⟨(newPassId_eq_ok.mp newId).1, pass, fields⟩
      refine ⟨id :: inner ++ others, .cons valid lists innerForest otherForest, ?_⟩
      simp [otherIds, innerIds, PassTable.adopt, PassTable.map_id_modify, PassTable.register,
        (passWithId_keeps fields).1]

/-- Valid passes are read if no id occurs twice, in the table or among them. -/
theorem readPasses_complete {values : List Json} {ids : List String} {table : PassTable}
    (forest : PassForest values ids) (located : table.Located)
    (distinct : (table.passes.map (·.id) ++ ids).Nodup) :
    ∃ roots after, readPasses table values = .ok (roots, after) ∧
      after.passes.map (·.id) = table.passes.map (·.id) ++ ids := by
  -- The induction is on the derivation, not on the values: only it knows the ids of each part.
  induction forest generalizing table with
  | nil => exact ⟨[], table, rfl, by simp⟩
  | @cons members id items below rest later fields lists _ _ ihBelow ihRest =>
      obtain ⟨hasId, pass, readsFields⟩ := passFields_iff.mp fields
      have sameId : pass.id = id := (passWithId_keeps readsFields).1
      have fresh : table.positions.get? id = none := by
        refine located.get?_eq_none_iff.mpr ?_
        intro member
        exact List.disjoint_of_nodup_append distinct member (by simp)
      have innerDistinct : ((table.register pass).passes.map (·.id) ++ below).Nodup := by
        have order : (table.passes.map (·.id) ++ id :: below ++ later).Nodup := by
          simpa using distinct
        simpa [PassTable.register, sameId] using (List.nodup_append.mp order).1
      obtain ⟨children, inside, readsBelow, innerIds⟩ :=
        ihBelow (located.register (sameId ▸ fresh)) innerDistinct
      have readsFirst : readPass table (.object members) =
          .ok (table.passes.length, inside.adopt table.passes.length children) :=
        readPass_eq_ok.mpr ⟨members, id, pass, items, children, inside, rfl,
          newPassId_eq_ok.mpr ⟨hasId, fresh⟩, readsFields, lists, readsBelow, rfl, rfl⟩
      -- The table after the first pass holds a beginning of the ids, so no later id is in it.
      have idsSoFar : (inside.adopt table.passes.length children).passes.map (·.id) =
          table.passes.map (·.id) ++ id :: below := by
        simp [PassTable.adopt, PassTable.map_id_modify, innerIds, PassTable.register, sameId]
      obtain ⟨roots, after, readsRest, allIds⟩ :=
        ihRest (readPass_located located readsFirst) (by simpa [idsSoFar] using distinct)
      refine ⟨_, after, readPasses_cons_eq_ok.mpr ⟨_, _, roots, readsFirst, readsRest, rfl⟩, ?_⟩
      simp [allIds, idsSoFar]

theorem readPasses_empty_accepts {values : List Json} {ids : List String} :
    (∃ roots after, readPasses .empty values = .ok (roots, after) ∧
        after.passes.map (·.id) = ids) ↔
      PassForest values ids ∧ ids.Nodup := by
  constructor
  · rintro ⟨roots, after, reads, rfl⟩
    obtain ⟨ids, forest, sameIds⟩ := readPasses_sound reads
    have distinct := (readPasses_located PassTable.located_empty reads).nodup
    have onlyThese : after.passes.map (·.id) = ids := by simpa [PassTable.empty] using sameIds
    exact ⟨onlyThese ▸ forest, distinct⟩
  · rintro ⟨forest, distinct⟩
    obtain ⟨roots, after, reads, sameIds⟩ :=
      readPasses_complete forest PassTable.located_empty (by simpa [PassTable.empty] using distinct)
    exact ⟨roots, after, reads, by simpa [PassTable.empty] using sameIds⟩

def Knows (positions : NameMap Nat) (known : List String) : Prop :=
  ∀ id, (∃ position, positions.get? id = some position) ↔ id ∈ known

theorem PassTable.Located.knows {table : PassTable} (located : table.Located) :
    Knows table.positions (table.passes.map (·.id)) := by
  intro id
  rw [List.mem_iff_getElem?]
  exact exists_congr fun position => located id position

section

variable {positions : NameMap Nat} {known : List String}

theorem readPassReference_accepts (knows : Knows positions known) :
    Accepts (readPassReference positions) value ↔ ∃ id ∈ known, scalarText? value = some id := by
  simp only [Accepts, readPassReference_eq_ok, ← knows _]
  constructor
  · rintro ⟨position, id, isId, found⟩
    exact ⟨id, ⟨position, found⟩, isId⟩
  · rintro ⟨id, ⟨position, found⟩, isId⟩
    exact ⟨position, id, isId, found⟩

theorem validHeader_iff (knows : Knows positions known) {kind : String} :
    ValidHeader known kind members ↔ members.get? "kind" = some (.string kind) ∧
      ∃ header, readHeader positions members = .ok header ∧ header.kind = Kind.ofTag kind := by
  have accepted : ∀ value, Accepts (readPassReference positions) value ↔
      ∃ id ∈ known, scalarText? value = some id := fun _ => readPassReference_accepts knows
  simp only [readHeader_eq_ok]
  constructor
  · intro valid
    obtain ⟨pass, readsPass⟩ := (readOptional_accepts accepted).mpr valid.pass
    obtain ⟨function, readsFunction⟩ := (optionalString_accepts .record).mpr valid.function
    exact ⟨valid.kind, ⟨Kind.ofTag kind, pass, function⟩,
      ⟨⟨kind, valid.kind, rfl⟩, readsPass, readsFunction⟩, rfl⟩
  · rintro ⟨hasKind, header, ⟨_, readsPass, readsFunction⟩, _⟩
    exact {
      kind := hasKind
      pass := (readOptional_accepts accepted).mp ⟨_, readsPass⟩
      function := (optionalString_accepts _).mp ⟨_, readsFunction⟩ }

theorem validDetails_iff :
    ValidDetails options members ↔ ∃ details, ReadsDetails options members details := by
  constructor
  · intro valid
    obtain ⟨message, readsMessage⟩ := readMessage_accepts.mpr valid.message
    obtain ⟨inlining, readsInlining⟩ := readInlining_accepts.mpr valid.inlining
    obtain ⟨emitter, readsEmitter⟩ :=
      (readOptional_accepts fun _ => readEmitter_accepts).mpr valid.emitter
    obtain ⟨count, readsCount⟩ := (readOptional_accepts fun _ => readCount_accepts).mpr valid.count
    obtain ⟨location, readsLocation⟩ :=
      (readOptional_accepts fun _ => readLocation_accepts).mpr valid.location
    exact ⟨⟨emitter, message, count, location, inlining⟩,
      ⟨readsMessage, readsInlining, readsEmitter, readsCount, readsLocation⟩⟩
  · rintro ⟨details, reads⟩
    exact {
      message := readMessage_accepts.mp ⟨_, reads.message⟩
      inlining := readInlining_accepts.mp ⟨_, reads.inlining⟩
      emitter := (readOptional_accepts fun _ => readEmitter_accepts).mp ⟨_, reads.emitter⟩
      count := (readOptional_accepts fun _ => readCount_accepts).mp ⟨_, reads.count⟩
      location := (readOptional_accepts fun _ => readLocation_accepts).mp ⟨_, reads.location⟩ }

theorem ofTag_eq_state {tag : String} : Kind.ofTag tag = .state ↔ tag = "state" := by
  grind [Kind.ofTag]

/-- One record is read exactly when it is valid, if that holds of the records below it. -/
theorem readRecord_accepts (knows : Knows positions known)
    (below : ∀ members items, value = .object members → Lists members "children" items →
      ((∃ records, readRecords options positions items = .ok records) ↔
        ∀ item ∈ items, ValidRecord options known item)) :
    Accepts (readRecord options positions) value ↔ ValidRecord options known value := by
  constructor
  · rintro ⟨record, reads⟩
    obtain ⟨members, header, rfl, readsHeader, body⟩ := readRecord_eq_ok.mp reads
    obtain ⟨⟨tag, hasTag, isKind⟩, _, _⟩ := readHeader_eq_ok.mp readsHeader
    have validHeader := (validHeader_iff knows).mpr ⟨hasTag, header, readsHeader, isKind⟩
    rcases body with ⟨isState, graph, readsGraph, _⟩ |
      ⟨notState, details, items, children, readsDetails, lists, readsItems, _⟩
    · obtain rfl := ofTag_eq_state.mp (isKind ▸ isState)
      exact .snapshot validHeader
        ((readOptional_accepts fun _ => readGraph_accepts).mp ⟨graph, readsGraph⟩)
    · have isRemark : tag ≠ "state" := fun same =>
        notState (isKind.trans (ofTag_eq_state.mpr same))
      exact .remark validHeader isRemark (validDetails_iff.mpr ⟨details, readsDetails⟩) lists
        ((below members items rfl lists).mp ⟨children, readsItems⟩)
  · intro valid
    cases valid with
    | snapshot validHeader validGraph =>
        obtain ⟨_, header, readsHeader, isKind⟩ := (validHeader_iff knows).mp validHeader
        obtain ⟨graph, readsGraph⟩ :=
          (readOptional_accepts fun _ => readGraph_accepts).mpr validGraph
        exact ⟨.snapshot header graph, readRecord_eq_ok.mpr ⟨_, header, rfl, readsHeader,
          Or.inl ⟨isKind.trans (ofTag_eq_state.mpr rfl), graph, readsGraph, rfl⟩⟩⟩
    | @remark members kind items validHeader isRemark validDetails lists validItems =>
        obtain ⟨_, header, readsHeader, isKind⟩ := (validHeader_iff knows).mp validHeader
        obtain ⟨details, readsDetails⟩ := validDetails_iff.mp validDetails
        obtain ⟨children, readsItems⟩ := (below members items rfl lists).mpr validItems
        have notState : header.kind ≠ .state := fun isState =>
          isRemark (ofTag_eq_state.mp (isKind ▸ isState))
        exact ⟨.remark header details children, readRecord_eq_ok.mpr ⟨members, header, rfl,
          readsHeader, Or.inr ⟨notState, details, items, children, readsDetails, lists, readsItems,
            rfl⟩⟩⟩

theorem readRecords_accepts {values : List Json} (knows : Knows positions known) :
    (∃ records, readRecords options positions values = .ok records) ↔
      ∀ value ∈ values, ValidRecord options known value := by
  induction values using Json.forestInduction "children" with
  | nil => simp [readRecords]
  | cons value rest ihBelow ihRest =>
      rw [List.forall_mem_cons, ← ihRest, ← readRecord_accepts knows ihBelow]
      constructor
      · rintro ⟨records, reads⟩
        obtain ⟨record, others, readsFirst, readsOthers, _⟩ := readRecords_cons_eq_ok.mp reads
        exact ⟨⟨record, readsFirst⟩, others, readsOthers⟩
      · rintro ⟨⟨record, readsFirst⟩, others, readsOthers⟩
        exact ⟨_, readRecords_cons_eq_ok.mpr ⟨record, others, readsFirst, readsOthers, rfl⟩⟩

end

theorem readUnit_accepts {document : Json} :
    (∃ unit, readUnit options document = .ok unit) ↔ ValidDocument options document := by
  constructor
  · rintro ⟨unit, reads⟩
    obtain ⟨metadata, generator, passes, records, table, rfl, hasFormat, foundGenerator,
      readsGenerator, readsPasses, readsRecords, _⟩ := readUnit_eq_ok.mp reads
    have located := readPasses_located PassTable.located_empty readsPasses
    obtain ⟨forest, distinct⟩ := readPasses_empty_accepts.mp ⟨_, table, readsPasses, rfl⟩
    have validMetadata : ValidMetadata (.object metadata) :=
      ⟨metadata, rfl, (scalar_accepts _).mp ⟨_, hasFormat⟩, generator, foundGenerator,
        readGenerator_accepts.mp ⟨_, readsGenerator⟩⟩
    exact ⟨.object metadata, passes, records, _, rfl, validMetadata, forest, distinct,
      (readRecords_accepts located.knows).mp ⟨_, readsRecords⟩⟩
  · rintro ⟨_, passes, records, ids, rfl, ⟨metadata, rfl, hasFormat, generator, foundGenerator,
      validGenerator⟩, forest, distinct, validRecords⟩
    obtain ⟨format, readsFormat⟩ := (scalar_accepts .metadata).mpr hasFormat
    obtain ⟨generatorRead, readsGenerator⟩ := readGenerator_accepts.mpr validGenerator
    obtain ⟨roots, table, readsPasses, rfl⟩ := readPasses_empty_accepts.mpr ⟨forest, distinct⟩
    have located := readPasses_located PassTable.located_empty readsPasses
    obtain ⟨recordsRead, readsRecords⟩ := (readRecords_accepts located.knows).mpr validRecords
    exact ⟨⟨none, format, generatorRead, table.passes, roots, table.positions, recordsRead⟩,
      readUnit_eq_ok.mpr ⟨metadata, generator, passes, records, table, rfl, readsFormat,
        foundGenerator, readsGenerator, readsPasses, readsRecords, rfl, rfl, rfl⟩⟩

end RemarkAtlas.Document
