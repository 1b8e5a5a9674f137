import RemarkAtlas.Proofs.Document.GraphRoundTrip
import RemarkAtlas.Proofs.Document.PassRoundTrip
import RemarkAtlas.Proofs.Document.WellFormed

/-!
Reading undoes writing: the canonical document of a well-formed unit is read as that unit.
-/

namespace RemarkAtlas.Document

theorem ofTag_tag {kind : Kind} (open' : ∀ tag, kind = .other tag → tag ∉ Kind.reserved) :
    Kind.ofTag kind.tag = kind := by
  cases kind with
  | other tag =>
      have free := open' tag rfl
      simp only [Kind.reserved, List.mem_cons, List.not_mem_nil, or_false, not_or] at free
      simp [Kind.tag, Kind.ofTag, free]
  | _ => rfl

theorem readPassReference_written {positions : NameMap Nat} {passes : List Pass}
    (located : Locates positions (passes.map (·.id))) {members : Members} {header : Header}
    (bounded : ∀ index, header.pass = some index → index < passes.length)
    (found : members.get? "pass" = (passId? passes header).map .string) :
    readOptional (readPassReference positions) "pass" members = .ok header.pass := by
  cases named : header.pass with
  | none => exact readOptional_eq_ok.mpr (Or.inl ⟨by simpa [passId?, named] using found, rfl⟩)
  | some index =>
      have bound := bounded index named
      have isId : positions.get? passes[index].id = some index :=
        (located _ _).mpr (by simp [bound])
      refine readOptional_eq_ok.mpr (Or.inr ⟨.string passes[index].id, index, ?_, ?_, rfl⟩)
      · simpa [passId?, named, bound] using found
      · exact readPassReference_eq_ok.mpr ⟨_, rfl, isId⟩

theorem readHeader_written {positions : NameMap Nat} {passes : List Pass}
    (located : Locates positions (passes.map (·.id))) {members : Members} {header : Header}
    (bounded : ∀ index, header.pass = some index → index < passes.length)
    (kind : ∀ tag, header.kind = .other tag → tag ∉ Kind.reserved)
    (hasKind : members.get? "kind" = some (.string header.kind.tag))
    (hasPass : members.get? "pass" = (passId? passes header).map .string)
    (hasFunction : members.get? "function" = header.function.map .string) :
    readHeader positions members = .ok header := by
  refine readHeader_eq_ok.mpr ⟨⟨header.kind.tag, hasKind, (ofTag_tag kind).symm⟩,
    readPassReference_written located bounded hasPass, ?_⟩
  exact readOptional_written hasFunction fun text _ => rfl

theorem readsDetails_remarkMembers (options : Options) (passes : List Pass) (header : Header)
    (details : Details) (children : List Json) :
    ReadsDetails options (remarkMembers passes header details children) details where
  message := by
    have items : readEach (readItem options) (details.message.map writeItem) =
        .ok details.message :=
      readEach_map fun item _ => readItem_writeItem options item
    simp [readMessage, remarkMembers, items]
  inlining := by
    have found : Members.get? "inlining_chain" (remarkMembers passes header details children) =
        details.inlining.map writeInlining := by simp [remarkMembers]
    refine readOptional_written found ?_
    intro frames _
    have read : readEach readFrame (frames.map writeFrame) = .ok frames :=
      readEach_map fun frame _ => readFrame_writeFrame frame
    simp [writeInlining, read]
  emitter := readOptional_written (by simp [remarkMembers]) fun location _ =>
    readEmitter_writeEmitter location
  count := readOptional_written (by simp [remarkMembers]) fun count _ => readCount_writeCount count
  location := readOptional_written (by simp [remarkMembers]) fun location _ =>
    readLocation_writeLocation location

structure Writable (passes : List Pass) (record : Record) : Prop where
  wellFormed : record.WellFormed passes.length
  grouped : ∀ graph, record.graph? = some graph → graph.Grouped

theorem readRecord_snapshot (options : Options) {positions : NameMap Nat} {passes : List Pass}
    (located : Locates positions (passes.map (·.id))) {header : Header} {graph : Option FlowGraph}
    (writable : Writable passes (.snapshot header graph)) :
    readRecord options positions (writeRecord passes (.snapshot header graph)) =
      .ok (.snapshot header graph) := by
  have isState : header.kind = .state := writable.wellFormed.body.mp rfl
  refine readRecord_eq_ok.mpr ⟨_, header, rfl, ?_, Or.inl ⟨isState, graph, ?_, rfl⟩⟩
  · exact readHeader_written located writable.wellFormed.pass writable.wellFormed.kind
      (by simp [snapshotMembers]) (by simp [snapshotMembers]) (by simp [snapshotMembers])
  · have found : Members.get? "cfg" (snapshotMembers passes header graph) =
        graph.map writeGraph := by simp [snapshotMembers]
    refine readOptional_written found ?_
    intro content same
    exact readGraph_writeGraph (writable.wellFormed.graph content same)
      (writable.grouped content same)

theorem readRecord_remark (options : Options) {positions : NameMap Nat} {passes : List Pass}
    (located : Locates positions (passes.map (·.id))) {header : Header} {details : Details}
    {children : List Record}
    (writable : Writable passes (.remark header details children))
    (below : readRecords options positions (writeRecords passes children) = .ok children) :
    readRecord options positions (writeRecord passes (.remark header details children)) =
      .ok (.remark header details children) := by
  have notState : header.kind ≠ .state := by
    intro isState
    exact Bool.false_ne_true (writable.wellFormed.body.mpr isState)
  refine readRecord_eq_ok.mpr ⟨_, header, rfl, ?_, Or.inr ⟨notState, details, _, children,
    readsDetails_remarkMembers options passes header details _,
    Or.inl (by simp [remarkMembers]), below, rfl⟩⟩
  exact readHeader_written located writable.wellFormed.pass writable.wellFormed.kind
    (by simp [remarkMembers]) (by simp [remarkMembers]) (by simp [remarkMembers])

theorem readRecords_writeRecords (options : Options) {positions : NameMap Nat}
    {passes : List Pass} (located : Locates positions (passes.map (·.id))) {depth : Nat}
    {records : List Record}
    (writable : ∀ entry ∈ Record.flattenAll depth records, Writable passes entry.2) :
    readRecords options positions (writeRecords passes records) = .ok records := by
  induction records using Record.forestInduction generalizing depth with
  | nil => rfl
  | cons record rest ihBelow ihRest =>
      simp only [Record.flattenAll, Walk.flatten_eq, List.cons_append, List.forall_mem_cons,
        List.forall_mem_append] at writable
      obtain ⟨here, below, later⟩ := writable
      refine readRecords_cons_eq_ok.mpr ⟨record, rest, ?_, ihRest later, rfl⟩
      cases record with
      | remark header details children =>
          exact readRecord_remark options located here (ihBelow below)
      | snapshot header graph => exact readRecord_snapshot options located here

theorem readUnit_writeUnit {unit : CompilationUnit} (wellFormed : unit.WellFormed)
    (grouped : ∀ entry ∈ unit.allRecords, ∀ graph, entry.2.graph? = some graph → graph.Grouped)
    (unnamed : unit.filename = none) (options : Options) :
    readUnit options (writeUnit unit) = .ok unit := by
  obtain ⟨table, readsPasses, tablePasses⟩ := readPasses_written wellFormed.distinctIds
    wellFormed.preorder (show unit.passes = [] ++ unit.passes ++ [] by simp)
    (by simp [List.range_eq_range']) PassTable.located_empty rfl
  have samePasses : table.passes = unit.passes := by simpa [PassTable.empty] using tablePasses
  have located : Locates table.positions (unit.passes.map (·.id)) := by
    rw [← samePasses]
    exact readPasses_located PassTable.located_empty readsPasses
  have samePositions : table.positions = unit.positions := located.unique wellFormed.located
  refine readUnit_eq_ok.mpr ⟨_, _, _, _, table, rfl, by simp [scalarText?], by simp,
    readGenerator_writeGenerator unit.generator, readsPasses, ?_, samePasses, samePositions,
    unnamed⟩
  have writable : ∀ entry ∈ Record.flattenAll 0 unit.records, Writable unit.passes entry.2 := by
    rw [← CompilationUnit.allRecords_eq]
    intro entry member
    exact ⟨wellFormed.records entry member, grouped entry member⟩
  exact readRecords_writeRecords options located writable

theorem sampleUnit_grouped :
    ∀ entry ∈ sampleUnit.allRecords, ∀ graph, entry.2.graph? = some graph → graph.Grouped := by
  intro entry member graph isGraph
  simp only [CompilationUnit.allRecords_eq, sampleUnit, Record.flattenAll, Record.flatten,
    List.append_nil, List.cons_append, List.nil_append, List.mem_cons, List.not_mem_nil,
    or_false] at member
  rcases member with rfl | rfl | rfl
  · simp [Record.graph?] at isGraph
  · obtain rfl := Option.some.inj isGraph
    simp [FlowGraph.Grouped]
  · simp [Record.graph?] at isGraph

theorem sampleUnit_written_and_read :
    sampleUnit.WellFormed ∧
      (∀ entry ∈ sampleUnit.allRecords, ∀ graph, entry.2.graph? = some graph → graph.Grouped) ∧
      sampleUnit.filename = none ∧
      readUnit { nameAsSymbol := true } (writeUnit sampleUnit) = .ok sampleUnit :=
  ⟨readUnit_wellFormed readUnit_sampleDocument, sampleUnit_grouped, rfl,
    readUnit_writeUnit (readUnit_wellFormed readUnit_sampleDocument) sampleUnit_grouped rfl _⟩

end RemarkAtlas.Document
