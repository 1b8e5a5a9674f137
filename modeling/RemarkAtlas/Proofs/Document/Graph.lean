import RemarkAtlas.Document.Graph
import RemarkAtlas.Proofs.Document.Reading
import RemarkAtlas.Proofs.Unit.WellFormed

/-!
Reading control-flow graphs.  All blocks are known when the first edge is read, so an edge that is
read ends at a block of the graph.
-/

namespace RemarkAtlas.Document

theorem newBlockIndex_eq_ok {seen : List UInt64} {members : Members} {index : UInt64} :
    newBlockIndex seen members = .ok index ↔
      members.get? "index" = some (.natural index.toNat) ∧ index ∉ seen := by
  simp only [newBlockIndex, bind_eq_ok, required_eq_ok, demand_eq_ok, asUInt64?_eq_some]
  constructor
  · rintro ⟨value, written, other, rfl, fresh⟩
    split at fresh
    · simp at fresh
    · rename_i absent
      obtain rfl : other = index := by simpa using fresh
      exact ⟨written, by simpa using absent⟩
  · rintro ⟨written, fresh⟩
    exact ⟨_, written, index, rfl, by simp [fresh]⟩

theorem readBlock_eq_ok {seen : List UInt64} {value : Json} {block : Block} :
    readBlock seen value = .ok block ↔
      ∃ members : Members, value = .object members ∧ newBlockIndex seen members = .ok block.index ∧
        optionalNames .blockFlags "flags" members = .ok block.flags ∧
        block.statements = (members.get? "stmts").map statementsText := by
  simp only [readBlock, bind_eq_ok, object_eq_ok, pure_eq_ok, Except.ok.injEq]
  constructor
  · rintro ⟨members, isObject, index, newIndex, flags, areFlags, rfl⟩
    exact ⟨members, isObject, newIndex, areFlags, rfl⟩
  · rintro ⟨members, isObject, newIndex, areFlags, statements⟩
    exact ⟨members, isObject, _, newIndex, _, areFlags, by rw [← statements]⟩

theorem readBlocks_cons_eq_ok {seen : List UInt64} {value : Json} {rest : List Json}
    {blocks : List Block} :
    readBlocks seen (value :: rest) = .ok blocks ↔
      ∃ block others, readBlock seen value = .ok block ∧
        readBlocks (seen ++ [block.index]) rest = .ok others ∧ block :: others = blocks := by
  simp [readBlocks]

theorem readBlocks_length {values : List Json} {seen : List UInt64} {blocks : List Block}
    (read : readBlocks seen values = .ok blocks) : blocks.length = values.length := by
  induction values generalizing seen blocks with
  | nil =>
      simp only [readBlocks, Except.ok.injEq] at read
      simp [← read]
  | cons value rest ih =>
      obtain ⟨block, others, _, readOthers, rfl⟩ := readBlocks_cons_eq_ok.mp read
      simp [ih readOthers]

/-- Block indices differ from one another and from those that were there before. -/
theorem readBlocks_distinct {values : List Json} {seen : List UInt64} {blocks : List Block}
    (distinct : seen.Nodup) (read : readBlocks seen values = .ok blocks) :
    (seen ++ blocks.map (·.index)).Nodup := by
  induction values generalizing seen blocks with
  | nil =>
      simp only [readBlocks, Except.ok.injEq] at read
      simpa [← read] using distinct
  | cons value rest ih =>
      obtain ⟨block, others, readFirst, readOthers, rfl⟩ := readBlocks_cons_eq_ok.mp read
      obtain ⟨members, _, newIndex, _, _⟩ := readBlock_eq_ok.mp readFirst
      have fresh := (newBlockIndex_eq_ok.mp newIndex).2
      have longer : (seen ++ [block.index]).Nodup := by
        refine List.nodup_append.mpr ⟨distinct, by simp, ?_⟩
        intro index member other isNew same
        obtain rfl : other = block.index := by simpa using isNew
        exact fresh (same ▸ member)
      simpa using ih longer readOthers

theorem positionOf?_eq_some {indices : List UInt64} {index : UInt64} {position : Nat}
    (found : positionOf? indices index = some position) : indices[position]? = some index := by
  obtain ⟨bound, same, _⟩ := List.findIdx?_eq_some_iff_getElem.mp found
  rw [List.getElem?_eq_getElem bound]
  simpa using same

theorem readEdge_eq_ok {indices : List UInt64} {source : Nat} {index : UInt64} {value : Json}
    {edge : Edge} :
    readEdge indices source index value = .ok edge ↔
      edge.source = source ∧
        ∃ (members : Members) (target : UInt64), value = .object members ∧
          members.get? "dest" = some (.natural target.toNat) ∧
          positionOf? indices target = some edge.target ∧
          optionalNames .edgeFlags "flags" members = .ok edge.flags := by
  simp only [readEdge, bind_eq_ok, object_eq_ok, required_eq_ok, demand_eq_ok, asUInt64?_eq_some]
  constructor
  · rintro ⟨members, isObject, _, isWritten, target, rfl, result⟩
    split at result
    · simp at result
    · rename_i position found
      simp only [bind_eq_ok, pure_eq_ok, Except.ok.injEq] at result
      obtain ⟨flags, areFlags, rfl⟩ := result
      exact ⟨rfl, members, target, isObject, isWritten, found, areFlags⟩
  · rintro ⟨rfl, members, target, isObject, isWritten, found, areFlags⟩
    refine ⟨members, isObject, _, isWritten, target, rfl, ?_⟩
    simp [found, areFlags]

theorem readSuccessors_eq (indices : List UInt64) (source : Nat) (index : UInt64)
    (members : Members) :
    readSuccessors indices source index members =
      listed .successors "succs" members >>= readEach (readEdge indices source index) := by
  cases found : members.get? "succs" with
  | none => simp [readSuccessors, listed, found]; rfl
  | some value => simp [readSuccessors, listed, found]

theorem readEdges_cons_eq_ok {indices : List UInt64} {source : Nat} {index : UInt64}
    {value : Json} {rest : List (UInt64 × Json)} {edges : List Edge} :
    readEdges indices source ((index, value) :: rest) = .ok edges ↔
      ∃ members items first others, value = .object members ∧ Lists members "succs" items ∧
        readEach (readEdge indices source index) items = .ok first ∧
        readEdges indices (source + 1) rest = .ok others ∧ first ++ others = edges := by
  simp only [readEdges, readSuccessors_eq, bind_eq_ok, object_eq_ok, listed_eq_ok, pure_eq_ok,
    Except.ok.injEq]
  constructor
  · rintro ⟨members, isObject, first, ⟨items, lists, readItems⟩, others, readOthers, same⟩
    exact ⟨members, items, first, others, isObject, lists, readItems, readOthers, same⟩
  · rintro ⟨members, items, first, others, isObject, lists, readItems, readOthers, same⟩
    exact ⟨members, isObject, first, ⟨items, lists, readItems⟩, others, readOthers, same⟩

theorem readEdges_bounded {values : List (UInt64 × Json)} {indices : List UInt64} {source : Nat}
    {edges : List Edge} (read : readEdges indices source values = .ok edges) :
    ∀ edge ∈ edges, edge.source < source + values.length ∧ edge.target < indices.length := by
  induction values generalizing source edges with
  | nil =>
      simp only [readEdges, Except.ok.injEq] at read
      simp [← read]
  | cons entry rest ih =>
      obtain ⟨members, items, first, others, _, _, readItems, readOthers, rfl⟩ :=
        readEdges_cons_eq_ok.mp read
      intro edge member
      rw [List.length_cons]
      rcases List.mem_append.mp member with here | later
      · obtain ⟨item, _, readItem⟩ := mem_of_readEach readItems edge here
        obtain ⟨rfl, _, _, _, _, found, _⟩ := readEdge_eq_ok.mp readItem
        exact ⟨by omega, (List.getElem?_eq_some_iff.mp (positionOf?_eq_some found)).1⟩
      · have bound := ih readOthers edge later
        exact ⟨by omega, bound.2⟩

theorem readGraph_eq_ok {value : Json} {graph : FlowGraph} :
    readGraph value = .ok graph ↔
      ∃ values, value = .array values ∧ readBlocks [] values = .ok graph.blocks ∧
        readEdges (graph.blocks.map (·.index)) 0 ((graph.blocks.map (·.index)).zip values) =
          .ok graph.edges := by
  simp only [readGraph, bind_eq_ok, array_eq_ok, pure_eq_ok, Except.ok.injEq]
  constructor
  · rintro ⟨values, isArray, blocks, readBlocks, edges, readEdges, rfl⟩
    exact ⟨values, isArray, readBlocks, readEdges⟩
  · rintro ⟨values, isArray, readBlocks, readEdges⟩
    exact ⟨values, isArray, _, readBlocks, _, readEdges, rfl⟩

theorem readGraph_wellFormed {value : Json} {graph : FlowGraph}
    (read : readGraph value = .ok graph) : graph.WellFormed := by
  obtain ⟨values, _, blocks, edges⟩ := readGraph_eq_ok.mp read
  have sameLength := readBlocks_length blocks
  refine ⟨by simpa using readBlocks_distinct List.nodup_nil blocks, ?_⟩
  intro edge member
  simpa [sameLength] using readEdges_bounded edges edge member

end RemarkAtlas.Document
