import RemarkAtlas.Proofs.Document.FieldRoundTrip
import RemarkAtlas.Proofs.Document.Graph

/-!
Reading gives back a control-flow graph that was written, if its edges are listed by their sources.
-/

namespace RemarkAtlas

def FlowGraph.Grouped (graph : FlowGraph) : Prop :=
  graph.edges.Pairwise fun left right => left.source ≤ right.source

namespace Document

theorem filter_leaving_append {edges : List Edge} {source : Nat}
    (grouped : edges.Pairwise fun left right => left.source ≤ right.source)
    (lower : ∀ edge ∈ edges, source ≤ edge.source) :
    (edges.filter fun edge => edge.source == source) ++
      (edges.filter fun edge => decide (source < edge.source)) = edges := by
  induction edges with
  | nil => rfl
  | cons edge rest ih =>
      obtain ⟨above, restGrouped⟩ := List.pairwise_cons.mp grouped
      by_cases here : edge.source = source
      · have others := ih restGrouped fun other member => lower other (by simp [member])
        simp [here, others]
      · have later : source < edge.source := by
          have bound := lower edge (by simp)
          omega
        have noneHere : (edge :: rest).filter (fun edge => edge.source == source) = [] := by
          refine List.filter_eq_nil_iff.mpr ?_
          intro other member
          have bound : edge.source ≤ other.source := by
            rcases List.mem_cons.mp member with rfl | inside
            · exact Nat.le_refl _
            · exact above other inside
          simp only [beq_iff_eq]
          omega
        have allLater : (edge :: rest).filter (fun edge => decide (source < edge.source)) =
            edge :: rest := by
          refine List.filter_eq_self.mpr ?_
          intro other member
          rcases List.mem_cons.mp member with rfl | inside
          · simpa using later
          · have bound := above other inside
            simp only [decide_eq_true_eq]
            omega
        rw [noneHere, allLater, List.nil_append]

/-- Listing the edges block by block gives them back in their order. -/
theorem flatMap_leaving {edges : List Edge} {start count : Nat}
    (grouped : edges.Pairwise fun left right => left.source ≤ right.source)
    (lower : ∀ edge ∈ edges, start ≤ edge.source)
    (upper : ∀ edge ∈ edges, edge.source < start + count) :
    (List.range' start count).flatMap
      (fun source => edges.filter fun edge => edge.source == source) = edges := by
  induction count generalizing start edges with
  | zero =>
      have empty : edges = [] := by
        refine List.eq_nil_iff_forall_not_mem.mpr ?_
        intro edge member
        have least := lower edge member
        have greatest := upper edge member
        omega
      simp [empty]
  | succ count ih =>
      obtain ⟨later, isLater⟩ : ∃ later, later = edges.filter fun edge =>
        decide (start < edge.source) := ⟨_, rfl⟩
      have laterLower : ∀ edge ∈ later, start + 1 ≤ edge.source := by
        intro edge member
        rw [isLater] at member
        exact Nat.succ_le_of_lt (by simpa using (List.mem_filter.mp member).2)
      have laterUpper : ∀ edge ∈ later, edge.source < start + 1 + count := by
        intro edge member
        rw [isLater] at member
        have bound := upper edge (List.mem_filter.mp member).1
        omega
      have laterListed : (List.range' (start + 1) count).flatMap
          (fun source => edges.filter fun edge => edge.source == source) = later := by
        refine Eq.trans ?_ (ih (isLater ▸ grouped.filter _) laterLower laterUpper)
        refine List.flatMap_congr ?_
        intro source member
        have bound := (List.mem_range'_1.mp member).1
        rw [isLater, List.filter_filter]
        refine List.filter_congr ?_
        intro edge _
        by_cases here : edge.source = source
        · simp [here, show start < source by omega]
        · simp [here]
      rw [List.range'_succ, List.flatMap_cons, laterListed, isLater]
      exact filter_leaving_append grouped lower

theorem positionOf?_of_nodup {indices : List UInt64} {index : UInt64} {position : Nat}
    (distinct : indices.Nodup) (found : indices[position]? = some index) :
    positionOf? indices index = some position := by
  obtain ⟨bound, same⟩ := List.getElem?_eq_some_iff.mp found
  refine List.findIdx?_eq_some_iff_getElem.mpr ⟨bound, by simp [same], ?_⟩
  intro other before equal
  have sameIndex : indices[other] = indices[position] := by simpa [same] using equal
  have samePosition := (List.Nodup.getElem_inj_iff distinct).mp sameIndex
  omega

theorem readEdge_writeEdge {graph : FlowGraph} (wellFormed : graph.WellFormed) {edge : Edge}
    (member : edge ∈ graph.edges) (index : UInt64) :
    readEdge (graph.blocks.map (·.index)) edge.source index (writeEdge graph edge) = .ok edge := by
  have bound := (wellFormed.bounded edge member).2
  have isTarget : graph.blocks[edge.target]? = some graph.blocks[edge.target] :=
    List.getElem?_eq_getElem bound
  have position : positionOf? (graph.blocks.map (·.index)) graph.blocks[edge.target].index =
      some edge.target :=
    positionOf?_of_nodup wellFormed.distinct (by simp [bound])
  refine readEdge_eq_ok.mpr ⟨rfl, _, graph.blocks[edge.target].index, rfl, by simp [isTarget],
    position, ?_⟩
  exact optionalNames_written (by simp)

theorem readBlock_writeBlock {seen : List UInt64} (graph : FlowGraph) {block : Block}
    (position : Nat) (fresh : block.index ∉ seen) :
    readBlock seen (writeBlock graph block position) = .ok block := by
  refine readBlock_eq_ok.mpr ⟨_, rfl, ?_, ?_, ?_⟩
  · exact newBlockIndex_eq_ok.mpr ⟨by simp, fresh⟩
  · exact optionalNames_written (by simp)
  · cases statements : block.statements <;> simp [optionalMember, statementsText]

theorem readBlocks_written (graph : FlowGraph) {blocks : List Block} {seen : List UInt64}
    {start : Nat} (distinct : (seen ++ blocks.map (·.index)).Nodup) :
    readBlocks seen ((blocks.zipIdx start).map fun (block, position) =>
      writeBlock graph block position) = .ok blocks := by
  induction blocks generalizing seen start with
  | nil => rfl
  | cons block rest ih =>
      have fresh : block.index ∉ seen := by
        intro member
        exact (List.nodup_append.mp distinct).2.2 _ member _ (by simp) rfl
      refine readBlocks_cons_eq_ok.mpr
        ⟨block, rest, readBlock_writeBlock graph start fresh, ?_, rfl⟩
      exact ih (by simpa using distinct)

theorem readSuccessors_written {graph : FlowGraph} (wellFormed : graph.WellFormed)
    (position : Nat) (index : UInt64) :
    readEach (readEdge (graph.blocks.map (·.index)) position index)
      ((graph.leaving position).map (writeEdge graph)) = .ok (graph.leaving position) := by
  refine readEach_map ?_
  intro edge member
  obtain ⟨inGraph, isSource⟩ := List.mem_filter.mp member
  have same : edge.source = position := by simpa using isSource
  exact same ▸ readEdge_writeEdge wellFormed inGraph index

theorem readEdges_written {graph : FlowGraph} (wellFormed : graph.WellFormed)
    (blocks : List Block) (start : Nat) :
    readEdges (graph.blocks.map (·.index)) start
      ((blocks.zipIdx start).map fun (block, position) =>
        (block.index, writeBlock graph block position)) =
      .ok ((List.range' start blocks.length).flatMap graph.leaving) := by
  induction blocks generalizing start with
  | nil => rfl
  | cons block rest ih =>
      have lists : Lists ([("flags", writeNames block.flags),
          ("index", .natural block.index.toNat)] ++
            optionalMember "stmts" .string block.statements ++
              [("succs", .array ((graph.leaving start).map (writeEdge graph)))]) "succs"
          ((graph.leaving start).map (writeEdge graph)) := Or.inl (by simp)
      exact readEdges_cons_eq_ok.mpr ⟨_, _, _, _, rfl, lists,
        readSuccessors_written wellFormed start block.index, ih (start + 1), rfl⟩

theorem zip_writtenBlocks (graph : FlowGraph) :
    (graph.blocks.map (·.index)).zip (graph.blocks.zipIdx.map fun (block, position) =>
      writeBlock graph block position) =
      graph.blocks.zipIdx.map fun (block, position) =>
        (block.index, writeBlock graph block position) := by
  have indices : graph.blocks.map (·.index) = graph.blocks.zipIdx.map fun (block, _) => block.index :=
    calc
      graph.blocks.map (·.index) = (graph.blocks.zipIdx.map Prod.fst).map (·.index) := by
        rw [List.zipIdx_map_fst]
      _ = graph.blocks.zipIdx.map fun (block, _) => block.index := by
        rw [List.map_map]
        rfl
  rw [indices, List.zip_map']

theorem readGraph_writeGraph {graph : FlowGraph} (wellFormed : graph.WellFormed)
    (grouped : graph.Grouped) : readGraph (writeGraph graph) = .ok graph := by
  refine readGraph_eq_ok.mpr
    ⟨_, rfl, readBlocks_written graph (by simpa using wellFormed.distinct), ?_⟩
  have listed : (List.range' 0 graph.blocks.length).flatMap graph.leaving = graph.edges := by
    refine flatMap_leaving grouped (fun edge _ => Nat.zero_le _) ?_
    intro edge member
    simpa using (wellFormed.bounded edge member).1
  rw [zip_writtenBlocks, readEdges_written wellFormed, listed]

end Document

end RemarkAtlas
