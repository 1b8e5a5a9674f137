import RemarkAtlas.Corpus.NoiseFilter
import RemarkAtlas.Proofs.Record.Flatten
import RemarkAtlas.Proofs.Unit.PassForest

/-!
Well-formed units.  In such a unit every position that is kept leads to a pass or a block, so no
look-up by position fails, and leaving out records keeps the unit well-formed.
-/

namespace RemarkAtlas

structure FlowGraph.WellFormed (graph : FlowGraph) : Prop where
  distinct : (graph.blocks.map (·.index)).Nodup
  bounded : ∀ edge ∈ graph.edges,
    edge.source < graph.blocks.length ∧ edge.target < graph.blocks.length

def Kind.reserved : List String := ["success", "failure", "note", "scope", "state"]

structure Record.WellFormed (passCount : Nat) (record : Record) : Prop where
  pass : ∀ index, record.pass? = some index → index < passCount
  body : record.isSnapshot = true ↔ record.kind = .state
  kind : ∀ tag, record.kind = .other tag → tag ∉ Kind.reserved
  graph : ∀ graph, record.graph? = some graph → graph.WellFormed

namespace CompilationUnit

structure WellFormed (unit : CompilationUnit) : Prop where
  distinctIds : (unit.passes.map (·.id)).Nodup
  located : Locates unit.positions (unit.passes.map (·.id))
  preorder : Visits unit.passes unit.rootPasses (List.range unit.passes.length)
  records : ∀ entry ∈ unit.allRecords, entry.2.WellFormed unit.passes.length

/-- Every look-up by position finds something, so the views of a unit leave nothing out. -/
structure InBounds (unit : CompilationUnit) : Prop where
  topPasses : unit.rootPasses.map unit.pass? = unit.topPasses.map some
  subPasses : ∀ pass ∈ unit.passes, pass.children.map unit.pass? = (unit.subPasses pass).map some
  passById : ∀ id index, unit.positions.get? id = some index →
    ∃ pass, unit.pass? index = some pass ∧ unit.passById? id = some pass
  passOf : ∀ entry ∈ unit.allRecords, ∀ index, entry.2.pass? = some index →
    ∃ pass, unit.pass? index = some pass ∧ unit.passOf? entry.2 = some pass
  successors : ∀ entry ∈ unit.allRecords, ∀ graph, entry.2.graph? = some graph → ∀ source,
    (graph.leaving source).map (fun edge => graph.blocks[edge.target]?) =
      (graph.successors source).map some

end CompilationUnit

theorem map_eq_map_some_filterMap {α β : Type} {items : List α} {select : α → Option β}
    (found : ∀ item ∈ items, (select item).isSome) :
    items.map select = (items.filterMap select).map some := by
  induction items with
  | nil => rfl
  | cons item rest ih =>
      obtain ⟨value, isValue⟩ := Option.isSome_iff_exists.mp (found item (by simp))
      have restFound := ih fun other member => found other (by simp [member])
      simp [isValue, restFound]

theorem FlowGraph.WellFormed.successors {graph : FlowGraph} (wellFormed : graph.WellFormed)
    (source : Nat) :
    (graph.leaving source).map (fun edge => graph.blocks[edge.target]?) =
      (graph.successors source).map some := by
  refine map_eq_map_some_filterMap ?_
  intro edge member
  have bound := (wellFormed.bounded edge (List.mem_of_mem_filter member)).2
  simpa using bound

namespace CompilationUnit.WellFormed

variable {unit : CompilationUnit}

theorem pass?_isSome {index : Nat} (bound : index < unit.passes.length) :
    (unit.pass? index).isSome := by
  simpa [CompilationUnit.pass?] using bound

theorem inBounds (wellFormed : unit.WellFormed) : unit.InBounds where
  topPasses := by
    refine map_eq_map_some_filterMap ?_
    intro index member
    exact pass?_isSome (List.mem_range.mp (wellFormed.preorder.roots_subset member))
  subPasses := by
    intro pass member
    refine map_eq_map_some_filterMap ?_
    intro child isChild
    obtain ⟨index, found⟩ := List.mem_iff_getElem?.mp member
    have met : index ∈ List.range unit.passes.length :=
      List.mem_range.mpr (List.getElem?_eq_some_iff.mp found).1
    exact pass?_isSome
      (List.mem_range.mp (wellFormed.preorder.children_subset met found isChild))
  passById := by
    intro id index found
    have bound : index < unit.passes.length := by simpa using wellFormed.located.lt_length found
    obtain ⟨pass, isPass⟩ := Option.isSome_iff_exists.mp (pass?_isSome bound)
    exact ⟨pass, isPass, by simp [passById?, found, isPass]⟩
  passOf := by
    intro entry member index named
    have bound := (wellFormed.records entry member).pass index named
    obtain ⟨pass, isPass⟩ := Option.isSome_iff_exists.mp (pass?_isSome bound)
    exact ⟨pass, isPass, by simp [passOf?, named, isPass]⟩
  successors := by
    intro entry member graph isGraph source
    exact ((wellFormed.records entry member).graph graph isGraph).successors source

theorem retain (wellFormed : unit.WellFormed) (keep : Record → Bool) :
    (unit.retain keep).WellFormed where
  distinctIds := wellFormed.distinctIds
  located := wellFormed.located
  preorder := wellFormed.preorder
  records := by
    intro entry member
    refine wellFormed.records entry ?_
    rw [allRecords_eq, Record.mem_flattenAll] at member ⊢
    obtain ⟨record, kept, inside⟩ := member
    exact ⟨record, List.mem_of_mem_filter kept, inside⟩

theorem filtered (wellFormed : unit.WellFormed) (filters : List NoiseFilter) :
    (filters.foldl (fun unit filter => filter.apply unit) unit).WellFormed := by
  induction filters generalizing unit with
  | nil => exact wellFormed
  | cons filter rest ih => exact ih (wellFormed.retain _)

end CompilationUnit.WellFormed

end RemarkAtlas
