import Mathlib.Data.List.Nodup
import RemarkAtlas.Proofs.Document.Acceptance

/-!
What the array of a control-flow graph declares.  Its entries name other blocks by their indices,
the graph by their positions: both list the same successors, in the same order and with the same
flags.  An array with a name that no block has is refused for the first such name.
-/

namespace RemarkAtlas

structure Successor where
  target : UInt64
  flags : NameSet
  deriving DecidableEq

structure BlockEntry where
  block : Block
  successors : List Successor

namespace BlockEntry

def indices (entries : List BlockEntry) : List UInt64 := entries.map (·.block.index)

def successorsAt (entries : List BlockEntry) (position : Nat) : List Successor :=
  (entries[position]?.map (·.successors)).getD []

def links (entries : List BlockEntry) : List (UInt64 × UInt64) :=
  entries.flatMap fun entry => entry.successors.map fun successor =>
    (entry.block.index, successor.target)

theorem mem_links {entries : List BlockEntry} {link : UInt64 × UInt64} :
    link ∈ links entries ↔ ∃ entry ∈ entries, ∃ successor ∈ entry.successors,
      (entry.block.index, successor.target) = link := by
  simp only [links, List.mem_flatMap, List.mem_map]

theorem link_of_mem_successorsAt {entries : List BlockEntry} {position : Nat}
    {successor : Successor} (member : successor ∈ successorsAt entries position) :
    ∃ index, (index, successor.target) ∈ links entries := by
  rw [successorsAt] at member
  cases found : entries[position]? with
  | none =>
      rw [found] at member
      exact absurd member List.not_mem_nil
  | some entry =>
      rw [found] at member
      exact ⟨entry.block.index, mem_links.mpr
        ⟨entry, List.mem_of_getElem? found, successor, member, rfl⟩⟩

def firstUndefined? (entries : List BlockEntry) : Option (UInt64 × UInt64) :=
  (links entries).find? fun link => link.2 ∉ indices entries

theorem exists_firstUndefined? {entries : List BlockEntry} :
    (∃ link, firstUndefined? entries = some link) ↔ ∃ entry ∈ entries,
      ∃ successor ∈ entry.successors, successor.target ∉ indices entries := by
  simp only [← Option.isSome_iff_exists, firstUndefined?, List.find?_isSome, mem_links,
    decide_eq_true_eq]
  constructor
  · rintro ⟨link, ⟨entry, isEntry, successor, declared, rfl⟩, missing⟩
    exact ⟨entry, isEntry, successor, declared, missing⟩
  · rintro ⟨entry, isEntry, successor, declared, missing⟩
    exact ⟨_, ⟨entry, isEntry, successor, declared, rfl⟩, missing⟩

end BlockEntry

namespace FlowGraph

def declared? (graph : FlowGraph) (edge : Edge) : Option Successor :=
  graph.blocks[edge.target]?.map fun block => ⟨block.index, edge.flags⟩

/-- The graph has the blocks of the entries and their links, and no others. -/
structure Realizes (graph : FlowGraph) (entries : List BlockEntry) : Prop where
  blocks : graph.blocks = entries.map (·.block)
  distinct : (graph.blocks.map (·.index)).Nodup
  sources : ∀ edge ∈ graph.edges, edge.source < graph.blocks.length
  edges : ∀ position, (graph.leaving position).map graph.declared? =
    (BlockEntry.successorsAt entries position).map some
  successors : ∀ position, (graph.successors position).map (·.index) =
    (BlockEntry.successorsAt entries position).map (·.target)
  byIndex : ∀ index block, graph.blockByIndex? index = some block ↔
    block ∈ graph.blocks ∧ block.index = index

theorem blockByIndex?_eq_some {graph : FlowGraph} (distinct : (graph.blocks.map (·.index)).Nodup)
    (index : UInt64) (block : Block) :
    graph.blockByIndex? index = some block ↔ block ∈ graph.blocks ∧ block.index = index := by
  constructor
  · intro found
    exact ⟨List.mem_of_find?_eq_some found, by simpa using List.find?_some found⟩
  · rintro ⟨member, isIndex⟩
    have isFound : (graph.blockByIndex? index).isSome = true :=
      List.find?_isSome.mpr ⟨block, member, beq_iff_eq.mpr isIndex⟩
    obtain ⟨other, found⟩ := Option.isSome_iff_exists.mp isFound
    have otherIndex : other.index = index := by simpa using List.find?_some found
    have same : other = block :=
      List.inj_on_of_nodup_map distinct (List.mem_of_find?_eq_some found) member
        (otherIndex.trans isIndex.symm)
    exact same ▸ found

theorem map_index_successors {graph : FlowGraph} {position : Nat} {declared : List Successor}
    (edges : (graph.leaving position).map graph.declared? = declared.map some) :
    (graph.successors position).map (·.index) = declared.map (·.target) := by
  have known : (graph.leaving position).filterMap graph.declared? = declared := by
    have kept := congrArg (List.filterMap id) edges
    simpa [List.filterMap_map] using kept
  rw [← known, successors, List.map_filterMap, List.map_filterMap]
  simp [declared?, Function.comp_def]

end FlowGraph

namespace Document

open BlockEntry (links successorsAt firstUndefined?)

variable {indices : List UInt64}

def HasNames (members : Members) (key : String) (names : NameSet) : Prop :=
  (Lacks members key ∧ names = .empty) ∨
    ∃ texts, members.get? key = some (.array (texts.map .string)) ∧ names = .ofList texts

def DeclaresSuccessor (value : Json) (successor : Successor) : Prop :=
  ∃ members : Members, value = .object members ∧
    members.get? "dest" = some (.natural successor.target.toNat) ∧
    HasNames members "flags" successor.flags

def DeclaresBlock (value : Json) (entry : BlockEntry) : Prop :=
  ∃ (members : Members) (items : List Json), value = .object members ∧
    members.get? "index" = some (.natural entry.block.index.toNat) ∧
    HasNames members "flags" entry.block.flags ∧
    entry.block.statements = (members.get? "stmts").map statementsText ∧
    Lists members "succs" items ∧ List.Forall₂ DeclaresSuccessor items entry.successors

theorem readTexts_eq_ok {part : DocumentPart} {items : List Json} {texts : List String} :
    readEach (fun item => demand (.notStrings part) item.asText?) items = .ok texts ↔
      items = texts.map .string := by
  induction items generalizing texts with
  | nil => cases texts <;> simp [readEach]
  | cons item rest ih =>
      simp only [readEach_cons_eq_ok, demand_eq_ok, asText?_eq_some, ih]
      cases texts <;> simp

theorem optionalNames_eq_ok {part : DocumentPart} {key : String} {members : Members}
    {set : NameSet} :
    optionalNames part key members = .ok set ↔ HasNames members key set := by
  simp only [optionalNames, HasNames, Lacks, bind_eq_ok, pure_eq_ok, Except.ok.injEq,
    readOptional_eq_ok, names, array_eq_ok, readTexts_eq_ok]
  constructor
  · rintro ⟨read, ⟨absent, rfl⟩ | ⟨value, set, found, ⟨items, rfl, texts, rfl, rfl⟩, rfl⟩, rfl⟩
    · exact Or.inl ⟨absent, rfl⟩
    · exact Or.inr ⟨texts, found, rfl⟩
  · rintro (⟨absent, rfl⟩ | ⟨texts, found, rfl⟩)
    · exact ⟨none, Or.inl ⟨absent, rfl⟩, rfl⟩
    · exact ⟨_, Or.inr ⟨_, _, found, ⟨_, rfl, texts, rfl, rfl⟩, rfl⟩, rfl⟩

/-- The result, unless a link leads to an index that is not there; the fault names the first one. -/
def unlessUndefined {α : Type} (indices : List UInt64) (links : List (UInt64 × UInt64))
    (result : α) : Reading α :=
  match links.find? fun link => link.2 ∉ indices with
  | some link => .error (.undefinedBlock link.1 link.2)
  | none => .ok result

section Links

variable {α β : Type}

theorem ok_bind (value : α) (next : α → Reading β) :
    ((.ok value : Reading α) >>= next) = next value := rfl

theorem unlessUndefined_bind (first second : List (UInt64 × UInt64)) (result : α) (next : α → β) :
    (unlessUndefined indices first result >>= fun value =>
      unlessUndefined indices second (next value)) =
        unlessUndefined indices (first ++ second) (next result) := by
  rw [unlessUndefined, unlessUndefined, List.find?_append]
  cases first.find? fun link => link.2 ∉ indices with
  | none => rfl
  | some link => rfl

theorem unlessUndefined_map (links : List (UInt64 × UInt64)) (result : α) (next : α → β) :
    (unlessUndefined indices links result >>= fun value => pure (next value)) =
      unlessUndefined indices links (next result) := by
  rw [unlessUndefined, unlessUndefined]
  cases links.find? fun link => link.2 ∉ indices with
  | none => rfl
  | some link => rfl

theorem unlessUndefined_eq_ok {links : List (UInt64 × UInt64)} {result other : α} :
    unlessUndefined indices links result = .ok other ↔
      (∀ link ∈ links, link.2 ∈ indices) ∧ result = other := by
  rw [unlessUndefined]
  cases found : links.find? fun link => link.2 ∉ indices with
  | none =>
      have all : ∀ link ∈ links, link.2 ∈ indices := by simpa using found
      exact ⟨fun same => ⟨all, Except.ok.inj same⟩, fun same => congrArg Except.ok same.2⟩
  | some link =>
      have missing : link.2 ∉ indices := by simpa using List.find?_some found
      refine ⟨fun failed => (nomatch failed), fun same => ?_⟩
      exact absurd (same.1 link (List.mem_of_find?_eq_some found)) missing

theorem unlessUndefined_eq_error {links : List (UInt64 × UInt64)} {result : α}
    {fault : DocumentFault} :
    unlessUndefined indices links result = .error fault ↔
      ∃ link, (links.find? fun link => link.2 ∉ indices) = some link ∧
        fault = .undefinedBlock link.1 link.2 := by
  rw [unlessUndefined]
  cases links.find? fun link => link.2 ∉ indices with
  | none => simp
  | some link => simp [eq_comm]

end Links

theorem positionOf?_eq (index : UInt64) :
    positionOf? indices index = if index ∈ indices then some (indices.idxOf index) else none := by
  rw [positionOf?, List.findIdx?_eq_guard_findIdx_lt, ← List.idxOf, Option.guard]
  simp only [List.idxOf_lt_length_iff, decide_eq_true_eq]

def edgeTo (indices : List UInt64) (source : Nat) (successor : Successor) : Edge :=
  ⟨source, indices.idxOf successor.target, successor.flags⟩

def edgesFrom (indices : List UInt64) : Nat → List BlockEntry → List Edge
  | _, [] => []
  | source, entry :: rest =>
    entry.successors.map (edgeTo indices source) ++ edgesFrom indices (source + 1) rest

theorem source_mem_edgesFrom {entries : List BlockEntry} {start : Nat} {edge : Edge}
    (member : edge ∈ edgesFrom indices start entries) :
    start ≤ edge.source ∧ edge.source < start + entries.length := by
  induction entries generalizing start with
  | nil => exact absurd member List.not_mem_nil
  | cons entry rest ih =>
      rw [List.length_cons]
      rcases List.mem_append.mp member with here | later
      · obtain ⟨successor, _, rfl⟩ := List.mem_map.mp here
        exact ⟨Nat.le_refl start, Nat.lt_add_of_pos_right (Nat.succ_pos _)⟩
      · have bounds := ih later
        omega

theorem readEdge_declared {value : Json} {successor : Successor}
    (declares : DeclaresSuccessor value successor) (source : Nat) (index : UInt64) :
    readEdge indices source index value =
      unlessUndefined indices [(index, successor.target)] (edgeTo indices source successor) := by
  obtain ⟨members, rfl, found, flags⟩ := declares
  have isTarget : (Json.natural successor.target.toNat).asUInt64? = some successor.target :=
    asUInt64?_eq_some.mpr rfl
  rw [readEdge, object, ok_bind, required_eq_ok.mpr found, ok_bind, isTarget, demand, ok_bind,
    positionOf?_eq, optionalNames_eq_ok.mpr flags, unlessUndefined]
  by_cases known : successor.target ∈ indices
  · simp [known, ok_bind, edgeTo]
  · simp [known]

theorem readEach_declared {items : List Json} {successors : List Successor}
    (declares : List.Forall₂ DeclaresSuccessor items successors) (source : Nat) (index : UInt64) :
    readEach (readEdge indices source index) items =
      unlessUndefined indices (successors.map fun successor => (index, successor.target))
        (successors.map (edgeTo indices source)) := by
  induction declares with
  | nil => rfl
  | @cons item successor rest others first _ ih =>
      -- Nothing but an undefined name can fail here, so the first fault is the first such name.
      rw [readEach, readEdge_declared first, ih]
      simp only [unlessUndefined_map]
      rw [unlessUndefined_bind _ _ _ fun edge => edge :: others.map (edgeTo indices source)]
      rfl

theorem readEdges_declared {values : List Json} {entries : List BlockEntry}
    (declares : List.Forall₂ DeclaresBlock values entries) (source : Nat) :
    readEdges indices source ((BlockEntry.indices entries).zip values) =
      unlessUndefined indices (links entries) (edgesFrom indices source entries) := by
  induction declares generalizing source with
  | nil => rfl
  | @cons value entry rest others first _ ih =>
      obtain ⟨members, items, rfl, _, _, _, lists, successors⟩ := first
      rw [BlockEntry.indices, List.map_cons, List.zip_cons_cons, readEdges, object, ok_bind,
        readSuccessors_eq, listed_eq_ok.mpr lists, ok_bind, readEach_declared successors,
        ← BlockEntry.indices, ih]
      simp only [unlessUndefined_map]
      rw [unlessUndefined_bind _ _ _ fun edges => edges ++ edgesFrom indices (source + 1) others]
      rfl

theorem readBlocks_declared {values : List Json} {entries : List BlockEntry} {seen : List UInt64}
    (declares : List.Forall₂ DeclaresBlock values entries)
    (distinct : (seen ++ BlockEntry.indices entries).Nodup) :
    readBlocks seen values = .ok (entries.map (·.block)) := by
  induction declares generalizing seen with
  | nil => rfl
  | @cons value entry rest others first _ ih =>
      obtain ⟨members, items, isObject, found, flags, statements, _, _⟩ := first
      have fresh : entry.block.index ∉ seen := fun member =>
        List.disjoint_of_nodup_append distinct member (by simp [BlockEntry.indices])
      have readsBlock : readBlock seen value = .ok entry.block :=
        readBlock_eq_ok.mpr ⟨members, isObject, newBlockIndex_eq_ok.mpr ⟨found, fresh⟩,
          optionalNames_eq_ok.mpr flags, statements⟩
      have distinctLater : (seen ++ [entry.block.index] ++ BlockEntry.indices others).Nodup := by
        simpa [BlockEntry.indices] using distinct
      exact readBlocks_cons_eq_ok.mpr ⟨_, _, readsBlock, ih distinctLater, rfl⟩

def graphOf (entries : List BlockEntry) : FlowGraph :=
  ⟨entries.map (·.block), edgesFrom (BlockEntry.indices entries) 0 entries⟩

theorem readGraph_of_declared {values : List Json} {entries : List BlockEntry}
    (declares : List.Forall₂ DeclaresBlock values entries)
    (distinct : (BlockEntry.indices entries).Nodup) :
    readGraph (.array values) =
      unlessUndefined (BlockEntry.indices entries) (links entries) (graphOf entries) := by
  -- All blocks are read before the first edge: only the edges can fail, and they see every index.
  have readsBlocks : readBlocks [] values = .ok (entries.map (·.block)) :=
    readBlocks_declared declares (by simpa using distinct)
  have sameIndices : (entries.map (·.block)).map (·.index) = BlockEntry.indices entries := by
    simp [BlockEntry.indices]
  rw [readGraph, array, ok_bind, readsBlocks, ok_bind, sameIndices]
  dsimp only
  rw [readEdges_declared declares]
  exact unlessUndefined_map (links entries) _ (FlowGraph.mk (entries.map (·.block)))

theorem filter_edgesFrom (indices : List UInt64) (entries : List BlockEntry) (start offset : Nat) :
    (edgesFrom indices start entries).filter (fun edge => edge.source == start + offset) =
      (successorsAt entries offset).map (edgeTo indices (start + offset)) := by
  induction entries generalizing start offset with
  | nil => rfl
  | cons entry rest ih =>
      rw [edgesFrom, List.filter_append, List.filter_map]
      cases offset with
      | zero =>
          -- The edges of later entries have larger positions.
          have noneLater : (edgesFrom indices (start + 1) rest).filter
              (fun edge => edge.source == start + 0) = [] := by
            refine List.filter_eq_nil_iff.mpr fun edge member => ?_
            have bound := (source_mem_edgesFrom member).1
            simp only [beq_iff_eq]
            omega
          rw [noneLater]
          simp [edgeTo, successorsAt, Function.comp_def]
      | succ offset =>
          have later : start + (offset + 1) = start + 1 + offset := by omega
          have elsewhere : ((fun edge => edge.source == start + (offset + 1)) ∘
              edgeTo indices start) = fun _ => false := by
            funext successor
            simp [edgeTo]
          rw [elsewhere, later, ih]
          simp [successorsAt]

theorem declared?_edgeTo {entries : List BlockEntry} {successor : Successor}
    (known : successor.target ∈ BlockEntry.indices entries) (source : Nat) :
    (graphOf entries).declared? (edgeTo (BlockEntry.indices entries) source successor) =
      some successor := by
  have isTarget := List.getElem?_idxOf known
  rw [BlockEntry.indices, List.getElem?_map, Option.map_eq_some_iff] at isTarget
  obtain ⟨entry, isEntry, sameIndex⟩ := isTarget
  simp [FlowGraph.declared?, graphOf, edgeTo, BlockEntry.indices, isEntry, sameIndex]

theorem graphOf_realizes {entries : List BlockEntry}
    (distinct : (BlockEntry.indices entries).Nodup)
    (known : ∀ link ∈ links entries, link.2 ∈ BlockEntry.indices entries) :
    (graphOf entries).Realizes entries := by
  have indices_eq : (graphOf entries).blocks.map (·.index) = BlockEntry.indices entries := by
    simp [graphOf, BlockEntry.indices]
  have edges : ∀ position, ((graphOf entries).leaving position).map (graphOf entries).declared? =
      (successorsAt entries position).map some := by
    intro position
    have leaving := filter_edgesFrom (BlockEntry.indices entries) entries 0 position
    rw [Nat.zero_add] at leaving
    rw [FlowGraph.leaving, graphOf, leaving, ← graphOf, List.map_map]
    refine List.map_congr_left fun successor member => declared?_edgeTo ?_ position
    obtain ⟨index, isLink⟩ := BlockEntry.link_of_mem_successorsAt member
    exact known _ isLink
  exact {
    blocks := rfl
    distinct := indices_eq ▸ distinct
    sources := by
      intro edge member
      simpa [graphOf] using (source_mem_edgesFrom member).2
    edges
    successors := fun position => FlowGraph.map_index_successors (edges position)
    byIndex := FlowGraph.blockByIndex?_eq_some (indices_eq ▸ distinct) }

theorem exists_forall₂ {α β : Type} {relation : α → β → Prop} {items : List α}
    (each : ∀ item ∈ items, ∃ image, relation item image) :
    ∃ images, List.Forall₂ relation items images := by
  induction items with
  | nil => exact ⟨[], .nil⟩
  | cons item rest ih =>
      obtain ⟨first, others⟩ := List.forall_mem_cons.mp each
      obtain ⟨image, isImage⟩ := first
      obtain ⟨images, areImages⟩ := ih others
      exact ⟨image :: images, .cons isImage areImages⟩

theorem hasNames_of_valid {members : Members} {key : String}
    (valid : MayHave members key (IsArrayOf IsString)) : ∃ names, HasNames members key names := by
  obtain ⟨names, read⟩ := (optionalNames_accepts .blockFlags).mpr valid
  exact ⟨names, optionalNames_eq_ok.mp read⟩

theorem declaresSuccessor_of_valid {value : Json} (valid : ValidEdge indices value) :
    ∃ successor, DeclaresSuccessor value successor := by
  obtain ⟨members, isObject, ⟨target, _, found⟩, flags⟩ := valid
  obtain ⟨names, hasNames⟩ := hasNames_of_valid flags
  exact ⟨⟨target, names⟩, members, isObject, found, hasNames⟩

theorem declaresBlock_of_valid {index : UInt64} {value : Json}
    (valid : ValidBlock indices index value) :
    ∃ entry, DeclaresBlock value entry ∧ entry.block.index = index := by
  obtain ⟨members, isObject, found, flags, edges⟩ := valid
  obtain ⟨names, hasNames⟩ := hasNames_of_valid flags
  have listed : ∃ items, Lists members "succs" items ∧ ∀ item ∈ items, ValidEdge indices item := by
    cases written : members.get? "succs" with
    | none => exact ⟨[], Or.inr ⟨written, rfl⟩, by simp⟩
    | some value =>
        obtain ⟨items, rfl, each⟩ := edges value written
        exact ⟨items, Or.inl written, each⟩
  obtain ⟨items, lists, each⟩ := listed
  obtain ⟨successors, declared⟩ :=
    exists_forall₂ fun item member => declaresSuccessor_of_valid (each item member)
  exact ⟨⟨⟨index, names, (members.get? "stmts").map statementsText⟩, successors⟩,
    ⟨members, items, isObject, found, hasNames, rfl, lists, declared⟩, rfl⟩

theorem declaresBlocks_of_valid {named : List UInt64} {values : List Json}
    (valid : List.Forall₂ (ValidBlock indices) named values) :
    ∃ entries, List.Forall₂ DeclaresBlock values entries ∧ BlockEntry.indices entries = named := by
  induction valid with
  | nil => exact ⟨[], .nil, rfl⟩
  | cons first _ ih =>
      obtain ⟨entry, declares, rfl⟩ := declaresBlock_of_valid first
      obtain ⟨others, declared, rfl⟩ := ih
      exact ⟨entry :: others, .cons declares declared, rfl⟩

theorem declares_of_validGraph {value : Json} (valid : ValidGraph value) :
    ∃ values entries, value = .array values ∧ List.Forall₂ DeclaresBlock values entries ∧
      (BlockEntry.indices entries).Nodup := by
  obtain ⟨values, indices, isArray, distinct, blocks⟩ := valid
  obtain ⟨entries, declares, rfl⟩ := declaresBlocks_of_valid blocks
  exact ⟨values, entries, isArray, declares, distinct⟩

/-- The graph that is read realizes the entries of its array.  Where all of the array has the right
shape and no index occurs twice, an index without a block is the only fault there can be. -/
theorem readGraph_realizes (value : Json) :
    (∀ graph, readGraph value = .ok graph → ∃ values entries, value = .array values ∧
      List.Forall₂ DeclaresBlock values entries ∧ graph.Realizes entries) ∧
    ∀ values entries, value = .array values → List.Forall₂ DeclaresBlock values entries →
      (BlockEntry.indices entries).Nodup →
        ((∃ fault, readGraph value = .error fault) ↔ ∃ entry ∈ entries,
          ∃ successor ∈ entry.successors, successor.target ∉ BlockEntry.indices entries) ∧
        ∀ fault, readGraph value = .error fault → ∃ link,
          firstUndefined? entries = some link ∧ fault = .undefinedBlock link.1 link.2 := by
  constructor
  · intro graph read
    obtain ⟨values, entries, rfl, declares, distinct⟩ :=
      declares_of_validGraph (readGraph_accepts.mp ⟨graph, read⟩)
    rw [readGraph_of_declared declares distinct, unlessUndefined_eq_ok] at read
    obtain ⟨known, rfl⟩ := read
    exact ⟨values, entries, rfl, declares, graphOf_realizes distinct known⟩
  · rintro values entries rfl declares distinct
    have fails : ∀ fault, readGraph (.array values) = .error fault ↔ ∃ link,
        firstUndefined? entries = some link ∧ fault = .undefinedBlock link.1 link.2 := by
      intro fault
      rw [readGraph_of_declared declares distinct]
      exact unlessUndefined_eq_error
    refine ⟨?_, fun fault failed => (fails fault).mp failed⟩
    rw [← BlockEntry.exists_firstUndefined?]
    constructor
    · rintro ⟨fault, failed⟩
      obtain ⟨link, isFirst, _⟩ := (fails fault).mp failed
      exact ⟨link, isFirst⟩
    · rintro ⟨link, isFirst⟩
      exact ⟨_, (fails _).mpr ⟨link, isFirst, rfl⟩⟩

def forkedArray (other : UInt64) : Json :=
  .array [.object [("index", .natural 7), ("succs", .array
      [.object [("dest", .natural 3)], .object [("dest", .natural other.toNat)]])],
    .object [("index", .natural 3)]]

def forkedEntries (other : UInt64) : List BlockEntry :=
  [⟨⟨7, .empty, none⟩, [⟨3, .empty⟩, ⟨other, .empty⟩]⟩, ⟨⟨3, .empty, none⟩, []⟩]

theorem forkedArray_declares (other : UInt64) :
    ∃ values, forkedArray other = .array values ∧
      List.Forall₂ DeclaresBlock values (forkedEntries other) := by
  have declaresSuccessor : ∀ target : UInt64,
      DeclaresSuccessor (.object [("dest", .natural target.toNat)]) ⟨target, .empty⟩ :=
    fun target => ⟨_, rfl, rfl, Or.inl ⟨rfl, rfl⟩⟩
  refine ⟨_, rfl, .cons ?_ (.cons ?_ .nil)⟩
  · exact ⟨_, _, rfl, rfl, Or.inl ⟨rfl, rfl⟩, rfl, Or.inl rfl,
      .cons (declaresSuccessor 3) (.cons (declaresSuccessor other) .nil)⟩
  · exact ⟨_, _, rfl, rfl, Or.inl ⟨rfl, rfl⟩, rfl, Or.inr ⟨rfl, rfl⟩, .nil⟩

theorem forkedArray_realizes :
    (∃ graph entries, readGraph (forkedArray 7) = .ok graph ∧ graph.Realizes entries ∧
      graph.edges = [⟨0, 1, .empty⟩, ⟨0, 0, .empty⟩]) ∧
    readGraph (forkedArray 9) = .error (.undefinedBlock 7 9) := by
  constructor
  · obtain ⟨_, entries, _, _, realizes⟩ := (readGraph_realizes (forkedArray 7)).1 _ rfl
    exact ⟨_, entries, rfl, realizes, rfl⟩
  · obtain ⟨values, isArray, declares⟩ := forkedArray_declares 9
    obtain ⟨fails, names⟩ := (readGraph_realizes (forkedArray 9)).2 values (forkedEntries 9) isArray
      declares (by decide)
    obtain ⟨fault, failed⟩ := fails.mpr (by decide)
    obtain ⟨link, isFirst, rfl⟩ := names fault failed
    have isLink : firstUndefined? (forkedEntries 9) = some (7, 9) := by decide
    rw [isLink, Option.some.injEq] at isFirst
    rw [failed, ← isFirst]

end Document

end RemarkAtlas
