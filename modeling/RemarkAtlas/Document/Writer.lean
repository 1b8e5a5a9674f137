import RemarkAtlas.Document.Records

/-!
The canonical document of a unit.  Identifiers are written as texts, optional members only where
they have a value, and the members of each object in the order of their keys.
-/

namespace RemarkAtlas.Document

def optionalMember {α : Type} (key : String) (write : α → Json) : Option α → Members
  | none => []
  | some content => [(key, write content)]

def writeNames (names : NameSet) : Json := .array (names.toList.map .string)

def writeLocation (location : Location) : Json :=
  .object [("column", .natural location.column.toNat), ("file", .string location.file),
    ("line", .natural location.line.toNat)]

def writeEmitter (location : CompilerLocation) : Json :=
  .object [("file", .string location.file), ("function", .string location.function),
    ("line", .natural location.line.toNat)]

def writeCount (count : Count) : Json :=
  .object [("quality", .string count.quality), ("value", .natural count.value.toNat)]

def writeFrame (frame : InliningFrame) : Json :=
  .object (("fndecl", .string frame.function) :: optionalMember "site" writeLocation frame.site)

def writeInlining (frames : List InliningFrame) : Json := .array (frames.map writeFrame)

def writeItem : MessageItem → Json
  | .plain text => .string text
  | .expression text location =>
    .object (("expr", .string text) :: optionalMember "location" writeLocation location)
  | .statement text location =>
    .object (optionalMember "location" writeLocation location ++ [("stmt", .string text)])
  | .symbol text location =>
    .object (optionalMember "location" writeLocation location ++ [("symtab_node", .string text)])

def writeEdge (graph : FlowGraph) (edge : Edge) : Json :=
  .object [("dest", (graph.blocks[edge.target]?).elim .null fun target =>
      .natural target.index.toNat), ("flags", writeNames edge.flags)]

def writeBlock (graph : FlowGraph) (block : Block) (position : Nat) : Json :=
  .object ([("flags", writeNames block.flags), ("index", .natural block.index.toNat)] ++
    optionalMember "stmts" .string block.statements ++
    [("succs", .array ((graph.leaving position).map (writeEdge graph)))])

def writeGraph (graph : FlowGraph) : Json :=
  .array (graph.blocks.zipIdx.map fun (block, position) => writeBlock graph block position)

def passId? (passes : List Pass) (header : Header) : Option String :=
  (header.pass.bind fun position => passes[position]?).map (·.id)

def remarkMembers (passes : List Pass) (header : Header) (details : Details)
    (children : List Json) : Members :=
  [("children", .array children)] ++
    optionalMember "count" writeCount details.count ++
    optionalMember "function" .string header.function ++
    optionalMember "impl_location" writeEmitter details.emitter ++
    optionalMember "inlining_chain" writeInlining details.inlining ++
    [("kind", .string header.kind.tag)] ++
    optionalMember "location" writeLocation details.location ++
    [("message", .array (details.message.map writeItem))] ++
    optionalMember "pass" .string (passId? passes header)

def snapshotMembers (passes : List Pass) (header : Header) (graph : Option FlowGraph) : Members :=
  optionalMember "cfg" writeGraph graph ++
    optionalMember "function" .string header.function ++
    [("kind", .string header.kind.tag)] ++
    optionalMember "pass" .string (passId? passes header)

mutual

def writeRecord (passes : List Pass) : Record → Json
  | .remark header details children =>
    .object (remarkMembers passes header details (writeRecords passes children))
  | .snapshot header graph => .object (snapshotMembers passes header graph)

def writeRecords (passes : List Pass) : List Record → List Json
  | [] => []
  | record :: rest => writeRecord passes record :: writeRecords passes rest

end

def passMembers (pass : Pass) (children : List Json) : Members :=
  [("children", .array children), ("id", .string pass.id), ("name", .string pass.name),
    ("num", .number (.integer pass.number.toInt)), ("optgroups", writeNames pass.groups),
    ("type", .string pass.type)]

/-- A pass holds its sub-passes.  These come later in the pass list than the pass itself; a position
that leads backwards is not followed. -/
def writePass (passes : List Pass) (position : Nat) : Json :=
  match _found : passes[position]? with
  | none => .null
  | some pass =>
    .object (passMembers pass (pass.children.map fun child =>
      if position < child then writePass passes child else .null))
termination_by passes.length - position
decreasing_by
  have bound := (List.getElem?_eq_some_iff.mp _found).1
  omega

def writeGenerator (generator : Generator) : Json :=
  .object [("name", .string generator.name), ("pkgversion", .string generator.packageVersion),
    ("target", .string generator.target), ("version", .string generator.version)]

def writeUnit (unit : CompilationUnit) : Json :=
  .array [
    .object [("format", .string unit.format), ("generator", writeGenerator unit.generator)],
    .array (unit.rootPasses.map (writePass unit.passes)),
    .array (writeRecords unit.passes unit.records)]

end RemarkAtlas.Document
