import RemarkAtlas.Document.Field
import RemarkAtlas.Record.FlowGraph

/-!
Control-flow graphs in a document: an array of blocks, each with the indices of its successors.  All
blocks are read before any edge, so an edge may lead to a later block.
-/

namespace RemarkAtlas.Document

def statementsText : Json → String
  | .string text => text
  | .array lines => "\n".intercalate (lines.map fun line =>
      match line with
      | .string text => text
      | other => other.compact)
  | other => other.compact

def newBlockIndex (seen : List UInt64) (members : Members) : Reading UInt64 := do
  let index ← demand .blockIndex (← required .block "index" members).asUInt64?
  if seen.contains index then refuse (.duplicateBlock index) else return index

def readBlock (seen : List UInt64) (value : Json) : Reading Block := do
  let members ← object .block value
  let index ← newBlockIndex seen members
  let flags ← optionalNames .blockFlags "flags" members
  return { index, flags, statements := (members.get? "stmts").map statementsText }

def readBlocks (seen : List UInt64) : List Json → Reading (List Block)
  | [] => .ok []
  | value :: rest => do
    let block ← readBlock seen value
    let blocks ← readBlocks (seen ++ [block.index]) rest
    return block :: blocks

def positionOf? (indices : List UInt64) (index : UInt64) : Option Nat :=
  indices.findIdx? fun other => other == index

def readEdge (indices : List UInt64) (source : Nat) (index : UInt64) (value : Json) :
    Reading Edge := do
  let members ← object .edge value
  let targetIndex ← demand .edgeTarget (← required .edge "dest" members).asUInt64?
  match positionOf? indices targetIndex with
  | none => .error (.undefinedBlock index targetIndex)
  | some target =>
    let flags ← optionalNames .edgeFlags "flags" members
    return { source, target, flags }

def readSuccessors (indices : List UInt64) (source : Nat) (index : UInt64) (members : Members) :
    Reading (List Edge) :=
  match members.get? "succs" with
  | none => .ok []
  | some value => do readEach (readEdge indices source index) (← array .successors value)

def readEdges (indices : List UInt64) (source : Nat) : List (UInt64 × Json) → Reading (List Edge)
  | [] => .ok []
  | (index, value) :: rest => do
    let edges ← readSuccessors indices source index (← object .block value)
    let others ← readEdges indices (source + 1) rest
    return edges ++ others

def readGraph (value : Json) : Reading FlowGraph := do
  let values ← array .graph value
  let blocks ← readBlocks [] values
  let indices := blocks.map (·.index)
  let edges ← readEdges indices 0 (indices.zip values)
  return { blocks, edges }

end RemarkAtlas.Document
