import RemarkAtlas.Order.NameSet

/-!
Control-flow graphs of functions.  Blocks carry the compiler's own indices; edges refer to blocks by
their positions in the list.
-/

namespace RemarkAtlas

structure Block where
  index : UInt64
  flags : NameSet
  statements : Option String
  deriving DecidableEq, Repr

structure Edge where
  source : Nat
  target : Nat
  flags : NameSet
  deriving DecidableEq, Repr

structure FlowGraph where
  blocks : List Block
  edges : List Edge
  deriving DecidableEq, Repr

namespace FlowGraph

def blockByIndex? (graph : FlowGraph) (index : UInt64) : Option Block :=
  graph.blocks.find? fun block => block.index == index

def leaving (graph : FlowGraph) (source : Nat) : List Edge :=
  graph.edges.filter fun edge => edge.source == source

def successors (graph : FlowGraph) (source : Nat) : List Block :=
  (graph.leaving source).filterMap fun edge => graph.blocks[edge.target]?

end FlowGraph

end RemarkAtlas
