import RemarkAtlas.Disk.Path
import RemarkAtlas.Order.NameMap
import RemarkAtlas.Record.Walk

/-!
Compilation units: what one compilation reported.  All passes of a unit are in one list, each before
its sub-passes, and are referred to by their positions.  A table gives the position for an id.
-/

namespace RemarkAtlas

structure Generator where
  name : String
  packageVersion : String
  version : String
  target : String
  deriving DecidableEq, Repr

structure Pass where
  id : String
  name : String
  number : Int64
  groups : NameSet
  type : String
  children : List Nat
  deriving DecidableEq, Repr

structure CompilationUnit where
  filename : Option Path
  format : String
  generator : Generator
  passes : List Pass
  rootPasses : List Nat
  positions : NameMap Nat
  records : List Record
  deriving Repr

namespace CompilationUnit

def pass? (unit : CompilationUnit) (index : Nat) : Option Pass := unit.passes[index]?

def topPasses (unit : CompilationUnit) : List Pass := unit.rootPasses.filterMap unit.pass?

def subPasses (unit : CompilationUnit) (pass : Pass) : List Pass :=
  pass.children.filterMap unit.pass?

def passById? (unit : CompilationUnit) (id : String) : Option Pass :=
  (unit.positions.get? id).bind unit.pass?

def passOf? (unit : CompilationUnit) (record : Record) : Option Pass :=
  record.pass?.bind unit.pass?

def allRecords (unit : CompilationUnit) : List (Nat × Record) := (Walk.start unit.records).visit

def withFilename (unit : CompilationUnit) (filename : Path) : CompilationUnit :=
  { unit with filename := some filename }

def retain (keep : Record → Bool) (unit : CompilationUnit) : CompilationUnit :=
  { unit with records := unit.records.filter keep }

end CompilationUnit

end RemarkAtlas
