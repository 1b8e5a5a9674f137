import RemarkAtlas.Order.Groups
import RemarkAtlas.Record.Unit

/-!
The records of a corpus, which is a list of compilation units, as seen from the outside: each with
its unit and its depth.
-/

namespace RemarkAtlas

structure Sighting where
  unitIndex : Nat
  unit : CompilationUnit
  depth : Nat
  record : Record
  deriving Repr

namespace Sighting

def pass? (sighting : Sighting) : Option Pass := sighting.unit.passOf? sighting.record

def passName? (sighting : Sighting) : Option String := sighting.pass?.map (·.name)

def location? (sighting : Sighting) : Option Location := sighting.record.location?

end Sighting

namespace Corpus

def sightings (unitIndex : Nat) (unit : CompilationUnit) (records : List (Nat × Record)) :
    List Sighting :=
  records.map fun (depth, record) => { unitIndex, unit, depth, record }

def allRecords (units : List CompilationUnit) : List Sighting :=
  units.zipIdx.flatMap fun (unit, index) => sightings index unit unit.allRecords

def topLevelRecords (units : List CompilationUnit) : List Sighting :=
  units.zipIdx.flatMap fun (unit, index) =>
    sightings index unit (unit.records.map fun record => (0, record))

def bySourceFile (units : List CompilationUnit) : List (String × List Sighting) :=
  Groups.byKey (fun sighting => sighting.location?.map (·.file)) (allRecords units)

def byLine (records : List Sighting) : List (UInt32 × List Sighting) :=
  Groups.byKey (fun sighting => sighting.location?.map (·.line)) records

end Corpus

end RemarkAtlas
