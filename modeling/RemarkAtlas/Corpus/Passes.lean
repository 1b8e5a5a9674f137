import RemarkAtlas.Corpus.Sighting

/-!
Passes of a corpus, with the number of their records.
-/

namespace RemarkAtlas

structure PassSummary where
  name : Option String
  topLevel : Nat
  total : Nat
  deriving DecidableEq, Repr

namespace PassSummary

def displayName (summary : PassSummary) : String := summary.name.getD "(none)"

def ofGroup (group : Option String × List Sighting) : PassSummary :=
  { name := group.1
    topLevel := group.2.countP fun sighting => sighting.depth == 0
    total := group.2.length }

def ofUnits (units : List CompilationUnit) : List PassSummary :=
  (Groups.byKey (fun sighting => some sighting.passName?) (Corpus.allRecords units)).map ofGroup

end PassSummary

end RemarkAtlas
