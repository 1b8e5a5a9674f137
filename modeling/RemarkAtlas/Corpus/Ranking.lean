import RemarkAtlas.Corpus.Precision

/-!
Ranking by hotness.  A record without an effective count ranks like one with a count of zero, and
records of equal hotness keep their order.
-/

namespace RemarkAtlas.Ranking

def heat (policy : PrecisionPolicy) (record : Record) : UInt64 := (policy.hotness record).getD 0

def rankBy {Item : Type} (policy : PrecisionPolicy) (recordOf : Item → Record)
    (items : List Item) : List Item :=
  items.mergeSort fun left right => heat policy (recordOf right) ≤ heat policy (recordOf left)

def rank (policy : PrecisionPolicy) (records : List Sighting) : List Sighting :=
  rankBy policy (·.record) records

def forPass (policy : PrecisionPolicy) (units : List CompilationUnit) (name : String) :
    List Sighting :=
  rank policy ((Corpus.allRecords units).filter fun sighting => sighting.passName? == some name)

def highest (policy : PrecisionPolicy) (records : List Record) : Option UInt64 :=
  (records.filterMap policy.hotness).max?

end RemarkAtlas.Ranking
