import RemarkAtlas.Corpus.Sighting

/-!
Which execution counts to trust.  As soon as a corpus has one measured count, its guessed counts are
ignored everywhere; without measured counts all guesses are used.
-/

namespace RemarkAtlas

structure PrecisionPolicy where
  preciseOnly : Bool
  deriving DecidableEq, Repr, Inhabited

namespace PrecisionPolicy

def retainAll : PrecisionPolicy := ⟨false⟩

def precise : PrecisionPolicy := ⟨true⟩

def ofCounts (counts : List Count) : PrecisionPolicy := ⟨counts.any (·.isPrecise)⟩

def ofUnits (units : List CompilationUnit) : PrecisionPolicy :=
  ofCounts ((Corpus.allRecords units).filterMap (·.record.count?))

def effective (policy : PrecisionPolicy) (count : Option Count) : Option Count :=
  count.filter fun count => !policy.preciseOnly || count.isPrecise

def hotness (policy : PrecisionPolicy) (record : Record) : Option UInt64 :=
  (policy.effective record.count?).map (·.value)

def reconcile (counts : List (Option Count)) : List (Option Count) :=
  let policy := ofCounts (counts.filterMap id)
  counts.map policy.effective

end PrecisionPolicy

end RemarkAtlas
