import RemarkAtlas.Corpus.Ranking

/-!
Functions of a corpus, with what their records say about them in sum.
-/

namespace RemarkAtlas

structure Activity where
  hotness : Option UInt64
  sourceFile : Option String
  peak : Option Location
  deriving DecidableEq, Repr

namespace Activity

def none : Activity := ⟨.none, .none, .none⟩

def isHotter : Option UInt64 → Option UInt64 → Bool
  | some left, some right => right < left
  | some _, .none => true
  | .none, _ => false

/-- Takes one more record into account.  A hotter record moves the peak, even if it has no place;
without any count the first place is the peak. -/
def merge (activity : Activity) (hotness : Option UInt64) (location : Option Location) :
    Activity :=
  let sourceFile := activity.sourceFile <|> location.map (·.file)
  if isHotter hotness activity.hotness then { hotness, sourceFile, peak := location }
  else if activity.hotness.isNone && activity.peak.isNone then
    { hotness := activity.hotness, sourceFile, peak := location }
  else { activity with sourceFile }

def ofRecords (policy : PrecisionPolicy) (records : List Record) : Activity :=
  records.foldl (fun activity record => activity.merge (policy.hotness record) record.location?)
    none

end Activity

structure FunctionSummary where
  name : String
  first : Sighting
  activity : Activity
  deriving Repr

namespace FunctionSummary

def ofGroup? (policy : PrecisionPolicy) : String × List Sighting → Option FunctionSummary
  | (_, []) => none
  | (name, first :: rest) =>
    some { name, first, activity := Activity.ofRecords policy ((first :: rest).map (·.record)) }

/-- The functions of a corpus, hottest first, those without a count last; functions of equal
hotness come in the order of their names. -/
def ofUnits (policy : PrecisionPolicy) (units : List CompilationUnit) : List FunctionSummary :=
  let groups := Groups.byKey (fun sighting => sighting.record.function?) (Corpus.allRecords units)
  (groups.filterMap (ofGroup? policy)).mergeSort fun left right =>
    !Activity.isHotter right.activity.hotness left.activity.hotness

end FunctionSummary

end RemarkAtlas
