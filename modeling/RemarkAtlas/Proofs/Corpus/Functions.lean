import RemarkAtlas.Corpus.Functions
import RemarkAtlas.Proofs.Order.Groups
import RemarkAtlas.Proofs.Order.StableSort

/-!
What the summary of a function says, in terms of all records that name the function, and the order
in which the functions of a corpus come.
-/

namespace RemarkAtlas

namespace Activity

def ofPairs (pairs : List (Option UInt64 × Option Location)) : Activity :=
  pairs.foldl (fun activity pair => activity.merge pair.1 pair.2) none

structure Sums (pairs : List (Option UInt64 × Option Location)) (activity : Activity) : Prop where
  unknown : activity.hotness = .none ↔ ∀ pair ∈ pairs, pair.1 = .none
  attained : ∀ count, activity.hotness = some count → ∃ pair ∈ pairs, pair.1 = some count
  greatest : ∀ count, activity.hotness = some count →
    ∀ pair ∈ pairs, ∀ other, pair.1 = some other → other ≤ count
  sourceFile : activity.sourceFile = (pairs.findSome? (·.2)).map (·.file)
  peak : activity.peak = match activity.hotness with
    | some count => (pairs.find? (·.1 == some count)).bind (·.2)
    | .none => pairs.findSome? (·.2)

theorem isHotter_eq_true {left right : Option UInt64} :
    isHotter left right = true ↔
      ∃ count, left = some count ∧ ∀ other, right = some other → other < count := by
  cases left <;> cases right <;> simp [isHotter]

theorem isHotter_eq_false {left right : Option UInt64} :
    isHotter left right = false ↔
      ∀ count, left = some count → ∃ other, right = some other ∧ count ≤ other := by
  cases left <;> cases right <;> simp [isHotter]

theorem isHotter_trans {first second third : Option UInt64}
    (firstSecond : (!isHotter second first) = true) (secondThird : (!isHotter third second) = true) :
    (!isHotter third first) = true := by
  simp only [Bool.not_eq_true', isHotter_eq_false] at firstSecond secondThird ⊢
  intro count isThird
  obtain ⟨between, isSecond, bound⟩ := secondThird count isThird
  obtain ⟨greatest, isFirst, greatestBound⟩ := firstSecond between isSecond
  exact ⟨greatest, isFirst, UInt64.le_trans bound greatestBound⟩

theorem isHotter_total (left right : Option UInt64) :
    (!isHotter right left || !isHotter left right) = true := by
  cases left with
  | none => simp [isHotter]
  | some leftCount =>
      cases right with
      | none => simp [isHotter]
      | some rightCount => simpa [isHotter] using UInt64.le_total rightCount leftCount

theorem sourceFile_merge (activity : Activity) (hotness : Option UInt64)
    (location : Option Location) :
    (activity.merge hotness location).sourceFile =
      activity.sourceFile.or (location.map (·.file)) := by
  simp only [merge, Option.orElse_eq_orElse, Option.orElse_eq_or]
  split
  · rfl
  · split <;> rfl

namespace Sums

variable {pairs : List (Option UInt64 × Option Location)} {activity : Activity}
  {hotness : Option UInt64} {location : Option Location}

theorem nothing : Sums [] none where
  unknown := by simp [none]
  attained := by simp [none]
  greatest := by simp [none]
  sourceFile := rfl
  peak := rfl

theorem sourceFile_concat (sums : Sums pairs activity) :
    (activity.merge hotness location).sourceFile =
      ((pairs ++ [(hotness, location)]).findSome? (·.2)).map (·.file) := by
  rw [sourceFile_merge, sums.sourceFile, List.findSome?_append]
  cases pairs.findSome? (·.2) <;> simp

theorem lt_of_hotter (sums : Sums pairs activity) {count : UInt64}
    (above : ∀ other, activity.hotness = some other → other < count) :
    ∀ pair ∈ pairs, ∀ other, pair.1 = some other → other < count := by
  intro pair member other counted
  cases known : activity.hotness with
  | none => simp [sums.unknown.mp known pair member] at counted
  | some greatest =>
      exact UInt64.lt_of_le_of_lt (sums.greatest greatest known pair member other counted)
        (above greatest known)

theorem merge_hotter (sums : Sums pairs activity)
    (hotter : isHotter hotness activity.hotness = true) :
    Sums (pairs ++ [(hotness, location)]) (activity.merge hotness location) := by
  obtain ⟨count, rfl, above⟩ := isHotter_eq_true.mp hotter
  have below := sums.lt_of_hotter above
  have newHotness : (activity.merge (some count) location).hotness = some count := by
    simp [Activity.merge, hotter]
  have newPeak : (activity.merge (some count) location).peak = location := by
    simp [Activity.merge, hotter]
  have notBefore : pairs.find? (·.1 == some count) = .none := by
    refine List.find?_eq_none.mpr ?_
    intro pair member same
    exact UInt64.lt_irrefl _ (below pair member count (eq_of_beq same))
  refine ⟨?_, ?_, ?_, sums.sourceFile_concat, ?_⟩
  · simp only [newHotness, reduceCtorEq, false_iff]
    intro all
    simpa using all (some count, location) (by simp)
  · intro _ known
    exact ⟨(some count, location), by simp, by rw [← known, newHotness]⟩
  · intro greatest known pair member other counted
    obtain rfl := Option.some.inj (newHotness.symm.trans known)
    rcases List.mem_append.mp member with earlier | last
    · exact UInt64.le_of_lt (below pair earlier other counted)
    · obtain rfl := List.mem_singleton.mp last
      obtain rfl := Option.some.inj counted
      exact UInt64.le_refl _
  · simp [newPeak, newHotness, List.find?_append, notBefore]

theorem merge_unknown (sums : Sums pairs activity) (unknown : activity.hotness = .none) :
    Sums (pairs ++ [(.none, location)]) (activity.merge .none location) := by
  have newHotness : (activity.merge .none location).hotness = .none := by
    cases found : activity.peak <;> simp [Activity.merge, isHotter, unknown, found]
  have newPeak : (activity.merge .none location).peak = activity.peak.or location := by
    cases found : activity.peak <;> simp [Activity.merge, isHotter, unknown, found]
  refine ⟨?_, ?_, ?_, sums.sourceFile_concat, ?_⟩
  · simp only [newHotness, true_iff, List.forall_mem_append, List.forall_mem_singleton, and_true]
    exact sums.unknown.mp unknown
  · simp [newHotness]
  · simp [newHotness]
  · have oldPeak : activity.peak = pairs.findSome? (·.2) := by rw [sums.peak, unknown]
    simp [newPeak, newHotness, oldPeak, List.findSome?_append]

theorem merge_colder (sums : Sums pairs activity) {count : UInt64}
    (known : activity.hotness = some count)
    (bound : ∀ other, hotness = some other → other ≤ count) :
    Sums (pairs ++ [(hotness, location)]) (activity.merge hotness location) := by
  have notHotter : isHotter hotness (some count) = false :=
    isHotter_eq_false.mpr fun other counted => ⟨count, rfl, bound other counted⟩
  have newHotness : (activity.merge hotness location).hotness = some count := by
    simp [Activity.merge, known, notHotter]
  have newPeak : (activity.merge hotness location).peak = activity.peak := by
    simp [Activity.merge, known, notHotter]
  obtain ⟨hottest, member, counted⟩ := sums.attained count known
  have found : (pairs.find? (·.1 == some count)).isSome :=
    List.find?_isSome.mpr ⟨hottest, member, by simp [counted]⟩
  refine ⟨?_, ?_, ?_, sums.sourceFile_concat, ?_⟩
  · simp only [newHotness, reduceCtorEq, false_iff]
    intro all
    have absent := all hottest (List.mem_append_left _ member)
    simp [counted] at absent
  · intro greatest same
    exact ⟨hottest, List.mem_append_left _ member, by rw [counted, ← same, newHotness]⟩
  · intro greatest same pair isMember other isCount
    obtain rfl := Option.some.inj (newHotness.symm.trans same)
    rcases List.mem_append.mp isMember with earlier | last
    · exact sums.greatest count known pair earlier other isCount
    · obtain rfl := List.mem_singleton.mp last
      exact bound other isCount
  · rw [newPeak, newHotness, sums.peak, known]
    simp only [List.find?_append, Option.or_of_isSome found]

theorem merge (sums : Sums pairs activity) (pair : Option UInt64 × Option Location) :
    Sums (pairs ++ [pair]) (activity.merge pair.1 pair.2) := by
  obtain ⟨hotness, location⟩ := pair
  cases hotter : isHotter hotness activity.hotness with
  | true => exact sums.merge_hotter hotter
  | false =>
      have colder := isHotter_eq_false.mp hotter
      cases known : activity.hotness with
      | none =>
          cases hotness with
          | none => exact sums.merge_unknown known
          | some count => simp [known] at colder
      | some count =>
          refine sums.merge_colder known ?_
          intro other counted
          obtain ⟨_, same, bound⟩ := colder other counted
          rw [known, Option.some.injEq] at same
          exact same ▸ bound

theorem exists_sourceFile (sums : Sums pairs activity) {file : String}
    (isFile : activity.sourceFile = some file) :
    ∃ pair ∈ pairs, pair.2.map (·.file) = some file := by
  rw [sums.sourceFile, Option.map_eq_some_iff] at isFile
  obtain ⟨location, found, rfl⟩ := isFile
  obtain ⟨pair, member, located⟩ := List.exists_of_findSome?_eq_some found
  exact ⟨pair, member, by rw [located]; rfl⟩

theorem exists_peak (sums : Sums pairs activity) {peak : Location}
    (isPeak : activity.peak = some peak) :
    ∃ pair ∈ pairs, pair.2 = some peak := by
  rw [sums.peak] at isPeak
  split at isPeak
  · obtain ⟨pair, found, located⟩ := Option.bind_eq_some_iff.mp isPeak
    exact ⟨pair, List.mem_of_find?_eq_some found, located⟩
  · exact List.exists_of_findSome?_eq_some isPeak

end Sums

theorem sums_ofPairs (pairs : List (Option UInt64 × Option Location)) :
    Sums pairs (ofPairs pairs) := by
  induction pairs using List.reverseRecOn with
  | nil => exact Sums.nothing
  | append_singleton pairs pair ih =>
      rw [ofPairs, List.foldl_append, ← ofPairs]
      exact ih.merge pair

end Activity

namespace FunctionSummary

def Precedes (left right : FunctionSummary) : Prop :=
  match left.activity.hotness, right.activity.hotness with
  | some leftCount, some rightCount =>
    rightCount < leftCount ∨ leftCount = rightCount ∧ left.name < right.name
  | some _, none => True
  | none, some _ => False
  | none, none => left.name < right.name

structure Describes (policy : PrecisionPolicy) (records : List Sighting)
    (summary : FunctionSummary) : Prop where
  first : records.head? = some summary.first
  sums : summary.activity.Sums
    (records.map fun sighting => (policy.hotness sighting.record, sighting.location?))

def recordsOf (units : List CompilationUnit) (name : String) : List Sighting :=
  Groups.having (fun sighting => sighting.record.function?) name (Corpus.allRecords units)

variable {policy : PrecisionPolicy}

theorem ofGroup?_eq_some {name : String} {records : List Sighting} {summary : FunctionSummary} :
    ofGroup? policy (name, records) = some summary ↔
      summary.name = name ∧ records.head? = some summary.first ∧
        summary.activity = Activity.ofRecords policy (records.map (·.record)) := by
  cases records with
  | nil => simp [ofGroup?]
  | cons first rest =>
      obtain ⟨_, _, _⟩ := summary
      simp [ofGroup?]
      grind

theorem map_name_filterMap {groups : List (String × List Sighting)}
    (nonempty : ∀ group ∈ groups, group.2 ≠ []) :
    (groups.filterMap (ofGroup? policy)).map (·.name) = groups.map Prod.fst := by
  induction groups with
  | nil => rfl
  | cons group rest ih =>
      obtain ⟨name, records⟩ := group
      have restNames := ih fun other member => nonempty other (List.mem_cons_of_mem _ member)
      cases records with
      | nil => exact absurd rfl (nonempty _ (List.mem_cons_self ..))
      | cons first rest => simp [ofGroup?, restNames]

theorem ofRecords_eq (records : List Sighting) :
    Activity.ofRecords policy (records.map (·.record)) = Activity.ofPairs
      (records.map fun sighting => (policy.hotness sighting.record, sighting.location?)) := by
  rw [Activity.ofRecords, Activity.ofPairs, List.foldl_map, List.foldl_map]
  rfl

def byName (policy : PrecisionPolicy) (units : List CompilationUnit) : List FunctionSummary :=
  (Groups.byKey (fun sighting => sighting.record.function?) (Corpus.allRecords units)).filterMap
    (ofGroup? policy)

theorem ofUnits_perm (policy : PrecisionPolicy) (units : List CompilationUnit) :
    (ofUnits policy units).Perm (byName policy units) :=
  List.mergeSort_perm _ _

theorem names_byName (policy : PrecisionPolicy) (units : List CompilationUnit) :
    (byName policy units).map (·.name) =
      (Groups.byKey (fun sighting => sighting.record.function?) (Corpus.allRecords units)).map
        Prod.fst :=
  map_name_filterMap (Groups.byKey_nonempty _ _)

theorem ascending_byName (policy : PrecisionPolicy) (units : List CompilationUnit) :
    (byName policy units).Pairwise fun left right => left.name < right.name := by
  have ascending := Groups.pairwise_keys (fun sighting : Sighting => sighting.record.function?)
    (Corpus.allRecords units)
  rw [← names_byName policy, List.pairwise_map] at ascending
  exact ascending.imp fun before => compareOfLessAndEq_eq_lt.mp before

theorem precedes_ofUnits (policy : PrecisionPolicy) (units : List CompilationUnit) :
    (ofUnits policy units).Pairwise Precedes := by
  have sorted := pairwise_mergeSort_stable
    (fun left right : FunctionSummary =>
      !Activity.isHotter right.activity.hotness left.activity.hotness)
    (fun _ _ _ => Activity.isHotter_trans) (fun _ _ => Activity.isHotter_total _ _)
    (ascending_byName policy units)
  refine sorted.imp ?_
  rintro left right ⟨notColder, tie⟩
  rw [Precedes]
  cases leftHotness : left.activity.hotness with
  | none =>
      cases rightHotness : right.activity.hotness with
      | none => exact tie (by simp [leftHotness, rightHotness, Activity.isHotter])
      | some rightCount => simp [leftHotness, rightHotness, Activity.isHotter] at notColder
  | some leftCount =>
      cases rightHotness : right.activity.hotness with
      | none => trivial
      | some rightCount =>
          simp only [leftHotness, rightHotness, Activity.isHotter, Bool.not_eq_true',
            decide_eq_false_iff_not, UInt64.not_lt] at notColder tie
          rcases UInt64.lt_or_eq_of_le notColder with hotter | same
          · exact Or.inl hotter
          · exact Or.inr ⟨same.symm, tie (UInt64.le_of_eq same.symm)⟩

theorem describes_byName {units : List CompilationUnit} {summary : FunctionSummary}
    (member : summary ∈ byName policy units) :
    summary.Describes policy (recordsOf units summary.name) := by
  obtain ⟨⟨name, records⟩, grouped, isSummary⟩ := List.mem_filterMap.mp member
  obtain ⟨_, rfl⟩ := Groups.mem_byKey.mp grouped
  obtain ⟨rfl, first, activity⟩ := ofGroup?_eq_some.mp isSummary
  refine ⟨first, ?_⟩
  rw [activity, ofRecords_eq]
  exact Activity.sums_ofPairs _

theorem ofUnits_describes (policy : PrecisionPolicy) (units : List CompilationUnit) :
    (∀ name, (∃ summary ∈ ofUnits policy units, summary.name = name) ↔
      ∃ sighting ∈ Corpus.allRecords units, sighting.record.function? = some name) ∧
    ((ofUnits policy units).map (·.name)).Nodup ∧
    (ofUnits policy units).Pairwise Precedes ∧
    (∀ summary ∈ ofUnits policy units,
      summary.Describes policy (recordsOf units summary.name)) ∧
    ∀ pairs, (Activity.ofPairs pairs).Sums pairs := by
  have sameMembers := fun summary : FunctionSummary =>
    (ofUnits_perm policy units).mem_iff (a := summary)
  refine ⟨?_, ?_, precedes_ofUnits policy units, ?_, Activity.sums_ofPairs⟩
  · intro name
    simp only [sameMembers, ← Groups.mem_keys, ← names_byName policy, List.mem_map]
  · rw [((ofUnits_perm policy units).map (·.name)).nodup_iff, names_byName]
    exact Groups.nodup_keys _ _
  · intro summary member
    exact describes_byName ((sameMembers summary).mp member)

end FunctionSummary

end RemarkAtlas
