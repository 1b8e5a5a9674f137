import RemarkAtlas.Proofs.Record.Flatten

/-!
Records with other counts.  A forest may be given new counts in the order in which its records are
listed, or each count may be changed on its own; the first comes to the second when the new counts
are the old ones, each changed.
-/

namespace RemarkAtlas

namespace Record

mutual

/-- Gives a record and the records below it the counts of a list, in the order of the listing; what
is left of the list is also given.  A snapshot has no place for a count and skips one. -/
def withCounts (counts : List (Option Count)) : Record → Record × List (Option Count)
  | remark header details children =>
    let (children, left) := withAllCounts counts.tail children
    (remark header { details with count := counts.head?.join } children, left)
  | snapshot header graph => (snapshot header graph, counts.tail)

def withAllCounts (counts : List (Option Count)) : List Record → List Record × List (Option Count)
  | [] => ([], counts)
  | record :: rest =>
    let (record, left) := withCounts counts record
    let (rest, left) := withAllCounts left rest
    (record :: rest, left)

end

mutual

def mapCounts (change : Option Count → Option Count) : Record → Record
  | remark header details children =>
    remark header { details with count := change details.count } (mapAllCounts change children)
  | snapshot header graph => snapshot header graph

def mapAllCounts (change : Option Count → Option Count) : List Record → List Record
  | [] => []
  | record :: rest => mapCounts change record :: mapAllCounts change rest

end

variable {change : Option Count → Option Count}

@[simp] theorem header_mapCounts (record : Record) :
    (record.mapCounts change).header = record.header := by
  cases record <;> rfl

@[simp] theorem location?_mapCounts (record : Record) :
    (record.mapCounts change).location? = record.location? := by
  cases record <;> rfl

theorem count?_mapCounts (keepsNone : change none = none) (record : Record) :
    (record.mapCounts change).count? = change record.count? := by
  cases record with
  | remark header details children => rfl
  | snapshot header graph => exact keepsNone.symm

@[simp] theorem children_mapCounts (record : Record) :
    (record.mapCounts change).children = mapAllCounts change record.children := by
  cases record <;> rfl

theorem flattenAll_mapAllCounts (depth : Nat) (records : List Record) :
    flattenAll depth (mapAllCounts change records) =
      (flattenAll depth records).map fun entry => (entry.1, entry.2.mapCounts change) := by
  induction records using forestInduction generalizing depth with
  | nil => rfl
  | cons record rest ihBelow ihRest =>
      simp only [mapAllCounts, flattenAll, Walk.flatten_eq, children_mapCounts, ihBelow, ihRest,
        List.cons_append, List.map_cons, List.map_append]

/-- Counts that are the old ones, each changed, are given to the records that they come from. -/
theorem withAllCounts_eq (depth : Nat) (records : List Record) (left : List (Option Count)) :
    withAllCounts (((flattenAll depth records).map fun entry => change entry.2.count?) ++ left)
      records = (mapAllCounts change records, left) := by
  induction records using forestInduction generalizing depth left with
  | nil => rfl
  | cons record rest ihBelow ihRest =>
      -- What is left after the records below are the counts of the siblings and what follows them.
      have first := ihBelow (depth + 1) (((flattenAll depth rest).map fun entry =>
        change entry.2.count?) ++ left)
      simp only [flattenAll, Walk.flatten_eq, List.cons_append, List.map_cons, List.map_append,
        List.append_assoc, withAllCounts]
      cases record with
      | remark header details children =>
          simp only [Record.children] at first
          simp only [withCounts, List.tail_cons, Record.children, first, ihRest, mapAllCounts,
            mapCounts]
          rfl
      | snapshot header graph =>
          simp only [withCounts, Record.children, flattenAll, List.map_nil, List.nil_append,
            List.tail_cons, ihRest, mapAllCounts, mapCounts]

end Record

end RemarkAtlas
