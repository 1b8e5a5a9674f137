import Mathlib.Data.List.Forall2
import RemarkAtlas.Proofs.Document.Erasure
import RemarkAtlas.Proofs.Document.WellFormed

/-!
The objects of a document in the order in which they are read: its passes and its records, each
before those below it.  The passes and the records of a unit can be told from these lists, whatever
else the objects hold.
-/

namespace RemarkAtlas.Document

mutual

def objectsAt (opens : Members → Bool) : Json → List Members
  | .object members => members :: if opens members then objectsBelow opens members else []
  | _ => []

def objectsAmong (opens : Members → Bool) : List Json → List Members
  | [] => []
  | value :: rest => objectsAt opens value ++ objectsAmong opens rest

def objectsBelow (opens : Members → Bool) : List (String × Json) → List Members
  | [] => []
  | (key, value) :: rest =>
    if key = "children" then
      match value with
      | .array items => objectsAmong opens items
      | _ => []
    else objectsBelow opens rest

end

def passObjects : List Json → List Members := objectsAmong fun _ => true

/-- The records of a record list at every depth; below a record of kind `state` there are none. -/
def recordObjects : List Json → List Members := objectsAmong fun members => !isState members

def idText? (key : String) (members : Members) : Option String :=
  (members.get? key).bind scalarText?

def text? (key : String) (members : Members) : Option String := (members.get? key).bind Json.asText?

def quality? (members : Members) : Option String :=
  if isState members then none
  else match members.get? "count" with
    | some (.object count) => text? "quality" count
    | _ => none

theorem objectsBelow_eq {opens : Members → Bool} {members : Members} {items : List Json}
    (lists : Lists members "children" items) :
    objectsBelow opens members = objectsAmong opens items := by
  induction members with
  | nil =>
      rcases lists with found | ⟨_, rfl⟩
      · simp at found
      · rfl
  | cons member rest ih =>
      obtain ⟨key, value⟩ := member
      by_cases isChildren : key = "children"
      · subst isChildren
        rcases lists with found | ⟨absent, _⟩
        · obtain rfl : value = .array items := by simpa using found
          rfl
        · simp at absent
      · have sameLists : Lists rest "children" items := by
          simpa [Lists, Ne.symm isChildren] using lists
        rw [objectsBelow.eq_def]
        simp only [isChildren, if_false]
        exact ih sameLists

theorem passObjects_cons {members : Members} {items : List Json} (rest : List Json)
    (lists : Lists members "children" items) :
    passObjects (.object members :: rest) = members :: passObjects items ++ passObjects rest := by
  rw [passObjects, objectsAmong, objectsAt, if_pos rfl, objectsBelow_eq lists]

theorem recordObjects_remark {members : Members} {items : List Json} (rest : List Json)
    (notState : isState members = false) (lists : Lists members "children" items) :
    recordObjects (.object members :: rest) =
      members :: recordObjects items ++ recordObjects rest := by
  rw [recordObjects, objectsAmong, objectsAt, notState, Bool.not_false, if_pos rfl,
    objectsBelow_eq lists]

theorem recordObjects_snapshot {members : Members} (rest : List Json)
    (state : isState members = true) :
    recordObjects (.object members :: rest) = members :: recordObjects rest := by
  rw [recordObjects, objectsAmong, objectsAt, state, Bool.not_true, if_neg Bool.false_ne_true]
  rfl

theorem passWithId_name {id : String} {members : Members} {pass : Pass}
    (read : passWithId id members = .ok pass) : text? "name" members = some pass.name := by
  simp only [passWithId, bind_eq_ok, string_eq_ok] at read
  obtain ⟨_, _, _, _, name, hasName, _, _, _, _, _, _, made⟩ := read
  obtain rfl := Except.ok.inj made
  simp [text?, hasName, Json.asText?]

/-- The passes that are read have the ids and the names of the objects, in their order. -/
theorem readPasses_objects {values : List Json} {table after : PassTable} {roots : List Nat}
    (read : readPasses table values = .ok (roots, after)) :
    after.passes.map (fun pass => (some pass.id, some pass.name)) =
      table.passes.map (fun pass => (some pass.id, some pass.name)) ++
        (passObjects values).map fun members => (idText? "id" members, text? "name" members) := by
  induction values using Json.forestInduction "children" generalizing table after roots with
  | nil =>
      simp only [readPasses, Except.ok.injEq, Prod.mk.injEq] at read
      simp [passObjects, objectsAmong, read.2]
  | cons value rest ihBelow ihRest =>
      obtain ⟨position, middle, positions, readFirst, readRest, _⟩ :=
        readPasses_cons_eq_ok.mp read
      obtain ⟨members, id, pass, items, children, below, isObject, newId, fields, lists, readBelow,
        _, rfl⟩ := readPass_eq_ok.mp readFirst
      obtain ⟨⟨value, hasId, isId⟩, _⟩ := newPassId_eq_ok.mp newId
      have sameId : idText? "id" members = some pass.id := by
        rw [idText?, hasId, Option.bind_some, isId, (passWithId_keeps fields).1]
      subst isObject
      rw [ihRest readRest, PassTable.adopt, PassTable.map_modify _ _ _ fun _ _ => rfl,
        ihBelow members items rfl lists readBelow, passObjects_cons rest lists]
      simp [PassTable.register, sameId, passWithId_name fields]

theorem isState_iff {positions : NameMap Nat} {members : Members} {header : Header}
    (reads : readHeader positions members = .ok header) :
    isState members = true ↔ header.kind = .state := by
  obtain ⟨⟨tag, hasTag, isKind⟩, _⟩ := readHeader_eq_ok.mp reads
  rw [isKind, isState, hasTag]
  simp only [Option.bind_some, Json.asText?, beq_iff_eq, Option.some.injEq]
  grind [Kind.ofTag]

theorem readHeader_pass {positions : NameMap Nat} {members : Members} {header : Header}
    (reads : readHeader positions members = .ok header) :
    (idText? "pass" members).map positions.get? = header.pass.map some := by
  obtain ⟨_, readsPass, _⟩ := readHeader_eq_ok.mp reads
  rcases readOptional_eq_ok.mp readsPass with ⟨absent, none⟩ | ⟨value, position, found, isPass, same⟩
  · rw [idText?, absent, ← none]
    rfl
  · obtain ⟨id, isId, located⟩ := readPassReference_eq_ok.mp isPass
    rw [idText?, found, Option.bind_some, isId, Option.map_some, located, ← same, Option.map_some]

theorem readCount_quality {value : Json} {count : Count} (reads : readCount value = .ok count) :
    ∃ members, value = .object members ∧ text? "quality" members = some count.quality := by
  simp only [readCount, bind_eq_ok, object_eq_ok, string_eq_ok] at reads
  obtain ⟨members, rfl, quality, hasQuality, written, _, made⟩ := reads
  refine ⟨members, rfl, ?_⟩
  split at made
  · obtain rfl := Except.ok.inj made
    simp [text?, hasQuality, Json.asText?]
  · cases made

theorem readOptional_quality {members : Members} {count : Option Count}
    (notState : isState members = false)
    (reads : readOptional readCount "count" members = .ok count) :
    count.map (·.quality) = quality? members := by
  rw [quality?, notState, if_neg Bool.false_ne_true]
  rcases readOptional_eq_ok.mp reads with ⟨absent, rfl⟩ | ⟨value, count, found, isCount, rfl⟩
  · rw [absent]
    rfl
  · obtain ⟨inner, rfl, quality⟩ := readCount_quality isCount
    rw [found, Option.map_some]
    exact quality.symm

/-- What can be told of a record from its object: the id that it gives is that of its pass. -/
structure IsReadFrom (positions : NameMap Nat) (record : Record) (members : Members) : Prop where
  pass : (idText? "pass" members).map positions.get? = record.pass?.map some
  quality : record.count?.map (·.quality) = quality? members

/-- The pass of a record is the one whose id has the text in the object. -/
theorem IsReadFrom.passOf?_id {unit : CompilationUnit} {record : Record} {members : Members}
    (isRead : IsReadFrom unit.positions record members)
    (located : Locates unit.positions (unit.passes.map (·.id))) :
    (unit.passOf? record).map (·.id) = idText? "pass" members := by
  have pass := isRead.pass
  cases named : idText? "pass" members with
  | none =>
      rw [named, Option.map_none] at pass
      rw [CompilationUnit.passOf?, Option.map_eq_none_iff.mp pass.symm]
      rfl
  | some id =>
      rw [named, Option.map_some] at pass
      obtain ⟨position, isPosition, found⟩ := Option.map_eq_some_iff.mp pass.symm
      rw [CompilationUnit.passOf?, isPosition, Option.bind_some, CompilationUnit.pass?,
        ← List.getElem?_map]
      exact (located id position).mp found.symm

theorem readRecords_objects {options : Options} {positions : NameMap Nat} {values : List Json}
    {records : List Record} (read : readRecords options positions values = .ok records)
    (depth : Nat) :
    List.Forall₂ (fun entry members => IsReadFrom positions entry.2 members)
      (Record.flattenAll depth records) (recordObjects values) := by
  induction values using Json.forestInduction "children" generalizing records depth with
  | nil =>
      obtain rfl : [] = records := Except.ok.inj read
      exact .nil
  | cons value rest ihBelow ihRest =>
      obtain ⟨record, others, readFirst, readOthers, rfl⟩ := readRecords_cons_eq_ok.mp read
      obtain ⟨members, header, rfl, readsHeader, body⟩ := readRecord_eq_ok.mp readFirst
      have pass := readHeader_pass readsHeader
      rcases body with ⟨state, graph, _, rfl⟩ |
        ⟨notState, details, items, children, reads, lists, readBelow, rfl⟩
      · have isState := (isState_iff readsHeader).mpr state
        rw [recordObjects_snapshot rest isState]
        exact .cons ⟨pass, by rw [quality?, if_pos isState]; rfl⟩ (ihRest readOthers depth)
      · have noState : isState members = false :=
          Bool.eq_false_iff.mpr fun isState => notState ((isState_iff readsHeader).mp isState)
        rw [recordObjects_remark rest noState lists, Record.flattenAll, Record.flatten]
        have below := ihBelow members items rfl lists readBelow (depth + 1)
        exact .cons ⟨pass, readOptional_quality noState reads.count⟩
          (List.rel_append below (ihRest readOthers depth))

end RemarkAtlas.Document
