import RemarkAtlas.Proofs.Document.Acceptance
import RemarkAtlas.Proofs.Document.Listing
import RemarkAtlas.Proofs.Json.NumberText

/-!
Identifiers may be written as numbers or as strings.  The text of a number stands for it wherever an
identifier is declared, looked up or named in a fault, so reading cannot tell a document from the
one in which these numbers are spelled out.
-/

namespace RemarkAtlas

def Json.spelled : Json → Json
  | .number written => .string written.text
  | other => other

namespace Members

def change (fields : List Field) (members : Members) : Members :=
  members.map fun member => (member.1, (fields.lookup member.1).getD id member.2)

theorem get?_change (fields : List Field) (key : String) (members : Members) :
    (members.change fields).get? key = (members.get? key).map ((fields.lookup key).getD id) := by
  induction members with
  | nil => rfl
  | cons member rest ih =>
      obtain ⟨other, value⟩ := member
      rw [change, List.map_cons, get?_cons, get?_cons]
      by_cases same : key = other
      · rw [if_pos same, if_pos same, same, Option.map_some]
      · rw [if_neg same, if_neg same]
        exact ih

end Members

namespace Document

open Json (onMembers onItems spelled)

def spellGenerator : Json → Json :=
  onMembers (Members.change
    [("name", spelled), ("pkgversion", spelled), ("version", spelled), ("target", spelled)])

def spellMetadata : Json → Json :=
  onMembers (Members.change [("format", spelled), ("generator", spellGenerator)])

def passSpelling : Members → Members := Members.change [("id", spelled)]

def recordSpelling : Members → Members := Members.change [("pass", spelled)]

def spelledOut : Json → Json
  | .array [metadata, passList, recordList] =>
    .array [spellMetadata metadata, onItems (eraseTree passSpelling) passList,
      onItems (eraseTree recordSpelling) recordList]
  | other => other

@[simp] theorem scalarText?_spelled (value : Json) :
    scalarText? value.spelled = scalarText? value := by
  cases value <;> rfl

theorem scalar_change {fields : List Members.Field} {key : String} (part : DocumentPart)
    (members : Members) (isSpelled : fields.lookup key = some spelled) :
    scalar part key (members.change fields) = scalar part key members := by
  rw [scalar, scalar, required, required, Members.get?_change, isSpelled]
  cases members.get? key with
  | none => rfl
  | some value =>
      change demand _ (scalarText? value.spelled) = demand _ (scalarText? value)
      rw [scalarText?_spelled]

section Parts

variable {α : Type} {key : String} {members changed : Members} {change : Json → Json}
  {next other : List Json → Reading α}

theorem object_onMembers {own : Members → Members} {next other : Members → Reading α}
    (part : DocumentPart) (value : Json) (same : ∀ members, next (own members) = other members) :
    (object part (onMembers own value) >>= next) = (object part value >>= other) := by
  cases value with
  | object members => exact same members
  | _ => rfl

theorem required_change {next other : Json → Reading α} (part : DocumentPart)
    (found : changed.get? key = (members.get? key).map change)
    (same : ∀ value, next (change value) = other value) :
    (required part key changed >>= next) = (required part key members >>= other) := by
  rw [required, required, found]
  cases members.get? key with
  | none => rfl
  | some value => exact same value

theorem array_onItems (part : DocumentPart) (value : Json)
    (same : ∀ items, next (items.map change) = other items) :
    (array part (onItems change value) >>= next) = (array part value >>= other) := by
  cases value with
  | array items => exact same items
  | _ => rfl

theorem listed_onItems (part : DocumentPart)
    (found : changed.get? key = (members.get? key).map (onItems change))
    (same : ∀ items, Lists members key items → next (items.map change) = other items) :
    (listed part key changed >>= next) = (listed part key members >>= other) := by
  rw [listed, listed, found]
  cases isListed : members.get? key with
  | none => exact same [] (Or.inr ⟨isListed, rfl⟩)
  | some value =>
      cases value with
      | array items => exact same items (Or.inl isListed)
      | _ => rfl

end Parts

theorem readGenerator_spelled (value : Json) :
    readGenerator (spellGenerator value) = readGenerator value := by
  refine object_onMembers .generator value fun members => ?_
  rw [scalar_change .generator members rfl, scalar_change .generator members rfl,
    scalar_change .generator members rfl, scalar_change .generator members rfl]

theorem readPassReference_spelled (positions : NameMap Nat) (value : Json) :
    readPassReference positions value.spelled = readPassReference positions value := by
  cases value <;> rfl

section Passes

def spelledPass (members : Members) : Members := passSpelling (eraseBelow passSpelling members)

theorem newPassId_spelled (table : PassTable) (members : Members) :
    newPassId table (spelledPass members) = newPassId table members := by
  rw [newPassId, newPassId, spelledPass, passSpelling, scalar_change .pass _ (by rfl)]
  simp [scalar, required, get?_eraseBelow]

theorem passWithId_spelled (id : String) (members : Members) :
    passWithId id (spelledPass members) = passWithId id members := by
  simp [passWithId, required, string, spelledPass, passSpelling, Members.get?_change,
    get?_eraseBelow, List.lookup_cons, List.lookup_nil]

theorem get?_children_spelledPass (members : Members) :
    (spelledPass members).get? "children" =
      (members.get? "children").map (onItems (eraseTree passSpelling)) := by
  simp [spelledPass, passSpelling, Members.get?_change, get?_eraseBelow, List.lookup_cons,
    List.lookup_nil]

theorem readPasses_spelled (table : PassTable) (values : List Json) :
    readPasses table (values.map (eraseTree passSpelling)) = readPasses table values := by
  induction values using Json.forestInduction "children" generalizing table with
  | nil => rfl
  | cons value rest below ih =>
      have first : readPass table (eraseTree passSpelling value) = readPass table value := by
        cases value with
        | object members =>
            have isObject : eraseTree passSpelling (.object members) =
                .object (spelledPass members) := by rw [eraseTree, spelledPass]
            rw [isObject, readPass, readPass, newPassId_spelled]
            simp only [passWithId_spelled, readSubPasses_eq]
            refine bind_congr fun id => bind_congr fun pass => ?_
            rw [listed_onItems .passChildren (get?_children_spelledPass members)
              fun items lists => below members items rfl lists _]
        | _ => rfl
      rw [List.map_cons, readPasses, readPasses, first]
      simp only [ih]

end Passes

section Records

variable (options : Options) (positions : NameMap Nat)

def spelledRecord (members : Members) : Members :=
  recordSpelling (eraseBelow recordSpelling members)

theorem get?_spelledRecord (key : String) (members : Members) :
    (spelledRecord members).get? key =
      if key = "pass" then (members.get? "pass").map spelled
      else if key = "children" then
        (members.get? "children").map (onItems (eraseTree recordSpelling))
      else members.get? key := by
  rw [spelledRecord, recordSpelling, Members.get?_change, get?_eraseBelow]
  by_cases isPass : key = "pass"
  · subst isPass
    rfl
  · rw [if_neg isPass, List.lookup_cons, beq_false_of_ne isPass]
    by_cases isChildren : key = "children" <;> simp [isChildren]

theorem readHeader_spelled (members : Members) :
    readHeader positions (spelledRecord members) = readHeader positions members := by
  have samePass : readOptional (readPassReference positions) "pass" (spelledRecord members) =
      readOptional (readPassReference positions) "pass" members := by
    rw [readOptional, readOptional, get?_spelledRecord, if_pos rfl]
    cases members.get? "pass" with
    | none => rfl
    | some value => simp [readPassReference_spelled]
  rw [readHeader, readHeader, samePass]
  simp [string, required, optionalString, readOptional, get?_spelledRecord]

theorem readRecords_spelled (values : List Json) :
    readRecords options positions (values.map (eraseTree recordSpelling)) =
      readRecords options positions values := by
  induction values using Json.forestInduction "children" with
  | nil => rfl
  | cons value rest below ih =>
      have first : readRecord options positions (eraseTree recordSpelling value) =
          readRecord options positions value := by
        cases value with
        | object members =>
            have isObject : eraseTree recordSpelling (.object members) =
                .object (spelledRecord members) := by rw [eraseTree, spelledRecord]
            have children :
                (listed .recordChildren "children" (spelledRecord members) >>=
                  readRecords options positions) =
                (listed .recordChildren "children" members >>= readRecords options positions) :=
              listed_onItems .recordChildren (by simp [get?_spelledRecord])
                fun items lists => below members items rfl lists
            rw [isObject, readRecord, readRecord, readHeader_spelled]
            simp only [readChildren_eq, children]
            simp [readMessage, readInlining, readOptional, required, get?_spelledRecord]
        | _ => rfl
      rw [List.map_cons, readRecords, readRecords, first, ih]

end Records

theorem readUnit_spelledOut (options : Options) (document : Json) :
    readUnit options (spelledOut document) = readUnit options document := by
  rw [spelledOut.eq_def]
  split
  case h_1 metadata passList recordList =>
    rw [readUnit, readUnit, spellMetadata]
    refine object_onMembers .metadata metadata fun members => ?_
    rw [scalar_change .metadata members rfl]
    refine bind_congr fun format => ?_
    have found : (Members.change [("format", spelled), ("generator", spellGenerator)] members).get?
        "generator" = (members.get? "generator").map spellGenerator := Members.get?_change _ _ _
    refine required_change .metadata found fun value => ?_
    rw [readGenerator_spelled]
    refine bind_congr fun generator => array_onItems .passList passList fun passes => ?_
    rw [readPasses_spelled]
    refine bind_congr fun table => array_onItems .recordList recordList fun records => ?_
    rw [readRecords_spelled]
  case h_2 => rfl

/-- The passes of a unit have the texts of the ids in the document, no two of them the same, and a
record belongs to the pass whose id has the text that the record gives. -/
theorem readUnit_ids {options : Options} {document : Json} {unit : CompilationUnit}
    (read : readUnit options document = .ok unit) :
    ∃ metadata passes records, document = .array [metadata, .array passes, .array records] ∧
      unit.passes.map (fun pass => some pass.id) = (passObjects passes).map (idText? "id") ∧
      (unit.passes.map (·.id)).Nodup ∧
      unit.allRecords.map (fun entry => (unit.passOf? entry.2).map (·.id)) =
        (recordObjects records).map (idText? "pass") := by
  have wellFormed := readUnit_wellFormed read
  obtain ⟨metadata, _, passes, records, table, isArray, _, _, _, readsPasses, readsRecords,
    samePasses, samePositions, _⟩ := readUnit_eq_ok.mp read
  have ids := congrArg (List.map Prod.fst) (readPasses_objects readsPasses)
  refine ⟨.object metadata, passes, records, isArray, ?_, wellFormed.distinctIds, ?_⟩
  · rw [PassTable.empty, List.map_nil, List.nil_append, List.map_map, List.map_map, samePasses] at ids
    exact ids
  · rw [CompilationUnit.allRecords_eq]
    have objects := readRecords_objects readsRecords 0
    rw [← List.forall₂_eq_eq_eq, List.forall₂_map_left_iff, List.forall₂_map_right_iff]
    rw [samePositions] at objects
    exact objects.imp fun entry members isRead => isRead.passOf?_id wellFormed.located

def FirstRepeated (known ids : List String) (id : String) : Prop :=
  ∃ before later, ids = before ++ id :: later ∧ (known ++ before).Nodup ∧ id ∈ known ++ before

namespace FirstRepeated

variable {known ids others : List String} {id : String}

theorem append (repeated : FirstRepeated known ids id) : FirstRepeated known (ids ++ others) id := by
  obtain ⟨before, later, rfl, distinct, member⟩ := repeated
  exact ⟨before, later ++ others, by simp, distinct, member⟩

theorem after (repeated : FirstRepeated (known ++ others) ids id) :
    FirstRepeated known (others ++ ids) id := by
  obtain ⟨before, later, rfl, distinct, member⟩ := repeated
  rw [List.append_assoc] at distinct member
  exact ⟨others ++ before, later, by simp, distinct, member⟩

end FirstRepeated

theorem newPassId_known {table : PassTable} {members : Members} {id : String}
    (hasId : Has members "id" fun value => scalarText? value = some id)
    (known : table.positions.get? id ≠ none) :
    newPassId table members = refuse (.duplicatePass id) := by
  have isKnown : table.positions.contains id = true := Option.isSome_iff_ne_none.mpr known
  rw [newPassId, scalar_eq_ok.mpr hasId]
  exact if_pos isKnown

/-- What is left to do for a pass once its own fields are read. -/
theorem readPass_object {table : PassTable} {members : Members} {id : String} {pass : Pass}
    {items : List Json} (newId : newPassId table members = .ok id)
    (fields : passWithId id members = .ok pass) (lists : Lists members "children" items) :
    readPass table (.object members) = (readPasses (table.register pass) items).map fun below =>
      (table.passes.length, below.2.adopt table.passes.length below.1) := by
  rw [readPass, newId]
  simp only [readSubPasses_eq, listed_eq_ok.mpr lists, fields, bind, Except.bind]
  cases readPasses (table.register pass) items <;> rfl

/-- Valid passes are all read, or the first id that is repeated is the fault. -/
theorem readPasses_forest {values : List Json} {ids : List String} {table : PassTable}
    (forest : PassForest values ids) (located : table.Located) :
    (∃ roots after, readPasses table values = .ok (roots, after) ∧
      after.passes.map (·.id) = table.passes.map (·.id) ++ ids) ∨
    ∃ id, FirstRepeated (table.passes.map (·.id)) ids id ∧
      readPasses table values = refuse (.duplicatePass id) := by
  induction forest generalizing table with
  | nil => exact Or.inl ⟨[], table, rfl, by simp⟩
  | @cons members id items below rest later fields lists _ _ ihBelow ihRest =>
      obtain ⟨hasId, pass, readsFields⟩ := passFields_iff.mp fields
      have sameId : pass.id = id := (passWithId_keeps readsFields).1
      by_cases fresh : table.positions.get? id = none
      case neg =>
        have known : id ∈ table.passes.map (·.id) :=
          not_imp_comm.mp located.get?_eq_none_iff.mpr fresh
        have refused : readPass table (.object members) = refuse (.duplicatePass id) := by
          rw [readPass, newPassId_known hasId fresh]
          rfl
        refine Or.inr ⟨id, ⟨[], below ++ later, rfl, ?_, ?_⟩, ?_⟩
        · simpa using located.nodup
        · simpa using known
        · rw [readPasses, refused]
          rfl
      case pos =>
        have newId : newPassId table members = .ok id := newPassId_eq_ok.mpr ⟨hasId, fresh⟩
        have registered : (table.register pass).passes.map (·.id) =
            table.passes.map (·.id) ++ [id] := by simp [PassTable.register, sameId]
        have readsPass := readPass_object newId readsFields lists
        rcases ihBelow (located.register (sameId ▸ fresh)) with
          ⟨children, inner, readsBelow, innerIds⟩ | ⟨other, repeated, refused⟩
        · rw [readsBelow] at readsPass
          have idsSoFar : (inner.adopt table.passes.length children).passes.map (·.id) =
              table.passes.map (·.id) ++ id :: below := by
            rw [PassTable.adopt, PassTable.map_id_modify, innerIds, registered, List.append_assoc]
            rfl
          have sofar := readPass_located located readsPass
          rcases ihRest sofar with ⟨roots, after, readsRest, allIds⟩ | ⟨other, repeated, refused⟩
          · refine Or.inl ⟨_, after, readPasses_cons_eq_ok.mpr
              ⟨_, _, roots, readsPass, readsRest, rfl⟩, ?_⟩
            rw [allIds, idsSoFar, List.append_assoc]
          · rw [idsSoFar] at repeated
            refine Or.inr ⟨other, repeated.after, ?_⟩
            rw [readPasses, readsPass]
            change (readPasses (inner.adopt table.passes.length children) rest >>= _) = _
            rw [refused]
            rfl
        · rw [registered] at repeated
          refine Or.inr ⟨other, repeated.after.append, ?_⟩
          rw [readPasses, readsPass, refused]
          rfl

/-- Documents that agree once their identifiers are spelled out are read alike, down to the faults.
What counts of an identifier is its text: this decides to which pass a record belongs and whether
two passes are the same, and no integer has the text of a double. -/
theorem readUnit_spelling (options : Options) (document : Json) :
    readUnit options (spelledOut document) = readUnit options document ∧
    (∀ other, spelledOut other = spelledOut document →
      readUnit options other = readUnit options document) ∧
    (∀ unit, readUnit options document = .ok unit →
      ∃ metadata passes records, document = .array [metadata, .array passes, .array records] ∧
        unit.passes.map (fun pass => some pass.id) = (passObjects passes).map (idText? "id") ∧
        (unit.passes.map (·.id)).Nodup ∧
        unit.allRecords.map (fun entry => (unit.passOf? entry.2).map (·.id)) =
          (recordObjects records).map (idText? "pass")) ∧
    (∀ passes ids, PassForest passes ids →
      (ids.Nodup ∧ ∃ roots table, readPasses .empty passes = .ok (roots, table)) ∨
      ∃ before id later, ids = before ++ id :: later ∧ before.Nodup ∧ id ∈ before ∧
        readPasses .empty passes = refuse (.duplicatePass id)) ∧
    (∀ (value : Int) (number : Double),
      scalarText? (.number (.integer value)) ≠ scalarText? (.number (.double number))) := by
  refine ⟨readUnit_spelledOut options document, fun other same => ?_, fun unit => readUnit_ids,
    fun passes ids forest => ?_, fun value number same => ?_⟩
  · rw [← readUnit_spelledOut, same, readUnit_spelledOut]
  · rcases readPasses_forest forest PassTable.located_empty with
      ⟨roots, table, reads, sameIds⟩ | ⟨id, ⟨before, later, split, distinct, member⟩, refused⟩
    · have distinct := (readPasses_empty_accepts.mp ⟨roots, table, reads, sameIds⟩).2
      exact Or.inl ⟨by simpa [PassTable.empty] using distinct, roots, table, reads⟩
    · simp only [PassTable.empty, List.map_nil, List.nil_append] at distinct member
      exact Or.inr ⟨before, id, later, split, distinct, member, refused⟩
  · exact JsonNumber.text_integer_ne_double value number (Option.some.inj same)

end Document

end RemarkAtlas
