import RemarkAtlas.Proofs.Document.Acceptance
import RemarkAtlas.Proofs.Document.Erasure

/-!
Members that are not read never matter.  Reading a document and reading what is left of it without
them end alike, and the faults are found in the same order.
-/

namespace RemarkAtlas.Document

open Json (onMembers onItems)

/-- The same result, but a message item that is refused may be quoted with other members. -/
inductive Alike {α : Type} : Reading α → Reading α → Prop
  | same (result : Reading α) : Alike result result
  | unrecognized (item other : Json) :
      Alike (.error (.unrecognizedItem item)) (.error (.unrecognizedItem other))

variable {α β : Type} {members erased : Members} {change : Json → Json}

namespace Alike

theorem of_eq {first second : Reading α} (same : first = second) : Alike first second := by
  rw [same]
  exact .same second

theorem bind {first second : Reading α} {next other : α → Reading β} (alike : Alike first second)
    (nextAlike : ∀ value, second = .ok value → Alike (next value) (other value)) :
    Alike (first >>= next) (second >>= other) := by
  cases alike with
  | unrecognized item counterpart => exact .unrecognized item counterpart
  | same =>
      cases first with
      | error fault => exact .same (.error fault)
      | ok value => exact nextAlike value rfl

theorem symm {first second : Reading α} (alike : Alike first second) : Alike second first := by
  cases alike with
  | same => exact .same first
  | unrecognized item other => exact .unrecognized other item

theorem trans {first second third : Reading α} (left : Alike first second)
    (right : Alike second third) : Alike first third := by
  cases left with
  | same => exact right
  | unrecognized item other =>
      cases right with
      | same => exact .unrecognized item other
      | unrecognized _ last => exact .unrecognized item last

end Alike

section Combinators

variable {read : Json → Reading α} {key : String}

theorem readOptional_erased (found : erased.get? key = (members.get? key).map change)
    (alike : ∀ value, Alike (read (change value)) (read value)) :
    Alike (readOptional read key erased) (readOptional read key members) := by
  rw [readOptional, readOptional, found]
  cases members.get? key with
  | none => exact .same _
  | some value => exact (alike value).bind fun _ _ => .same _

theorem readEach_erased (alike : ∀ item, Alike (read (change item)) (read item))
    (items : List Json) : Alike (readEach read (items.map change)) (readEach read items) := by
  induction items with
  | nil => exact .same _
  | cons item rest ih =>
      rw [List.map_cons, readEach, readEach]
      exact (alike item).bind fun _ _ => ih.bind fun _ _ => .same _

theorem required_erased {next other : Json → Reading α} (part : DocumentPart)
    (found : erased.get? key = (members.get? key).map change)
    (alike : ∀ value, Alike (next (change value)) (other value)) :
    Alike (required part key erased >>= next) (required part key members >>= other) := by
  rw [required, required, found]
  cases members.get? key with
  | none => exact .same _
  | some value => exact alike value

variable {next other : Members → Reading α} {nextItems otherItems : List Json → Reading α}

/-- An object is read alike if what is looked for in it is among the members that are kept. -/
theorem object_erased {keep : Members → Members} (part : DocumentPart)
    (alike : ∀ members, Alike (next (keep members)) (other members)) (value : Json) :
    Alike (object part (onMembers keep value) >>= next) (object part value >>= other) := by
  cases value with
  | object members => exact alike members
  | _ => exact .same _

theorem array_erased (part : DocumentPart)
    (alike : ∀ items, Alike (nextItems (items.map change)) (otherItems items)) (value : Json) :
    Alike (array part (onItems change value) >>= nextItems) (array part value >>= otherItems) := by
  cases value with
  | array items => exact alike items
  | _ => exact .same _

theorem listed_erased (part : DocumentPart)
    (found : erased.get? key = (members.get? key).map (onItems change))
    (alike : ∀ items, Lists members key items →
      Alike (nextItems (items.map change)) (otherItems items)) :
    Alike (listed part key erased >>= nextItems) (listed part key members >>= otherItems) := by
  rw [listed, listed, found]
  cases isListed : members.get? key with
  | none => exact alike [] (Or.inr ⟨isListed, rfl⟩)
  | some value =>
      cases value with
      | array items => exact alike items (Or.inl isListed)
      | _ => exact .same _

end Combinators

theorem readLocation_erase (value : Json) :
    Alike (readLocation (eraseLocation value)) (readLocation value) := by
  refine object_erased .location (fun members => .of_eq ?_) value
  simp [string, lineNumber, required, whole]

theorem readEmitter_erase (value : Json) :
    Alike (readEmitter (eraseEmitter value)) (readEmitter value) := by
  refine object_erased .emitter (fun members => .of_eq ?_) value
  simp [string, lineNumber, required, whole]

theorem readCount_erase (value : Json) :
    Alike (readCount (eraseCount value)) (readCount value) := by
  refine object_erased .count (fun members => .of_eq ?_) value
  simp [string, required, whole]

theorem readFrame_erase (value : Json) :
    Alike (readFrame (eraseFrame value)) (readFrame value) := by
  refine object_erased .inliningFrame (fun members => ?_) value
  refine .bind (.of_eq (by simp [string, required, whole])) fun function _ => ?_
  exact (readOptional_erased (by simp) readLocation_erase).bind fun _ _ => .same _

theorem readGenerator_erase (value : Json) :
    Alike (readGenerator (eraseGenerator value)) (readGenerator value) := by
  refine object_erased .generator (fun members => .of_eq ?_) value
  simp [scalar, required, whole]

section Messages

variable (options : Options)

theorem wordKey?_eq (members : Members) : wordKey? options members = itemKey? options members := by
  rw [itemKey?, wordKey?, wordKeys]
  cases options.nameAsSymbol <;> grind

/-- The word of a message item is kept, and no other one comes before it. -/
theorem itemKey?_kept (members : Members) :
    itemKey? options (members.keep (itemFields options members)) = itemKey? options members ∧
      ∀ key, itemKey? options members = some key →
        (members.keep (itemFields options members)).get? key = members.get? key := by
  have kept : ∀ key, key ≠ "location" →
      (members.keep (itemFields options members)).get? key =
        if itemKey? options members = some key then members.get? key else none := by
    intro key notLocation
    rw [itemFields, wordKey?_eq]
    cases itemKey? options members <;> simp [whole, notLocation, eq_comm]
  generalize members.keep (itemFields options members) = rest at kept ⊢
  have expression := kept "expr" (by decide)
  have statement := kept "stmt" (by decide)
  have symbol := kept "symtab_node" (by decide)
  have name := kept "name" (by decide)
  cases isKey : itemKey? options members with
  | none =>
      simp only [isKey, reduceCtorEq, if_false] at expression statement symbol name
      simp [itemKey?, expression, statement, symbol, name]
  | some key =>
      rw [isKey] at expression statement symbol name
      rw [itemKey?] at isKey
      rw [itemKey?, expression, statement, symbol, name]
      grind

theorem readItem_erase (value : Json) :
    Alike (readItem options (eraseItem options value)) (readItem options value) := by
  cases value with
  | object members =>
      obtain ⟨sameKey, sameText⟩ := itemKey?_kept options members
      have found : (Members.keep (itemFields options members) members).get? "location" =
          (Members.get? "location" members).map eraseLocation := by simp [itemFields]
      refine (readOptional_erased found readLocation_erase).bind fun location _ => ?_
      rw [sameKey]
      cases isKey : itemKey? options members with
      | none => exact .unrecognized _ _
      | some key =>
          have text : string .messageItem key (Members.keep (itemFields options members) members) =
              string .messageItem key members := by
            rw [string, string, required, required, sameText key isKey]
          dsimp only
          rw [text]
          exact .same _
  | _ => exact .same _

theorem readMessage_erased
    (found : erased.get? "message" = (members.get? "message").map (onItems (eraseItem options))) :
    Alike (readMessage options erased) (readMessage options members) := by
  refine required_erased .record found fun value => ?_
  exact array_erased .message (readEach_erased (readItem_erase options)) value

theorem readInlining_erased
    (found : erased.get? "inlining_chain" =
      (members.get? "inlining_chain").map (onItems eraseFrame)) :
    Alike (readInlining erased) (readInlining members) :=
  readOptional_erased found (array_erased .inliningChain (readEach_erased readFrame_erase))

end Messages

section Graphs

variable {indices : List UInt64}

theorem readBlock_erase (seen : List UInt64) (value : Json) :
    Alike (readBlock seen (eraseBlock value)) (readBlock seen value) := by
  refine object_erased .block (fun members => .of_eq ?_) value
  simp [newBlockIndex, optionalNames, readOptional, required, whole]

theorem readBlocks_erase (seen : List UInt64) (values : List Json) :
    Alike (readBlocks seen (values.map eraseBlock)) (readBlocks seen values) := by
  induction values generalizing seen with
  | nil => exact .same _
  | cons value rest ih =>
      rw [List.map_cons, readBlocks, readBlocks]
      exact (readBlock_erase seen value).bind fun block _ => (ih _).bind fun _ _ => .same _

theorem readEdge_erase (source : Nat) (index : UInt64) (value : Json) :
    Alike (readEdge indices source index (eraseEdge value))
      (readEdge indices source index value) := by
  refine object_erased .edge (fun members => .of_eq ?_) value
  simp [optionalNames, readOptional, required, whole]

theorem readSuccessors_erased (source : Nat) (index : UInt64)
    (found : erased.get? "succs" = (members.get? "succs").map (onItems eraseEdge)) :
    Alike (readSuccessors indices source index erased)
      (readSuccessors indices source index members) := by
  rw [readSuccessors, readSuccessors, found]
  cases members.get? "succs" with
  | none => exact .same _
  | some value =>
      exact array_erased .successors (readEach_erased (readEdge_erase source index)) value

theorem readEdges_erase (source : Nat) (values : List (UInt64 × Json)) :
    Alike (readEdges indices source (values.map (Prod.map id eraseBlock)))
      (readEdges indices source values) := by
  induction values generalizing source with
  | nil => exact .same _
  | cons first rest ih =>
      obtain ⟨index, value⟩ := first
      rw [List.map_cons, Prod.map_apply, readEdges, readEdges]
      refine object_erased .block (fun members => ?_) value
      refine (readSuccessors_erased source _ (by simp)).bind fun edges _ => ?_
      exact (ih _).bind fun _ _ => .same _

theorem readGraph_erase (value : Json) :
    Alike (readGraph (eraseGraph value)) (readGraph value) := by
  refine array_erased .graph (fun values => ?_) value
  refine (readBlocks_erase [] values).bind fun blocks _ => ?_
  dsimp only
  rw [List.zip_map_right]
  exact (readEdges_erase 0 _).bind fun _ _ => .same _

end Graphs

theorem readPasses_erase (table : PassTable) (values : List Json) :
    Alike (readPasses table (values.map erasePass)) (readPasses table values) := by
  induction values using Json.forestInduction "children" generalizing table with
  | nil => exact .same _
  | cons value rest below ih =>
      have first : Alike (readPass table (erasePass value)) (readPass table value) := by
        cases value with
        | object members =>
            have children : Members.get? "children" (Members.keep (whole passKeys)
                (eraseBelow (Members.keep (whole passKeys)) members)) =
                (Members.get? "children" members).map (onItems erasePass) := by
              simp [whole, passKeys, get?_eraseBelow, erasePass]
            rw [erasePass, eraseTree, readPass, readPass]
            refine .bind (.of_eq ?_) fun id _ => .bind (.of_eq ?_) fun pass _ => ?_
            · simp [newPassId, scalar, required, whole, passKeys, get?_eraseBelow]
            · simp [passWithId, string, required, whole, passKeys, get?_eraseBelow]
            · rw [readSubPasses_eq, readSubPasses_eq]
              refine .bind (listed_erased .passChildren children fun items lists => ?_)
                fun _ _ => .same _
              exact below members items rfl lists _
        | _ => exact .same _
      rw [List.map_cons, readPasses, readPasses]
      exact first.bind fun _ _ => (ih _).bind fun _ _ => .same _

section Records

variable (options : Options) (positions : NameMap Nat)

def recordMembers (members : Members) : Members :=
  recordOwn options (eraseBelow (recordOwn options) members)

theorem eraseRecord_object (members : Members) :
    eraseRecord options (.object members) = .object (recordMembers options members) := by
  rw [eraseRecord, eraseTree, recordMembers]

theorem isState_eraseBelow (own : Members → Members) (members : Members) :
    isState (eraseBelow own members) = isState members := by
  rw [isState, isState, get?_eraseBelow, if_neg (by decide)]

theorem readHeader_recordMembers (members : Members) :
    readHeader positions (recordMembers options members) = readHeader positions members := by
  simp [readHeader, optionalString, readOptional, string, required, recordMembers, recordOwn,
    recordFields, whole, get?_eraseBelow]

/-- Of a state record the graph is kept. -/
theorem get?_recordMembers_state (members : Members) (state : isState members = true) :
    (recordMembers options members).get? "cfg" = (members.get? "cfg").map eraseGraph := by
  simp [recordMembers, recordOwn, recordFields, whole, get?_eraseBelow, isState_eraseBelow, state]

structure KeepsDetails (members erased : Members) : Prop where
  message : erased.get? "message" = (members.get? "message").map (onItems (eraseItem options))
  inlining : erased.get? "inlining_chain" =
    (members.get? "inlining_chain").map (onItems eraseFrame)
  children : erased.get? "children" = (members.get? "children").map (onItems (eraseRecord options))
  emitter : erased.get? "impl_location" = (members.get? "impl_location").map eraseEmitter
  count : erased.get? "count" = (members.get? "count").map eraseCount
  location : erased.get? "location" = (members.get? "location").map eraseLocation

theorem keepsDetails (members : Members) (notState : isState members = false) :
    KeepsDetails options members (recordMembers options members) := by
  constructor <;>
    simp [recordMembers, recordOwn, recordFields, whole, get?_eraseBelow, isState_eraseBelow,
      notState, eraseRecord]

theorem readRecord_erase {value : Json}
    (below : ∀ members items, value = .object members → Lists members "children" items →
      Alike (readRecords options positions (items.map (eraseRecord options)))
        (readRecords options positions items)) :
    Alike (readRecord options positions (eraseRecord options value))
      (readRecord options positions value) := by
  cases value with
  | object members =>
      rw [eraseRecord_object, readRecord, readRecord, readHeader_recordMembers]
      refine (Alike.same _).bind fun header reads => ?_
      obtain ⟨⟨tag, hasTag, isKind⟩, _⟩ := readHeader_eq_ok.mp reads
      have isState_eq : isState members = true ↔ header.kind = .state := by
        rw [isKind, ofTag_eq_state, isState, hasTag]
        simp [Json.asText?]
      split
      case isTrue state =>
        have graph := get?_recordMembers_state options members (isState_eq.mpr state)
        exact (readOptional_erased graph readGraph_erase).bind fun _ _ => .same _
      case isFalse notState =>
        have keeps := keepsDetails options members
          (Bool.eq_false_iff.mpr fun state => notState (isState_eq.mp state))
        rw [readChildren_eq, readChildren_eq]
        refine (readMessage_erased options keeps.message).bind fun message _ => ?_
        refine (readInlining_erased keeps.inlining).bind fun inlining _ => ?_
        refine (listed_erased .recordChildren keeps.children fun items lists =>
          below members items rfl lists).bind fun children _ => ?_
        refine (readOptional_erased keeps.emitter readEmitter_erase).bind fun emitter _ => ?_
        refine (readOptional_erased keeps.count readCount_erase).bind fun count _ => ?_
        exact (readOptional_erased keeps.location readLocation_erase).bind fun _ _ => .same _
  | _ => exact .same _

theorem readRecords_erase (values : List Json) :
    Alike (readRecords options positions (values.map (eraseRecord options)))
      (readRecords options positions values) := by
  induction values using Json.forestInduction "children" with
  | nil => exact .same _
  | cons value rest below ih =>
      rw [List.map_cons, readRecords, readRecords]
      exact (readRecord_erase options positions below).bind fun _ _ => ih.bind fun _ _ => .same _

end Records

theorem readUnit_erase (options : Options) (document : Json) :
    Alike (readUnit options (eraseUnread options document)) (readUnit options document) := by
  rw [eraseUnread.eq_def]
  split
  case h_1 metadata passList recordList =>
    rw [readUnit, readUnit]
    refine object_erased .metadata (fun members => ?_) metadata
    have found : (members.keep (("generator", eraseGenerator) :: whole ["format"])).get?
        "generator" = (members.get? "generator").map eraseGenerator := by simp
    refine .bind (.of_eq (by simp [scalar, required, whole])) fun format _ => ?_
    refine required_erased .metadata found fun value => ?_
    refine (readGenerator_erase value).bind fun generator _ => ?_
    refine array_erased .passList (fun values => ?_) passList
    refine (readPasses_erase .empty values).bind fun passes _ => ?_
    refine array_erased .recordList (fun values => ?_) recordList
    exact (readRecords_erase options _ values).bind fun _ _ => .same _
  case h_2 => exact .same _

/-- What is not read has no influence: documents that differ only there are read alike. -/
theorem readUnit_unread (options : Options) (document : Json) :
    Alike (readUnit options (eraseUnread options document)) (readUnit options document) ∧
      ∀ other, eraseUnread options other = eraseUnread options document →
        Alike (readUnit options other) (readUnit options document) := by
  refine ⟨readUnit_erase options document, fun other sameRest => ?_⟩
  have left := readUnit_erase options other
  rw [sameRest] at left
  exact left.symm.trans (readUnit_erase options document)

example :
    eraseRecord {} (.object [("cfg", .null), ("kind", .string "note"), ("message", .array
        [.object [("expr", .string "x"), ("name", .null), ("stmt", .null)]]), ("other", .null)]) =
      .object [("kind", .string "note"), ("message", .array
        [.object [("expr", .string "x")]])] ∧
    eraseRecord {} (.object [("cfg", .null), ("kind", .string "state"), ("message", .null)]) =
      .object [("cfg", .null), ("kind", .string "state")] :=
  ⟨rfl, rfl⟩

end RemarkAtlas.Document
