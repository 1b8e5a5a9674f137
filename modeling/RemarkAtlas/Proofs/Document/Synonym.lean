import RemarkAtlas.Document.Reader
import RemarkAtlas.Proofs.Document.Forest

/-!
To take `name` for the key of a symbol is a conservative extension.  The two ways to read a document
part at the first message item that has this key and no other one; without such an item they end
alike.
-/

namespace RemarkAtlas.Document

def Options.strict : Options := { nameAsSymbol := false }

def Options.lenient : Options := { nameAsSymbol := true }

def NamedOnly (item : Json) : Prop :=
  ∃ members : Members, item = .object members ∧ itemKey? .strict members = none ∧
    itemKey? .lenient members = some "name"

/-- The second result is the first one, unless this refuses an item that the synonym explains. -/
inductive Widens {α : Type} : Reading α → Reading α → Prop
  | same (result : Reading α) : Widens result result
  | refused {item : Json} (named : NamedOnly item) (result : Reading α) :
      Widens (.error (.unrecognizedItem item)) result

variable {α β : Type}

theorem Widens.bind {first second : Reading α} {next other : α → Reading β}
    (widens : Widens first second)
    (nextWidens : ∀ value, first = .ok value → Widens (next value) (other value)) :
    Widens (first >>= next) (second >>= other) := by
  cases widens with
  | refused named => exact .refused named _
  | same =>
      -- The first run ends at the first difference: up to there both have read the same values.
      cases first with
      | error fault => exact .same (.error fault)
      | ok value => exact nextWidens value rfl

theorem readEach_widens {read other : Json → Reading α}
    (widens : ∀ item, Widens (read item) (other item)) (items : List Json) :
    Widens (readEach read items) (readEach other items) := by
  induction items with
  | nil => exact .same _
  | cons item rest ih =>
      rw [readEach, readEach]
      exact (widens item).bind fun _ _ => ih.bind fun _ _ => .same _

/-- The synonym comes after all other keys. -/
theorem itemKey?_lenient (members : Members) :
    itemKey? .lenient members =
      (itemKey? .strict members).or
        (if (members.get? "name").isSome then some "name" else none) := by
  simp only [itemKey?, Options.strict, Options.lenient]
  grind

theorem readItem_widens (item : Json) :
    Widens (readItem .strict item) (readItem .lenient item) := by
  cases item with
  | object members =>
      refine (Widens.same (readOptional readLocation "location" members)).bind fun location _ => ?_
      have later := itemKey?_lenient members
      cases isKey : itemKey? .strict members with
      | some key =>
          rw [isKey, Option.some_or] at later
          rw [later]
          exact .same _
      | none =>
          rw [isKey, Option.none_or] at later
          by_cases named : (Members.get? "name" members).isSome = true
          · rw [if_pos named] at later
            exact .refused ⟨members, rfl, isKey, later⟩ _
          · rw [if_neg named] at later
            rw [later]
            exact .same _
  | _ => exact .same _

theorem readMessage_widens (members : Members) :
    Widens (readMessage .strict members) (readMessage .lenient members) :=
  (Widens.same _).bind fun _ _ => (Widens.same _).bind fun items _ =>
    readEach_widens readItem_widens items

section Records

variable (positions : NameMap Nat)

theorem readRecord_widens {value : Json}
    (below : ∀ members items, value = .object members → Lists members "children" items →
      Widens (readRecords .strict positions items) (readRecords .lenient positions items)) :
    Widens (readRecord .strict positions value) (readRecord .lenient positions value) := by
  cases value with
  | object members =>
      rw [readRecord, readRecord]
      refine (Widens.same _).bind fun header _ => ?_
      split
      case isTrue => exact .same _
      case isFalse =>
        rw [readChildren_eq, readChildren_eq]
        refine (readMessage_widens members).bind fun message _ => ?_
        refine (Widens.same _).bind fun inlining _ => ?_
        refine Widens.bind ?_ fun children _ => .same _
        refine (Widens.same _).bind fun items isListed => ?_
        exact below members items rfl (listed_eq_ok.mp isListed)
  | _ => exact .same _

theorem readRecords_widens (values : List Json) :
    Widens (readRecords .strict positions values) (readRecords .lenient positions values) := by
  induction values using Json.forestInduction "children" with
  | nil => exact .same _
  | cons value rest below ih =>
      rw [readRecords, readRecords]
      exact (readRecord_widens positions below).bind fun _ _ => ih.bind fun _ _ => .same _

end Records

theorem readUnit_widens (document : Json) :
    Widens (readUnit .strict document) (readUnit .lenient document) := by
  rw [readUnit.eq_def, readUnit.eq_def]
  split
  case h_1 metadata passList recordList =>
    refine (Widens.same _).bind fun members _ => ?_
    refine (Widens.same _).bind fun format _ => ?_
    refine (Widens.same _).bind fun written _ => ?_
    refine (Widens.same _).bind fun generator _ => ?_
    refine (Widens.same _).bind fun passes _ => ?_
    refine (Widens.same _).bind fun table _ => ?_
    refine (Widens.same _).bind fun values _ => ?_
    exact (readRecords_widens table.2.positions values).bind fun _ _ => .same _
  case h_2 => exact .same _

/-- What is read without the synonym is read with it, other faults than the refusal of an item stay,
and where the two results differ an item was refused that has no key but the synonym. -/
theorem readUnit_synonym (document : Json) :
    (∀ unit, readUnit .strict document = .ok unit → readUnit .lenient document = .ok unit) ∧
    (∀ fault, readUnit .strict document = .error fault →
      (∀ item, fault ≠ .unrecognizedItem item) → readUnit .lenient document = .error fault) ∧
    (∀ fault, readUnit .lenient document = .error fault →
      readUnit .strict document = .error fault ∨
        ∃ item, NamedOnly item ∧ readUnit .strict document = .error (.unrecognizedItem item)) := by
  have widens := readUnit_widens document
  generalize readUnit .strict document = first at widens
  generalize readUnit .lenient document = second at widens
  cases widens with
  | same result => exact ⟨fun _ read => read, fun _ failed _ => failed, fun _ failed => Or.inl failed⟩
  | @refused item named =>
      refine ⟨fun _ read => (nomatch read), fun fault failed others => ?_, fun _ _ => ?_⟩
      · obtain rfl : DocumentFault.unrecognizedItem item = fault := by simpa using failed
        exact absurd rfl (others item)
      · exact Or.inr ⟨item, named, rfl⟩

example :
    readItem .strict (.object [("name", .string "f/1")]) =
      .error (.unrecognizedItem (.object [("name", .string "f/1")])) ∧
    readItem .lenient (.object [("name", .string "f/1")]) = .ok (.symbol "f/1" none) ∧
    readItem .lenient (.object [("name", .string "f/1"), ("stmt", .string "x = 1;")]) =
      .ok (.statement "x = 1;" none) :=
  ⟨rfl, rfl, rfl⟩

end RemarkAtlas.Document
