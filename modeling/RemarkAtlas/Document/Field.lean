import RemarkAtlas.Document.Fault
import RemarkAtlas.Order.NameSet

/-!
Reading the members of a document's objects.
-/

namespace RemarkAtlas.Document

abbrev Reading := Except DocumentFault

def refuse {α : Type} (rule : Malformation) : Reading α := .error (.malformed rule)

def demand {α : Type} (rule : Malformation) : Option α → Reading α
  | some value => .ok value
  | none => refuse rule

def object (part : DocumentPart) : Json → Reading Members
  | .object members => .ok members
  | _ => refuse (.notObject part)

def array (part : DocumentPart) : Json → Reading (List Json)
  | .array items => .ok items
  | _ => refuse (.notArray part)

def required (part : DocumentPart) (key : String) (members : Members) : Reading Json :=
  demand (.missing part key) (members.get? key)

def readEach {α : Type} (read : Json → Reading α) : List Json → Reading (List α)
  | [] => .ok []
  | value :: rest => do
    let first ← read value
    let others ← readEach read rest
    return first :: others

def readOptional {α : Type} (read : Json → Reading α) (key : String) (members : Members) :
    Reading (Option α) :=
  match members.get? key with
  | none => .ok none
  | some value => do return some (← read value)

def string (part : DocumentPart) (key : String) (members : Members) : Reading String := do
  demand (.notString part key) (← required part key members).asText?

def optionalString (part : DocumentPart) (key : String) (members : Members) :
    Reading (Option String) :=
  readOptional (fun value => demand (.notString part key) value.asText?) key members

/-- Identifiers and versions may be written as strings or as numbers; a number counts as its
text. -/
def scalarText? : Json → Option String
  | .string text => some text
  | .number number => some number.text
  | _ => none

def scalar (part : DocumentPart) (key : String) (members : Members) : Reading String := do
  demand (.notScalar part key) (scalarText? (← required part key members))

def lineNumber (part : DocumentPart) (key : String) (members : Members) : Reading UInt32 := do
  demand (.notLineNumber part key) (← required part key members).asUInt32?

def names (part : DocumentPart) (value : Json) : Reading NameSet := do
  let texts ← readEach (fun item => demand (.notStrings part) item.asText?) (← array part value)
  return NameSet.ofList texts

def optionalNames (part : DocumentPart) (key : String) (members : Members) : Reading NameSet := do
  return (← readOptional (names part) key members).getD .empty

end RemarkAtlas.Document
