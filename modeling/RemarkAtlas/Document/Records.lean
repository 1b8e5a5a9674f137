import RemarkAtlas.Document.Graph
import RemarkAtlas.Document.Passes

/-!
The records of a document.  A record of kind `state` holds a control-flow graph and nothing else is
read from it; every other record is a remark.  The members of a remark are read in a fixed order,
which decides the fault that is reported when there are several.
-/

namespace RemarkAtlas.Document

structure Options where
  /-- A symbol in a message may be called `name` instead of `symtab_node`. -/
  nameAsSymbol : Bool := false
  deriving DecidableEq, Repr

def readLocation (value : Json) : Reading Location := do
  let members ← object .location value
  let file ← string .location "file" members
  let line ← lineNumber .location "line" members
  let column ← lineNumber .location "column" members
  return { file, line, column }

def readEmitter (value : Json) : Reading CompilerLocation := do
  let members ← object .emitter value
  let file ← string .emitter "file" members
  let line ← lineNumber .emitter "line" members
  let function ← string .emitter "function" members
  return { file, line, function }

def greatestCount : Nat := UInt64.size - 1

/-- A count is the whole part of a number that is not below zero, limited to 64 bits. -/
def countValue? : Json → Option UInt64
  | .number (.integer value) =>
    if 0 ≤ value then some (UInt64.ofNat (min value.toNat greatestCount)) else none
  | .number (.double value) =>
    if value.negative && !value.isZero then none
    else some (UInt64.ofNat (min value.floor greatestCount))
  | _ => none

def readCount (value : Json) : Reading Count := do
  let members ← object .count value
  let quality ← string .count "quality" members
  let written ← required .count "value" members
  match countValue? written with
  | some value => return { quality, value }
  | none => .error (.invalidCount written)

def readFrame (value : Json) : Reading InliningFrame := do
  let members ← object .inliningFrame value
  let function ← string .inliningFrame "fndecl" members
  let site ← readOptional readLocation "site" members
  return { function, site }

/-- The key that tells what a message item is; of several the first in this order counts. -/
def itemKey? (options : Options) (members : Members) : Option String :=
  if (members.get? "expr").isSome then some "expr"
  else if (members.get? "stmt").isSome then some "stmt"
  else if (members.get? "symtab_node").isSome then some "symtab_node"
  else if options.nameAsSymbol && (members.get? "name").isSome then some "name"
  else none

def itemOfKey (key text : String) (location : Option Location) : MessageItem :=
  if key = "expr" then .expression text location
  else if key = "stmt" then .statement text location
  else .symbol text location

def readItem (options : Options) : Json → Reading MessageItem
  | .string text => .ok (.plain text)
  | .object members => do
    let location ← readOptional readLocation "location" members
    match itemKey? options members with
    | some key => return itemOfKey key (← string .messageItem key members) location
    | none => .error (.unrecognizedItem (.object members))
  | other => .error (.unrecognizedItem other)

def readMessage (options : Options) (members : Members) : Reading (List MessageItem) := do
  readEach (readItem options) (← array .message (← required .record "message" members))

def readInlining (members : Members) : Reading (Option (List InliningFrame)) :=
  readOptional (fun value => do readEach readFrame (← array .inliningChain value))
    "inlining_chain" members

def readPassReference (positions : NameMap Nat) (value : Json) : Reading Nat := do
  let id ← demand (.badPassReference value) (scalarText? value)
  match positions.get? id with
  | some position => return position
  | none => .error (.unknownPass id)

def readHeader (positions : NameMap Nat) (members : Members) : Reading Header := do
  let tag ← string .record "kind" members
  let pass ← readOptional (readPassReference positions) "pass" members
  let function ← optionalString .record "function" members
  return { kind := Kind.ofTag tag, pass, function }

mutual

def readRecord (options : Options) (positions : NameMap Nat) : Json → Reading Record
  | .object members => do
    let header ← readHeader positions members
    if header.kind = .state then
      return .snapshot header (← readOptional readGraph "cfg" members)
    else
      let message ← readMessage options members
      let inlining ← readInlining members
      let children ← readChildren options positions members
      let emitter ← readOptional readEmitter "impl_location" members
      let count ← readOptional readCount "count" members
      let location ← readOptional readLocation "location" members
      return .remark header { emitter, message, count, location, inlining } children
  | _ => refuse (.notObject .record)

def readRecords (options : Options) (positions : NameMap Nat) : List Json → Reading (List Record)
  | [] => .ok []
  | value :: rest => do
    let record ← readRecord options positions value
    let records ← readRecords options positions rest
    return record :: records

def readChildren (options : Options) (positions : NameMap Nat) :
    List (String × Json) → Reading (List Record)
  | [] => .ok []
  | (key, value) :: rest =>
    if key = "children" then
      match value with
      | .array items => readRecords options positions items
      | _ => refuse (.notArray .recordChildren)
    else readChildren options positions rest

end

end RemarkAtlas.Document
