import RemarkAtlas.Document.Field
import RemarkAtlas.Record.Unit

/-!
The pass list of a document.  Passes are put into a table as they are read, each before its
sub-passes; a pass learns the positions of its sub-passes when these have been read.
-/

namespace RemarkAtlas.Document

structure PassTable where
  passes : List Pass
  positions : NameMap Nat

namespace PassTable

def empty : PassTable := ⟨[], .empty⟩

def register (table : PassTable) (pass : Pass) : PassTable :=
  { passes := table.passes ++ [pass]
    positions := table.positions.insert pass.id table.passes.length }

def adopt (table : PassTable) (position : Nat) (children : List Nat) : PassTable :=
  { table with passes := table.passes.modify position fun pass => { pass with children } }

end PassTable

def newPassId (table : PassTable) (members : Members) : Reading String := do
  let id ← scalar .pass "id" members
  if table.positions.contains id then refuse (.duplicatePass id) else return id

def passWithId (id : String) (members : Members) : Reading Pass := do
  let groups ← names .optionGroups (← required .pass "optgroups" members)
  let name ← string .pass "name" members
  let number ← demand (.passNumber id) (← required .pass "num" members).asInt64?
  let type ← string .pass "type" members
  return { id, name, number, groups, type, children := [] }

mutual

def readPass (table : PassTable) : Json → Reading (Nat × PassTable)
  | .object members => do
    let id ← newPassId table members
    let pass ← passWithId id members
    let position := table.passes.length
    let (children, table) ← readSubPasses (table.register pass) members
    return (position, table.adopt position children)
  | _ => refuse (.notObject .pass)

def readPasses (table : PassTable) : List Json → Reading (List Nat × PassTable)
  | [] => .ok ([], table)
  | value :: rest => do
    let (position, table) ← readPass table value
    let (positions, table) ← readPasses table rest
    return (position :: positions, table)

def readSubPasses (table : PassTable) : List (String × Json) → Reading (List Nat × PassTable)
  | [] => .ok ([], table)
  | (key, value) :: rest =>
    if key = "children" then
      match value with
      | .array items => readPasses table items
      | _ => refuse (.notArray .passChildren)
    else readSubPasses table rest

end

end RemarkAtlas.Document
