import RemarkAtlas.Json.Reader
import RemarkAtlas.Report.Summary

/-!
Reading a summary back.  A structure is an object with its members, each at most once, or an array
of its members in order; what is left out or null counts as absent.  Other members are ignored,
whatever they hold.
-/

namespace RemarkAtlas.SummaryReader

def readMembers : List (Bytes × Outline) → Option (List (String × Outline))
  | [] => some []
  | (body, value) :: rest => do
    let key ← JsonString.ofBody? body
    let members ← readMembers rest
    return (key, value) :: members

def fields? (keys : List String) : Outline → Option (List (Option Outline))
  | .object members => do
    let members ← readMembers members
    if keys.all fun key => members.countP (·.1 == key) ≤ 1 then
      return keys.map fun key => members.lookup key
    else none
  | .array items => if items.length = keys.length then some (items.map some) else none
  | _ => none

def text? : Outline → Option String
  | .string body => JsonString.ofBody? body
  | _ => none

def bool? : Outline → Option Bool
  | .bool value => some value
  | _ => none

def natural? (limit : Nat) : Outline → Option Nat
  | .number literal =>
    match literal.integer? with
    | some (.ofNat value) => if value < limit then some value else none
    | _ => none
  | _ => none

def word? (outline : Outline) : Option UInt64 := (natural? UInt64.size outline).map UInt64.ofNat

def lineNumber? (outline : Outline) : Option UInt32 :=
  (natural? UInt32.size outline).map UInt32.ofNat

def optional? {Value : Type} (read : Outline → Option Value) :
    Option Outline → Option (Option Value)
  | none => some none
  | some .null => some none
  | some outline => (read outline).map some

def readItems {Value : Type} (read : Outline → Option Value) : List Outline → Option (List Value)
  | [] => some []
  | outline :: rest => do
    let item ← read outline
    let items ← readItems read rest
    return item :: items

def list? {Value : Type} (read : Outline → Option Value) : Outline → Option (List Value)
  | .array items => readItems read items
  | _ => none

def location? (outline : Outline) : Option Location := do
  match ← fields? ["file", "line", "column"] outline with
  | [some file, some line, some column] =>
    return { file := ← text? file, line := ← lineNumber? line, column := ← lineNumber? column }
  | _ => none

def function? (outline : Outline) : Option FunctionEntry := do
  match ← fields? ["name", "translation_unit", "hotness", "source_file", "peak_location"]
    outline with
  | [some name, unit, hotness, sourceFile, peak] =>
    return {
      name := ← text? name
      unit := ← optional? text? unit
      hotness := ← optional? word? hotness
      sourceFile := ← optional? text? sourceFile
      peak := ← optional? location? peak }
  | _ => none

def pass? (outline : Outline) : Option PassSummary := do
  match ← fields? ["name", "top_level", "total"] outline with
  | [name, some topLevel, some total] =>
    return {
      name := ← optional? text? name
      topLevel := ← natural? UInt64.size topLevel
      total := ← natural? UInt64.size total }
  | _ => none

def record? (outline : Outline) : Option HotRecord := do
  match ← fields? ["kind", "pass", "function", "location", "count", "message"] outline with
  | [some kind, pass, function, location, count, some message] =>
    return {
      kind := ← text? kind
      pass := ← optional? text? pass
      function := ← optional? text? function
      location := ← optional? location? location
      count := ← optional? word? count
      message := ← text? message }
  | _ => none

def summary? (outline : Outline) : Option Summary := do
  match ← fields? ["version", "translation_units", "precise_counts_only", "functions", "passes",
    "hottest_records", "generated_at"] outline with
  | [some version, some unitCount, some preciseOnly, some functions, some passes, some hottest,
      some generatedAt] =>
    return {
      version := ← text? version
      unitCount := ← natural? UInt64.size unitCount
      preciseOnly := ← bool? preciseOnly
      functions := ← list? function? functions
      passes := ← list? pass? passes
      hottest := ← list? record? hottest
      generatedAt := ← text? generatedAt }
  | _ => none

def ofBytes? (content : Bytes) : Option Summary := (Outline.ofBytes? content).bind summary?

end RemarkAtlas.SummaryReader
