import RemarkAtlas.Record.FlowGraph
import RemarkAtlas.Record.Location

/-!
Optimization records.  A remark reports one decision of the compiler and may hold the decisions that
led to it; a snapshot shows a function's control flow at one moment.
-/

namespace RemarkAtlas

structure Count where
  quality : String
  value : UInt64
  deriving DecidableEq, Repr

def Count.preciseQualities : List String := ["precise", "adjusted"]

def Count.isPrecise (count : Count) : Bool := preciseQualities.contains count.quality

structure InliningFrame where
  function : String
  site : Option Location
  deriving DecidableEq, Repr

inductive MessageItem where
  | plain (text : String)
  | expression (text : String) (location : Option Location)
  | statement (text : String) (location : Option Location)
  | symbol (text : String) (location : Option Location)
  deriving DecidableEq, Repr

namespace MessageItem

def text : MessageItem → String
  | plain text => text
  | expression text _ => text
  | statement text _ => text
  | symbol text _ => text

def location? : MessageItem → Option Location
  | plain _ => none
  | expression _ location => location
  | statement _ location => location
  | symbol _ location => location

def isPlain : MessageItem → Bool
  | plain _ => true
  | _ => false

end MessageItem

inductive Kind where
  | success
  | failure
  | note
  | scope
  | state
  | other (tag : String)
  deriving DecidableEq, Repr

namespace Kind

def tag : Kind → String
  | success => "success"
  | failure => "failure"
  | note => "note"
  | scope => "scope"
  | state => "state"
  | other tag => tag

def ofTag (tag : String) : Kind :=
  if tag = "success" then success
  else if tag = "failure" then failure
  else if tag = "note" then note
  else if tag = "scope" then scope
  else if tag = "state" then state
  else other tag

end Kind

/-- What remarks and snapshots share; a pass is named by its position in the unit's pass list. -/
structure Header where
  kind : Kind
  pass : Option Nat
  function : Option String
  deriving DecidableEq, Repr

structure Details where
  emitter : Option CompilerLocation
  message : List MessageItem
  count : Option Count
  location : Option Location
  inlining : Option (List InliningFrame)
  deriving DecidableEq, Repr

inductive Record where
  | remark (header : Header) (details : Details) (children : List Record)
  | snapshot (header : Header) (graph : Option FlowGraph)
  deriving Repr

namespace Record

def header : Record → Header
  | remark header _ _ => header
  | snapshot header _ => header

def kind (record : Record) : Kind := record.header.kind

def pass? (record : Record) : Option Nat := record.header.pass

def function? (record : Record) : Option String := record.header.function

def isSnapshot : Record → Bool
  | remark _ _ _ => false
  | snapshot _ _ => true

def details? : Record → Option Details
  | remark _ details _ => some details
  | snapshot _ _ => none

def children : Record → List Record
  | remark _ _ children => children
  | snapshot _ _ => []

def graph? : Record → Option FlowGraph
  | remark _ _ _ => none
  | snapshot _ graph => graph

def location? (record : Record) : Option Location := record.details?.bind (·.location)

def count? (record : Record) : Option Count := record.details?.bind (·.count)

def emitter? (record : Record) : Option CompilerLocation := record.details?.bind (·.emitter)

def inlining? (record : Record) : Option (List InliningFrame) := record.details?.bind (·.inlining)

def message (record : Record) : List MessageItem :=
  match record.details? with
  | some details => details.message
  | none => []

def messageText (record : Record) : String := String.join (record.message.map (·.text))

mutual

def flatten (depth : Nat) : Record → List (Nat × Record)
  | remark header details children =>
    (depth, remark header details children) :: flattenAll (depth + 1) children
  | snapshot header graph => [(depth, snapshot header graph)]

def flattenAll (depth : Nat) : List Record → List (Nat × Record)
  | [] => []
  | record :: rest => flatten depth record ++ flattenAll depth rest

end

mutual

def effectiveOutcome : Record → Kind
  | remark header _ children =>
    if header.kind = .scope then lastOutcome header.kind children else header.kind
  | snapshot header _ => header.kind

def lastOutcome (outcome : Kind) : List Record → Kind
  | [] => outcome
  | [last] => effectiveOutcome last
  | _ :: rest => lastOutcome outcome rest

end

end Record

end RemarkAtlas
