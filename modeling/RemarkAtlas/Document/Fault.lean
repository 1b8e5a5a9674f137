import RemarkAtlas.Json.Printer

/-!
What can be wrong with a document, and how it is said.
-/

namespace RemarkAtlas

inductive DocumentPart where
  | metadata
  | generator
  | passList
  | pass
  | passChildren
  | optionGroups
  | recordList
  | record
  | recordChildren
  | message
  | messageItem
  | inliningChain
  | inliningFrame
  | location
  | emitter
  | count
  | graph
  | block
  | blockFlags
  | successors
  | edge
  | edgeFlags
  deriving DecidableEq, Repr

def DocumentPart.label : DocumentPart → String
  | metadata => "metadata"
  | generator => "generator"
  | passList => "pass list"
  | pass => "pass"
  | passChildren => "pass children"
  | optionGroups => "optgroups"
  | recordList => "record list"
  | record => "record"
  | recordChildren => "record children"
  | message => "message"
  | messageItem => "message item"
  | inliningChain => "inlining_chain"
  | inliningFrame => "inlining node"
  | location => "location"
  | emitter => "impl_location"
  | count => "count"
  | graph => "cfg"
  | block => "block"
  | blockFlags => "block flags"
  | successors => "succs"
  | edge => "edge"
  | edgeFlags => "edge flags"

inductive Malformation where
  | notThreeParts
  | notObject (part : DocumentPart)
  | notArray (part : DocumentPart)
  | missing (part : DocumentPart) (key : String)
  | notString (part : DocumentPart) (key : String)
  | notScalar (part : DocumentPart) (key : String)
  | notLineNumber (part : DocumentPart) (key : String)
  | notStrings (part : DocumentPart)
  | duplicatePass (id : String)
  | passNumber (id : String)
  | badPassReference (value : Json)
  | blockIndex
  | duplicateBlock (index : UInt64)
  | edgeTarget
  deriving Repr

def Malformation.text : Malformation → String
  | notThreeParts => "expected a 3-element array [metadata, passes, records]"
  | notObject part => part.label ++ " is not an object"
  | notArray part => part.label ++ " is not an array"
  | missing part key => part.label ++ " is missing '" ++ key ++ "'"
  | notString part key => part.label ++ ": '" ++ key ++ "' is not a string"
  | notScalar part key => part.label ++ ": '" ++ key ++ "' is not a string or number"
  | notLineNumber part key => part.label ++ ": '" ++ key ++ "' is not a valid number"
  | notStrings part => part.label ++ " must be strings"
  | duplicatePass id => "duplicate pass id " ++ id
  | passNumber id => "pass " ++ id ++ ": 'num' is not an integer"
  | badPassReference value => "bad pass id " ++ value.compact
  | blockIndex => "block 'index' is not a non-negative integer"
  | duplicateBlock index => "duplicate block index " ++ toString index.toNat
  | edgeTarget => "edge 'dest' is not a block index"

inductive DocumentFault where
  | malformed (rule : Malformation)
  | unknownPass (id : String)
  | unrecognizedItem (item : Json)
  | undefinedBlock (source target : UInt64)
  | invalidCount (value : Json)
  deriving Repr

def DocumentFault.message : DocumentFault → String
  | malformed rule => "Malformed document: " ++ rule.text
  | unknownPass id => "Record references unknown pass id: " ++ id
  | unrecognizedItem item => "Unrecognized message item: " ++ item.compact
  | undefinedBlock source target =>
    "CFG block " ++ toString source.toNat ++ " has an edge to undefined block " ++
      toString target.toNat
  | invalidCount value => "Invalid execution count: " ++ value.compact

end RemarkAtlas
