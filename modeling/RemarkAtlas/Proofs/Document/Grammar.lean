import Mathlib.Data.List.Forall2
import RemarkAtlas.Document.Records
import RemarkAtlas.Proofs.Document.Reading

/-!
The grammar of documents, without an order in which anything is looked at.  Ids and block indices
are compared across a whole document or graph, so a reference may lead forward as well as back.
-/

namespace RemarkAtlas.Document

def Has (members : Members) (key : String) (valid : Json → Prop) : Prop :=
  ∃ value, members.get? key = some value ∧ valid value

def MayHave (members : Members) (key : String) (valid : Json → Prop) : Prop :=
  ∀ value, members.get? key = some value → valid value

def Lacks (members : Members) (key : String) : Prop := members.get? key = none

def IsString (value : Json) : Prop := ∃ text, value = .string text

def IsScalar (value : Json) : Prop := IsString value ∨ ∃ number, value = .number number

def IsInteger (least greatest : Int) (value : Json) : Prop :=
  ∃ integer, value = .number (.integer integer) ∧ least ≤ integer ∧ integer ≤ greatest

def IsLineNumber : Json → Prop := IsInteger 0 (UInt32.size - 1)

def IsArrayOf (valid : Json → Prop) (value : Json) : Prop :=
  ∃ items, value = .array items ∧ ∀ item ∈ items, valid item

def ValidLocation (value : Json) : Prop :=
  ∃ members, value = .object members ∧ Has members "file" IsString ∧
    Has members "line" IsLineNumber ∧ Has members "column" IsLineNumber

def ValidEmitter (value : Json) : Prop :=
  ∃ members, value = .object members ∧ Has members "file" IsString ∧
    Has members "line" IsLineNumber ∧ Has members "function" IsString

def NotNegative (value : Json) : Prop :=
  (∃ integer, value = .number (.integer integer) ∧ 0 ≤ integer) ∨
    ∃ double, value = .number (.double double) ∧ (double.negative = true → double.isZero = true)

def ValidCount (value : Json) : Prop :=
  ∃ members, value = .object members ∧ Has members "quality" IsString ∧
    Has members "value" NotNegative

def ValidFrame (value : Json) : Prop :=
  ∃ members, value = .object members ∧ Has members "fndecl" IsString ∧
    MayHave members "site" ValidLocation

def HasItemText (options : Options) (members : Members) : Prop :=
  Has members "expr" IsString ∨ Lacks members "expr" ∧
    (Has members "stmt" IsString ∨ Lacks members "stmt" ∧
      (Has members "symtab_node" IsString ∨ Lacks members "symtab_node" ∧
        options.nameAsSymbol = true ∧ Has members "name" IsString))

def ValidItem (options : Options) (value : Json) : Prop :=
  IsString value ∨ ∃ members, value = .object members ∧
    MayHave members "location" ValidLocation ∧ HasItemText options members

def ValidGenerator (value : Json) : Prop :=
  ∃ members, value = .object members ∧ Has members "name" IsScalar ∧
    Has members "pkgversion" IsScalar ∧ Has members "version" IsScalar ∧
    Has members "target" IsScalar

def ValidMetadata (value : Json) : Prop :=
  ∃ members, value = .object members ∧ Has members "format" IsScalar ∧
    Has members "generator" ValidGenerator

def ValidEdge (indices : List UInt64) (value : Json) : Prop :=
  ∃ members : Members, value = .object members ∧
    (∃ index ∈ indices, members.get? "dest" = some (.natural index.toNat)) ∧
    MayHave members "flags" (IsArrayOf IsString)

def ValidBlock (indices : List UInt64) (index : UInt64) (value : Json) : Prop :=
  ∃ members : Members, value = .object members ∧
    members.get? "index" = some (.natural index.toNat) ∧
    MayHave members "flags" (IsArrayOf IsString) ∧
    MayHave members "succs" (IsArrayOf (ValidEdge indices))

def ValidGraph (value : Json) : Prop :=
  ∃ (blocks : List Json) (indices : List UInt64), value = .array blocks ∧ indices.Nodup ∧
    List.Forall₂ (ValidBlock indices) indices blocks

structure PassFields (members : Members) (id : String) : Prop where
  id : Has members "id" fun value => scalarText? value = some id
  name : Has members "name" IsString
  number : Has members "num" (IsInteger Int64.minValue.toInt Int64.maxValue.toInt)
  groups : Has members "optgroups" (IsArrayOf IsString)
  type : Has members "type" IsString

inductive PassForest : List Json → List String → Prop
  | nil : PassForest [] []
  | cons {members id items below rest later} : PassFields members id →
      Lists members "children" items → PassForest items below → PassForest rest later →
      PassForest (.object members :: rest) (id :: below ++ later)

structure ValidHeader (known : List String) (kind : String) (members : Members) : Prop where
  kind : members.get? "kind" = some (.string kind)
  pass : MayHave members "pass" fun value => ∃ id ∈ known, scalarText? value = some id
  function : MayHave members "function" IsString

structure ValidDetails (options : Options) (members : Members) : Prop where
  message : Has members "message" (IsArrayOf (ValidItem options))
  inlining : MayHave members "inlining_chain" (IsArrayOf ValidFrame)
  emitter : MayHave members "impl_location" ValidEmitter
  count : MayHave members "count" ValidCount
  location : MayHave members "location" ValidLocation

inductive ValidRecord (options : Options) (known : List String) : Json → Prop
  | snapshot {members} : ValidHeader known "state" members → MayHave members "cfg" ValidGraph →
      ValidRecord options known (.object members)
  | remark {members kind items} : ValidHeader known kind members → kind ≠ "state" →
      ValidDetails options members → Lists members "children" items →
      (∀ item ∈ items, ValidRecord options known item) →
      ValidRecord options known (.object members)

def ValidDocument (options : Options) (document : Json) : Prop :=
  ∃ metadata passes records ids, document = .array [metadata, .array passes, .array records] ∧
    ValidMetadata metadata ∧ PassForest passes ids ∧ ids.Nodup ∧
    ∀ record ∈ records, ValidRecord options ids record

end RemarkAtlas.Document
