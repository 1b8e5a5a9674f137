import RemarkAtlas.Number.Double
import RemarkAtlas.Order.NameMap

/-!
JSON values.  Integers and doubles are told apart: `1` is an integer, `1.0` and `1e0` are doubles.
The members of an object are kept in a list; values that were read from a text list them in
ascending order of their keys, each key once.
-/

namespace RemarkAtlas

inductive JsonNumber where
  | integer (value : Int)
  | double (value : Double)
  deriving DecidableEq, Repr, Inhabited

inductive Json where
  | null
  | bool (value : Bool)
  | number (value : JsonNumber)
  | string (value : String)
  | array (items : List Json)
  | object (members : List (String × Json))
  deriving Repr, Inhabited

abbrev Members := List (String × Json)

namespace Json

def natural (value : Nat) : Json := .number (.integer value)

def asText? : Json → Option String
  | .string value => some value
  | _ => none

def asUInt64? : Json → Option UInt64
  | .number (.integer value) =>
    if 0 ≤ value ∧ value < UInt64.size then some (UInt64.ofNat value.toNat) else none
  | _ => none

def asUInt32? : Json → Option UInt32
  | .number (.integer value) =>
    if 0 ≤ value ∧ value < UInt32.size then some (UInt32.ofNat value.toNat) else none
  | _ => none

def asInt64? : Json → Option Int64
  | .number (.integer value) =>
    if Int64.minValue.toInt ≤ value ∧ value ≤ Int64.maxValue.toInt then some (Int64.ofInt value)
    else none
  | _ => none

end Json

namespace Members

def get? (key : String) (members : Members) : Option Json := List.lookup key members

@[simp] theorem get?_nil (key : String) : get? key [] = none := rfl

@[simp] theorem get?_cons (key other : String) (value : Json) (rest : Members) :
    get? key ((other, value) :: rest) = if key = other then some value else get? key rest := by
  by_cases same : key = other
  · simp [get?, same]
  · simp [get?, List.lookup_cons, same, beq_false_of_ne same]

@[simp] theorem get?_append (key : String) (left right : Members) :
    get? key (left ++ right) = (get? key left).or (get? key right) :=
  List.lookup_append

def put (key : String) (value : Json) (members : Members) : Members :=
  NameMap.insertEntry key value members

def ofList (members : List (String × Json)) : Members :=
  members.foldl (fun placed member => placed.put member.1 member.2) []

end Members

end RemarkAtlas
