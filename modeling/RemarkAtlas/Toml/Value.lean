/-!
TOML values, and the rules by which keys and headers build up tables.  A table remembers how it came
about, because that decides what may be added to it later.
-/

namespace RemarkAtlas

/-- How a table came about. -/
inductive TomlOrigin where
  /-- Written in braces; nothing can be added. -/
  | braces
  /-- Written as a header of its own. -/
  | header
  /-- Part of a longer header. -/
  | implied
  /-- Part of a dotted key. -/
  | dotted
  deriving DecidableEq, Repr

inductive Toml where
  | boolean (value : Bool)
  | string (value : String)
  | literal (text : String)
  | array (items : List Toml)
  | table (origin : TomlOrigin) (members : List (String × Toml))
  | tables (reversed : List (List (String × Toml)))
  deriving Repr, Inhabited

abbrev TomlMembers := List (String × Toml)

namespace TomlMembers

def put (key : String) (value : Toml) : TomlMembers → TomlMembers
  | [] => [(key, value)]
  | (other, previous) :: rest =>
    if key = other then (other, value) :: rest else (other, previous) :: put key value rest

def putNew? (key : String) (value : Toml) (members : TomlMembers) : Option TomlMembers :=
  match members.lookup key with
  | none => some (members ++ [(key, value)])
  | some _ => none

/-- Changes the table at the end of a header's keys; missing tables on the way are implied.  Under
double brackets the last table is meant. -/
def changeUnder? (change : TomlMembers → Option TomlMembers) :
    List String → TomlMembers → Option TomlMembers
  | [], members => change members
  | key :: keys, members =>
    match members.lookup key with
    | none => do
      let inner ← changeUnder? change keys []
      return members ++ [(key, .table .implied inner)]
    | some (.table .braces _) => none
    | some (.table origin inner) => do
      let inner ← changeUnder? change keys inner
      return members.put key (.table origin inner)
    | some (.tables (last :: before)) => do
      let last ← changeUnder? change keys last
      return members.put key (.tables (last :: before))
    | some _ => none

/-- Gives a dotted key a value.  The table that gets it must have come from dotted keys, and no
table on the way may have a header. -/
def putDotted? (value : Toml) (key : String) : List String → TomlMembers → Option TomlMembers
  | [], members => putNew? key value members
  | outer :: keys, members =>
    match members.lookup outer with
    | none => do
      let inner ← putDotted? value key keys []
      return members ++ [(outer, .table .dotted inner)]
    | some (.table .dotted inner) => do
      let inner ← putDotted? value key keys inner
      return members.put outer (.table .dotted inner)
    | some (.table .implied inner) =>
      if keys.isEmpty then none
      else do
        let inner ← putDotted? value key keys inner
        return members.put outer (.table .implied inner)
    | some (.tables (last :: before)) =>
      if keys.isEmpty then none
      else do
        let last ← putDotted? value key keys last
        return members.put outer (.tables (last :: before))
    | some _ => none

def openTable? (key : String) (members : TomlMembers) : Option TomlMembers :=
  match members.lookup key with
  | none => some (members ++ [(key, .table .header [])])
  | some (.table .implied inner) => some (members.put key (.table .header inner))
  | some _ => none

def openNextTable? (key : String) (members : TomlMembers) : Option TomlMembers :=
  match members.lookup key with
  | none => some (members ++ [(key, .tables [[]])])
  | some (.tables reversed) => some (members.put key (.tables ([] :: reversed)))
  | some _ => none

end TomlMembers

end RemarkAtlas
