/-!
Grouping a list by keys: the groups come in ascending order of their keys, and inside a group the
order of the list is kept.  Items without a key are left out.
-/

namespace RemarkAtlas.Groups

variable {Key : Type} {Item : Type} [Ord Key]

def add (key : Key) (item : Item) : List (Key × List Item) → List (Key × List Item)
  | [] => [(key, [item])]
  | (other, items) :: rest =>
    match compare key other with
    | .lt => (key, [item]) :: (other, items) :: rest
    | .eq => (other, items ++ [item]) :: rest
    | .gt => (other, items) :: add key item rest

def addIfKeyed (key? : Item → Option Key) (groups : List (Key × List Item)) (item : Item) :
    List (Key × List Item) :=
  match key? item with
  | none => groups
  | some key => add key item groups

def byKey (key? : Item → Option Key) (items : List Item) : List (Key × List Item) :=
  items.foldl (addIfKeyed key?) []

end RemarkAtlas.Groups
