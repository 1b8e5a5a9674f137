import RemarkAtlas.Document.Reader

/-!
Documents without what is never read.  Of every object only the members that have a meaning at its
place are kept; a record of kind `state` has other ones than the rest, and of a message item one
word is kept.  A value that is read whole is kept whole, whatever is in it.
-/

namespace RemarkAtlas

namespace Members

abbrev Field := String × (Json → Json)

def keep (fields : List Field) (members : Members) : Members :=
  members.filterMap fun member =>
    (fields.lookup member.1).map fun change => (member.1, change member.2)

theorem get?_keep (fields : List Field) (key : String) (members : Members) :
    (members.keep fields).get? key =
      (fields.lookup key).bind fun change => (members.get? key).map change := by
  induction members with
  | nil => cases fields.lookup key <;> rfl
  | cons member rest ih =>
      obtain ⟨other, value⟩ := member
      rw [keep, List.filterMap_cons, get?_cons]
      cases isField : fields.lookup other with
      | none =>
          have others : get? key (keep fields rest) = _ := ih
          by_cases same : key = other
          · subst same
            rw [isField, Option.bind_none] at others ⊢
            exact others
          · rw [if_neg same]
            exact others
      | some change =>
          rw [Option.map_some]
          dsimp only
          rw [get?_cons]
          by_cases same : key = other
          · subst same
            rw [if_pos rfl, if_pos rfl, isField]
            rfl
          · rw [if_neg same, if_neg same]
            exact ih

@[simp] theorem get?_keep_nil (key : String) (members : Members) :
    (members.keep []).get? key = none := by
  rw [get?_keep, List.lookup_nil, Option.bind_none]

@[simp] theorem get?_keep_cons (field : Field) (fields : List Field) (key : String)
    (members : Members) :
    (members.keep (field :: fields)).get? key =
      if key = field.1 then (members.get? key).map field.2 else (members.keep fields).get? key := by
  rw [get?_keep, get?_keep]
  by_cases same : key = field.1
  · rw [if_pos same, same, List.lookup_cons_self, Option.bind_some]
  · rw [if_neg same, List.lookup_cons, beq_false_of_ne same]

end Members

namespace Json

def onMembers (change : Members → Members) : Json → Json
  | .object members => .object (change members)
  | other => other

def onItems (change : Json → Json) : Json → Json
  | .array items => .array (items.map change)
  | other => other

end Json

namespace Document

open Json (onMembers onItems)

def whole (keys : List String) : List Members.Field := keys.map fun key => (key, id)

def eraseLocation : Json → Json := onMembers (Members.keep (whole ["file", "line", "column"]))

def eraseEmitter : Json → Json := onMembers (Members.keep (whole ["file", "line", "function"]))

def eraseCount : Json → Json := onMembers (Members.keep (whole ["quality", "value"]))

def eraseFrame : Json → Json :=
  onMembers (Members.keep (("site", eraseLocation) :: whole ["fndecl"]))

def wordKeys (options : Options) : List String :=
  ["expr", "stmt", "symtab_node"] ++ if options.nameAsSymbol then ["name"] else []

def wordKey? (options : Options) (members : Members) : Option String :=
  (wordKeys options).find? fun key => (members.get? key).isSome

def itemFields (options : Options) (members : Members) : List Members.Field :=
  ("location", eraseLocation) :: whole (wordKey? options members).toList

def eraseItem (options : Options) : Json → Json :=
  onMembers fun members => members.keep (itemFields options members)

def eraseEdge : Json → Json := onMembers (Members.keep (whole ["dest", "flags"]))

def eraseBlock : Json → Json :=
  onMembers (Members.keep (("succs", onItems eraseEdge) :: whole ["index", "flags", "stmts"]))

def eraseGraph : Json → Json := onItems eraseBlock

def eraseGenerator : Json → Json :=
  onMembers (Members.keep (whole ["name", "pkgversion", "version", "target"]))

def eraseMetadata : Json → Json :=
  onMembers (Members.keep (("generator", eraseGenerator) :: whole ["format"]))

mutual

/-- Erases in an object what its own members leave out, after all objects among its children. -/
def eraseTree (own : Members → Members) : Json → Json
  | .object members => .object (own (eraseBelow own members))
  | other => other

def eraseTrees (own : Members → Members) : List Json → List Json
  | [] => []
  | value :: rest => eraseTree own value :: eraseTrees own rest

def eraseBelow (own : Members → Members) : List (String × Json) → List (String × Json)
  | [] => []
  | (key, value) :: rest =>
    let erased := match value with
      | .array items => if key = "children" then .array (eraseTrees own items) else value
      | other => other
    (key, erased) :: eraseBelow own rest

end

def passKeys : List String := ["id", "name", "num", "optgroups", "type", "children"]

def erasePass : Json → Json := eraseTree (Members.keep (whole passKeys))

def isState (members : Members) : Bool := (members.get? "kind").bind Json.asText? == some "state"

def recordFields (options : Options) (members : Members) : List Members.Field :=
  whole ["kind", "pass", "function"] ++
    if isState members then [("cfg", eraseGraph)]
    else [("message", onItems (eraseItem options)), ("inlining_chain", onItems eraseFrame),
      ("impl_location", eraseEmitter), ("count", eraseCount), ("location", eraseLocation)] ++
      whole ["children"]

def recordOwn (options : Options) (members : Members) : Members :=
  members.keep (recordFields options members)

def eraseRecord (options : Options) : Json → Json := eraseTree (recordOwn options)

/-- The document without the members that are not read at their places. -/
def eraseUnread (options : Options) : Json → Json
  | .array [metadata, passList, recordList] =>
    .array [eraseMetadata metadata, onItems erasePass passList,
      onItems (eraseRecord options) recordList]
  | other => other

theorem eraseTrees_eq (own : Members → Members) (values : List Json) :
    eraseTrees own values = values.map (eraseTree own) := by
  induction values with
  | nil => rfl
  | cons value rest ih => rw [eraseTrees, ih, List.map_cons]

theorem get?_eraseBelow (own : Members → Members) (key : String) (members : Members) :
    Members.get? key (eraseBelow own members) =
      if key = "children" then (members.get? key).map (onItems (eraseTree own))
      else members.get? key := by
  induction members with
  | nil => simp [eraseBelow]
  | cons member rest ih =>
      obtain ⟨other, value⟩ := member
      rw [eraseBelow.eq_def]
      dsimp only
      rw [Members.get?_cons, Members.get?_cons, ih]
      by_cases same : key = other
      · subst same
        by_cases isChildren : key = "children"
        · subst isChildren
          cases value <;> simp [onItems, eraseTrees_eq]
        · cases value <;> simp [isChildren]
      · simp [same]

end Document

end RemarkAtlas
