import RemarkAtlas.Json.Token

/-!
The outline of a JSON text: its nesting, with strings and numbers as they are written and the
members of an object in the order of the text, repeated keys included.  An outline is built from the
tokens one by one, over a stack of the containers that are still open.
-/

namespace RemarkAtlas

inductive Outline where
  | null
  | bool (value : Bool)
  | number (literal : JsonLiteral)
  | string (body : Bytes)
  | array (items : List Outline)
  | object (members : List (Bytes × Outline))
  deriving Repr, Inhabited

namespace Outline

inductive Frame where
  | array (reversed : List Outline)
  | object (reversed : List (Bytes × Outline)) (key : Bytes)
  deriving Repr

inductive State where
  | value (frames : List Frame)
  | firstItem (frames : List Frame)
  | firstKey (frames : List Frame)
  | key (frames : List Frame) (reversed : List (Bytes × Outline))
  | colon (frames : List Frame) (reversed : List (Bytes × Outline)) (key : Bytes)
  | afterItem (frames : List Frame) (reversed : List Outline)
  | afterMember (frames : List Frame) (reversed : List (Bytes × Outline))
  | complete (outline : Outline)
  deriving Repr

def close (outline : Outline) : List Frame → State
  | [] => .complete outline
  | .array reversed :: frames => .afterItem frames (outline :: reversed)
  | .object reversed key :: frames => .afterMember frames ((key, outline) :: reversed)

def beginValue (frames : List Frame) : JsonToken → Option State
  | .null => some (close .null frames)
  | .bool value => some (close (.bool value) frames)
  | .number literal => some (close (.number literal) frames)
  | .string body => some (close (.string body) frames)
  | .openArray => some (.firstItem frames)
  | .openObject => some (.firstKey frames)
  | _ => none

def step (token : JsonToken) : State → Option State
  | .value frames => beginValue frames token
  | .firstItem frames =>
    if token = .closeArray then some (close (.array []) frames)
    else beginValue (.array [] :: frames) token
  | .firstKey frames =>
    match token with
    | .closeObject => some (close (.object []) frames)
    | .string key => some (.colon frames [] key)
    | _ => none
  | .key frames reversed =>
    match token with
    | .string key => some (.colon frames reversed key)
    | _ => none
  | .colon frames reversed key =>
    match token with
    | .colon => some (.value (.object reversed key :: frames))
    | _ => none
  | .afterItem frames reversed =>
    match token with
    | .comma => some (.value (.array reversed :: frames))
    | .closeArray => some (close (.array reversed.reverse) frames)
    | _ => none
  | .afterMember frames reversed =>
    match token with
    | .comma => some (.key frames reversed)
    | .closeObject => some (close (.object reversed.reverse) frames)
    | _ => none
  | .complete _ => none

def run (state : State) : List JsonToken → Option State
  | [] => some state
  | token :: rest =>
    match step token state with
    | some next => run next rest
    | none => none

def ofTokens? (tokens : List JsonToken) : Option Outline :=
  match run (.value []) tokens with
  | some (.complete outline) => some outline
  | _ => none

def ofBytes? (text : Bytes) : Option Outline := (JsonToken.scan text).bind ofTokens?

end Outline

end RemarkAtlas
