import RemarkAtlas.Record.Basic
import RemarkAtlas.Text.Lines

/-!
The messages of records as texts.  Below a record's own message come the lines of its children's
messages, each indented by two blanks.  How the pieces look is up to the markup.
-/

namespace RemarkAtlas

structure Markup where
  plain : String → String
  item : MessageItem → String
  link : Location → String → String

namespace Markup

def bare : Markup where
  plain text := text
  item item := item.text
  link location inner :=
    inner ++ " (" ++ location.file ++ ":" ++ toString location.line.toNat ++ ")"

def renderItem (markup : Markup) (item : MessageItem) : String :=
  if item.isPlain then markup.plain item.text
  else
    match item.location? with
    | some location => markup.link location (markup.item item)
    | none => markup.item item

def indent (text : String) : String :=
  String.join ((Text.lines text).map fun line => "\n  " ++ line)

def renderItems (markup : Markup) (items : List MessageItem) : String :=
  String.join (items.map markup.renderItem)

mutual

def render (markup : Markup) : Record → String
  | .remark _ details children => markup.renderItems details.message ++ markup.renderBelow children
  | .snapshot _ _ => ""

def renderBelow (markup : Markup) : List Record → String
  | [] => ""
  | child :: rest => indent (markup.render child) ++ markup.renderBelow rest

end

end Markup

end RemarkAtlas
