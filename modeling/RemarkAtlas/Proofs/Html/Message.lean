import RemarkAtlas.Proofs.Html.Tables

/-!
The links of messages.  A message links to the places of its items and, through the indented
messages below it, to those of the items of all records below.
-/

namespace RemarkAtlas

namespace Record

mutual

def messagePlaces : Record → List Location
  | .remark _ details children =>
    details.message.filterMap (·.location?) ++ messagePlacesBelow children
  | .snapshot _ _ => []

def messagePlacesBelow : List Record → List Location
  | [] => []
  | child :: rest => messagePlaces child ++ messagePlacesBelow rest

end

end Record

namespace Html

theorem linksTo_item (item : MessageItem) : LinksTo (markup.item item) [] :=
  (Clean.escape item.text).linksTo.between (.fixed (by decide) (by decide))
    (.fixed (by decide) (by decide))

theorem linksTo_itemLink (item : MessageItem) (location : Location) :
    LinksTo (markup.link location (markup.item item)) [locationLink location] where
  whole := (inline_link (clean_locationLink location) (inline_item item)).whole
  links_eq := by
    have inner : links (markup.item item) = [] := (linksTo_item item).links_eq
    rw [← inner]
    exact links_link (clean_locationLink location) (inline_item item)

theorem linksTo_renderItem (item : MessageItem) :
    LinksTo (markup.renderItem item) (item.location?.toList.map locationLink) := by
  cases item with
  | plain text => exact (Clean.escape text).linksTo
  | expression text location? | statement text location? | symbol text location? =>
      cases location? with
      | none => exact linksTo_item _
      | some location => exact linksTo_itemLink _ location

theorem linksTo_renderItems (items : List MessageItem) :
    LinksTo (markup.renderItems items)
      ((items.filterMap (·.location?)).map locationLink) := by
  have joined := LinksTo.join fun item (_ : item ∈ items) => linksTo_renderItem item
  rwa [← List.map_flatMap, ← List.filterMap_eq_flatMap_toList] at joined

def InOneLine (place : Location) : Prop := Text.OneLine place.file.toList

instance (place : Location) : Decidable (InOneLine place) :=
  inferInstanceAs (Decidable (Text.OneLine _))

theorem oneLine_escapeChar {char : Char} (notBreak : char ≠ '\r' ∧ char ≠ '\n') :
    Text.OneLine (escapeChar char) := by
  fun_cases escapeChar char with
  | case6 => exact List.forall_mem_singleton.mpr notBreak
  | _ => decide

theorem oneLine_escapeChars {text : List Char} (oneLine : Text.OneLine text) :
    Text.OneLine (escapeChars text) := by
  intro written member
  obtain ⟨char, isChar, inside⟩ := List.mem_flatMap.mp member
  exact oneLine_escapeChar (oneLine char isChar) written inside

theorem oneLine_sourcePage {file : String} (oneLine : Text.OneLine file.toList) :
    Text.OneLine (sourcePage file).toList := by
  have renamed : Text.OneLine (file.toList.map fun char => if char = '/' then '|' else char) := by
    refine List.forall_mem_map.mpr fun char isChar => ?_
    split
    · decide
    · exact oneLine char isChar
  rw [sourcePage, String.toList_append, String.toList_ofList]
  exact renamed.append (by decide)

theorem oneLine_lineAnchor (line : UInt32) : Text.OneLine (lineAnchor line).toList := by
  rw [lineAnchor, String.toList_append]
  exact Text.OneLine.append (by decide) (Text.oneLine_toString line.toNat)

theorem oneLine_locationLink {place : Location} (inOneLine : InOneLine place) :
    Text.OneLine (locationLink place).toList := by
  have page := oneLine_escapeChars (oneLine_sourcePage inOneLine)
  have anchor := oneLine_lineAnchor place.line
  rw [locationLink, String.toList_append, String.toList_append, escape, String.toList_ofList]
  exact (page.append (by decide)).append anchor

theorem SameUpToBreaks.eq_of_oneLine {left right : List String} (same : SameUpToBreaks left right)
    (oneLine : ∀ address ∈ left, Text.OneLine address.toList) : right = left := by
  induction same with
  | nil => rfl
  | cons reflows _ ih =>
      obtain ⟨first, others⟩ := List.forall_mem_cons.mp oneLine
      rw [ih others, String.toList_inj.mp (reflows.eq_of_oneLine first)]

theorem links_indent {text : String} (inline : Inline text)
    (oneLine : ∀ address ∈ links text, Text.OneLine address.toList) :
    links (Markup.indent text) = links text :=
  inline.indent.2.eq_of_oneLine oneLine

mutual

theorem links_render : ∀ record : Record, (∀ place ∈ record.messagePlaces, InOneLine place) →
    links (markup.render record) = record.messagePlaces.map locationLink
  | .remark _ details children, inOneLine => by
      have below : ∀ place ∈ Record.messagePlacesBelow children, InOneLine place :=
        fun place member => inOneLine place (List.mem_append_right _ member)
      rw [Markup.render, links_append (linksTo_renderItems _).whole (inline_renderBelow _).whole,
        (linksTo_renderItems _).links_eq, links_renderBelow children below, ← List.map_append]
      rfl
  | .snapshot _ _, _ => rfl

theorem links_renderBelow : ∀ records : List Record,
    (∀ place ∈ Record.messagePlacesBelow records, InOneLine place) →
    links (markup.renderBelow records) = (Record.messagePlacesBelow records).map locationLink
  | [], _ => rfl
  | child :: rest, inOneLine => by
      obtain ⟨first, others⟩ := List.forall_mem_append.mp inOneLine
      have childLinks := links_render child first
      have oneLine : ∀ address ∈ links (markup.render child), Text.OneLine address.toList := by
        rw [childLinks]
        exact List.forall_mem_map.mpr fun place member => oneLine_locationLink (first place member)
      -- Each level of records indents the text once more; links in one line stand that.
      rw [Markup.renderBelow,
        links_append (inline_render child).indent.1.whole (inline_renderBelow rest).whole,
        links_indent (inline_render child) oneLine, childLinks, links_renderBelow rest others,
        ← List.map_append]
      rfl

end

theorem links_messageCell (policy : PrecisionPolicy) (sources : CompilerSources)
    (sighting : Sighting) (inOneLine : ∀ place ∈ sighting.record.messagePlaces, InOneLine place) :
    ∃ content, cellBelow "Message" (rowText policy sources sighting) = some content ∧
      links content = sighting.record.messagePlaces.map locationLink := by
  have start : LinksTo "<pre>" [] := .fixed (by decide) (by decide)
  have finish : LinksTo "</pre>" [] := .fixed (by decide) (by decide)
  have message := (inline_render sighting.record).linksTo
  refine ⟨_, messageCell_rowText policy sources sighting, ?_⟩
  rw [(message.between start finish).cell.links_eq, links_render sighting.record inOneLine]

end Html

end RemarkAtlas
