import RemarkAtlas.Proofs.Corpus.Outline
import RemarkAtlas.Proofs.Html.Address
import RemarkAtlas.Proofs.Html.Message

/-!
What a reader of a message sees: its text without the tags, and its links with what they enclose.
The text is that of the message without markup and without the places of items, line by line.
-/

namespace RemarkAtlas

def Markup.unplaced : Markup := { Markup.bare with link := fun _ inner => inner }

namespace Record

def locatedItems (record : Record) : List (Location × MessageItem) :=
  record.message.filterMap fun item => item.location?.map fun location => (location, item)

def HasItemTexts (record : Record) : Prop :=
  ∀ item ∈ record.message, item.isPlain = false → item.text ≠ ""

instance (record : Record) : Decidable record.HasItemTexts :=
  inferInstanceAs (Decidable (∀ item ∈ record.message, item.isPlain = false → item.text ≠ ""))

end Record

namespace Markup

variable {markup : Markup} {record : Record}

theorem renderItem_unplaced (item : MessageItem) : unplaced.renderItem item = item.text := by
  rw [renderItem]
  split
  · rfl
  · split <;> rfl

theorem oneLine_ownText
    (oneLine : ∀ item ∈ record.message, Text.OneLine (markup.renderItem item).toList) :
    Text.OneLine (markup.ownText record) := by
  rw [ownText, renderItems, String.toList_join, List.flatMap_map]
  intro char member
  obtain ⟨item, isItem, inside⟩ := List.mem_flatMap.mp member
  exact oneLine item isItem char inside

theorem ownText_eq_nil_iff :
    markup.ownText record = [] ↔ ∀ item ∈ record.message, markup.renderItem item = "" := by
  rw [ownText, renderItems, String.toList_join, List.flatMap_map, List.flatMap_eq_nil_iff]
  simp only [String.toList_eq_nil_iff]

end Markup

namespace Html

def Token.letter? : Token → Option Char
  | letter char => some char
  | tag _ => none

def visible (text : String) : String :=
  String.ofList (unescapeChars ((tokens text).filterMap Token.letter?))

def opensLink (token : Token) : Bool := token.href?.isSome

def closesLink (token : Token) : Bool := token == .tag "/a"

def linkElements (text : String) : List String := parts opensLink closesLink text

/-- The text shows these characters and has these link elements, whatever comes after it, and no
links but them. -/
structure Conveys (text : String) (shown : List Char) (elements : List String) : Prop where
  hasElements : HasParts opensLink closesLink text elements
  links_eq : links text = elements.flatMap links
  -- No ampersand of the text begins an entity that ends in what follows.
  unescape : ∀ rest, unescapeChars ((tokens text).filterMap Token.letter? ++ rest) =
    shown ++ unescapeChars rest

namespace Conveys

variable {text left right : String} {shown first second : List Char}
  {elements before after : List String}

theorem visible_eq (conveys : Conveys text shown elements) : visible text = String.ofList shown := by
  have unescaped := conveys.unescape []
  rw [List.append_nil, unescapeChars, List.append_nil] at unescaped
  rw [visible, unescaped]

theorem linkElements_eq (conveys : Conveys text shown elements) : linkElements text = elements :=
  conveys.hasElements.parts_eq

theorem append (start : Conveys left first before) (finish : Conveys right second after) :
    Conveys (left ++ right) (first ++ second) (before ++ after) where
  hasElements := start.hasElements.append finish.hasElements
  links_eq := by
    rw [links_append start.hasElements.whole finish.hasElements.whole, start.links_eq,
      finish.links_eq, List.flatMap_append]
  unescape := by
    intro rest
    rw [start.hasElements.whole.tokens_append finish.hasElements.whole, List.filterMap_append,
      List.append_assoc, start.unescape, finish.unescape, List.append_assoc]

theorem of_links (whole : Whole text) (noLinks : links text = [])
    (unescape : ∀ rest, unescapeChars ((tokens text).filterMap Token.letter? ++ rest) =
      shown ++ unescapeChars rest) : Conveys text shown [] where
  hasElements := by
    refine .none whole fun token member => ?_
    rw [opensLink, List.filterMap_eq_nil_iff.mp noLinks token member]
    rfl
  links_eq := noLinks
  unescape

theorem nothing : Conveys "" [] [] := of_links Whole.nothing rfl fun _ => rfl

section Sequence

variable {Item : Type} {items : List Item} {write : Item → String} {shownBy : Item → List Char}
  {elementsOf : Item → List String}

theorem join (conveys : ∀ item ∈ items, Conveys (write item) (shownBy item) (elementsOf item)) :
    Conveys (String.join (items.map write)) (items.flatMap shownBy) (items.flatMap elementsOf) := by
  induction items with
  | nil => exact nothing
  | cons item items ih =>
      obtain ⟨first, others⟩ := List.forall_mem_cons.mp conveys
      rw [List.map_cons, String.join_cons, List.flatMap_cons, List.flatMap_cons]
      exact first.append (ih others)

theorem intercalate {separator : String} {between : List Char}
    (separates : Conveys separator between [])
    (conveys : ∀ item ∈ items, Conveys (write item) (shownBy item) (elementsOf item)) :
    Conveys (separator.intercalate (items.map write)) (between.intercalate (items.map shownBy))
      (items.flatMap elementsOf) := by
  induction items with
  | nil => exact nothing
  | cons item items ih =>
      obtain ⟨first, others⟩ := List.forall_mem_cons.mp conveys
      cases items with
      | nil => simpa using first
      | cons next items =>
          have step := (first.append separates).append (ih others)
          simpa [String.intercalate_cons_cons, List.intercalate_cons_cons] using step

end Sequence

end Conveys

theorem letters_of_clean {text : String} (clean : Clean text) :
    (tokens text).filterMap Token.letter? = text.toList := by
  rw [clean.spells.tokens_eq, List.filterMap_map]
  simp [Function.comp_def, Token.letter?]

theorem conveys_escape (text : String) : Conveys (escape text) text.toList [] := by
  refine .of_links (Clean.escape text).inline.whole (Clean.escape text).links fun rest => ?_
  rw [letters_of_clean (Clean.escape text), escape, String.toList_ofList]
  exact unescapeChars_escapeChars text.toList rest

theorem conveys_clean {text : String} (clean : Clean text) (noEntity : '&' ∉ text.toList) :
    Conveys text text.toList [] := by
  refine .of_links clean.inline.whole clean.links fun rest => ?_
  rw [letters_of_clean clean]
  exact unescapeChars_append noEntity rest

theorem conveys_tag (text : String) (known : text ∈ ["code", "/code"]) :
    Conveys ("<" ++ text ++ ">") [] [] := by
  have plain : ∀ text ∈ ["code", "/code"], '>' ∉ text.toList ∧ (Token.tag text).href? = none := by
    decide
  obtain ⟨noEnd, notLink⟩ := plain text known
  have spells := Spells.tag noEnd
  refine .of_links spells.toWhole ?_ fun rest => ?_
  · rw [links, spells.tokens_eq]
    simp [notLink]
  · rw [spells.tokens_eq]
    rfl

theorem spells_item (item : MessageItem) :
    Spells ([.tag "code"] ++ (escape item.text).toList.map .letter ++ [.tag "/code"])
      (markup.item item) :=
  ((Spells.tag (by decide)).append (Clean.escape item.text).spells).append (.tag (by decide))

theorem conveys_item (item : MessageItem) : Conveys (markup.item item) item.text.toList [] := by
  have start : Conveys "<code>" [] [] := conveys_tag "code" (by decide)
  have finish : Conveys "</code>" [] [] := conveys_tag "/code" (by decide)
  have conveys := (start.append (conveys_escape item.text)).append finish
  rwa [List.nil_append, List.append_nil] at conveys

def itemLink (located : Location × MessageItem) : String :=
  markup.link located.1 (markup.item located.2)

theorem conveys_itemLink (located : Location × MessageItem) :
    Conveys (itemLink located) located.2.text.toList [itemLink located] := by
  have start := spells_linkStart (clean_locationLink located.1)
  have inner := conveys_item located.2
  have whole := inner.hasElements.whole
  have finish : Spells [.tag "/a"] "</a>" := .tag (by decide)
  have opensStart : opensLink (.withAttribute "a" "href" (locationLink located.1)) = true := by
    rw [opensLink, href?_link (clean_locationLink located.1)]
    rfl
  have noneCloses : ∀ token ∈ tokens (markup.item located.2), closesLink token = false := by
    rw [(spells_item located.2).tokens_eq, List.forall_mem_append, List.forall_mem_append,
      List.forall_mem_map]
    exact ⟨⟨by decide, fun _ _ => rfl⟩, by decide⟩
  have closesFinish : closesLink (.tag "/a") = true := by decide
  have elements : HasParts opensLink closesLink (itemLink located) [itemLink located] :=
    .one start opensStart whole noneCloses finish closesFinish
  have read : tokens (itemLink located) = _ := ((start.append whole).append finish).tokens_eq
  have letters : (tokens (itemLink located)).filterMap Token.letter? =
      (tokens (markup.item located.2)).filterMap Token.letter? := by
    have noLetters : ∀ text, [Token.tag text].filterMap Token.letter? = [] := fun _ => rfl
    rw [read, List.filterMap_append, List.filterMap_append, Token.withAttribute, noLetters,
      noLetters, List.append_nil, List.nil_append]
  refine ⟨elements, by rw [List.flatMap_singleton], fun rest => ?_⟩
  rw [letters]
  exact inner.unescape rest

theorem conveys_renderItem (item : MessageItem) :
    Conveys (markup.renderItem item) item.text.toList
      ((item.location?.map fun location => (location, item)).toList.map itemLink) := by
  cases item with
  | plain text => exact conveys_escape text
  | expression text location? | statement text location? | symbol text location? =>
      cases location? with
      | none => exact conveys_item _
      | some location => exact conveys_itemLink (location, _)

theorem conveys_renderItems (record : Record) :
    Conveys (markup.renderItems record.message) (Markup.unplaced.ownText record)
      (record.locatedItems.map itemLink) := by
  have joined := Conveys.join fun item (_ : item ∈ record.message) => conveys_renderItem item
  have shown : Markup.unplaced.ownText record = record.message.flatMap (·.text.toList) := by
    rw [Markup.ownText, Markup.renderItems, String.toList_join, List.flatMap_map]
    simp only [Markup.renderItem_unplaced]
  rwa [← List.map_flatMap, ← List.filterMap_eq_flatMap_toList, ← shown] at joined

theorem conveys_blanks (number : Nat) :
    Conveys (String.ofList (List.replicate number ' ')) (List.replicate number ' ') [] := by
  have shown := String.toList_ofList (l := List.replicate number ' ')
  have onlyBlanks : ∀ char ∈ (String.ofList (List.replicate number ' ')).toList, char = ' ' := by
    rw [shown]
    exact fun char member => List.eq_of_mem_replicate member
  have clean : Clean (String.ofList (List.replicate number ' ')) := by
    intro char member
    rw [onlyBlanks char member]
    decide
  have conveys := conveys_clean clean fun member => absurd (onlyBlanks '&' member) (by decide)
  rwa [shown] at conveys

theorem conveys_lineText (entry : Nat × Record) :
    Conveys (markup.lineText entry) (Markup.unplaced.outlineLine entry)
      (entry.2.locatedItems.map itemLink) := by
  have blanks := conveys_blanks (2 * entry.1)
  exact blanks.append (conveys_renderItems entry.2)

section Lines

variable {record : Record}

theorem oneLine_renderItem {item : MessageItem} (text : Text.OneLine item.text.toList)
    (file : ∀ location ∈ item.location?, InOneLine location) :
    Text.OneLine (markup.renderItem item).toList := by
  have escaped : Text.OneLine (escape item.text).toList := by
    rw [escape, String.toList_ofList]
    exact oneLine_escapeChars text
  have inner : Text.OneLine (markup.item item).toList := by
    have start : Text.OneLine "<code>".toList := by decide
    have finish : Text.OneLine "</code>".toList := by decide
    rw [markup, String.toList_append, String.toList_append]
    exact (start.append escaped).append finish
  rw [Markup.renderItem]
  split
  · exact escaped
  · split
    next location place =>
      have start : Text.OneLine "<a href=\"".toList := by decide
      have between : Text.OneLine "\">".toList := by decide
      have finish : Text.OneLine "</a>".toList := by decide
      have address := oneLine_locationLink (file location place)
      change Text.OneLine (link (locationLink location) (markup.item item)).toList
      simp only [link, String.toList_append]
      exact (((start.append address).append between).append inner).append finish
    next => exact inner

theorem ownText_eq_nil_iff_unplaced (hasTexts : record.HasItemTexts) :
    markup.ownText record = [] ↔ Markup.unplaced.ownText record = [] := by
  rw [Markup.ownText_eq_nil_iff, Markup.ownText_eq_nil_iff]
  refine forall₂_congr fun item member => ?_
  rw [Markup.renderItem_unplaced]
  constructor
  · intro empty
    have shown := (conveys_renderItem item).visible_eq
    rw [empty, String.ofList_toList] at shown
    exact shown.symm
  · intro empty
    have isPlain : item.isPlain = true := by
      by_contra structured
      exact hasTexts item member (Bool.not_eq_true _ ▸ structured) empty
    rw [Markup.renderItem, if_pos isPlain, empty]
    rfl

theorem locatedItems_of_isSilent (silent : markup.isSilent record = true) :
    record.locatedItems = [] := by
  have noText : markup.renderItems record.message = "" :=
    String.toList_eq_nil_iff.mp (Markup.ownText_of_isSilent silent)
  have elements := (conveys_renderItems record).linkElements_eq
  rw [noText] at elements
  exact List.map_eq_nil_iff.mp elements.symm

theorem flatMap_shown (record : Record) :
    (markup.shown record).flatMap (·.2.locatedItems) =
      (record.flatten 0).flatMap (·.2.locatedItems) := by
  rw [Markup.shown]
  induction record.flatten 0 with
  | nil => rfl
  | cons entry rest ih =>
      rw [List.filter_cons, List.flatMap_cons, ← ih]
      split
      next => rw [List.flatMap_cons]
      next hidden =>
        rw [Bool.not_eq_true, Bool.or_eq_false_iff, Bool.not_eq_false'] at hidden
        rw [locatedItems_of_isSilent hidden.2, List.nil_append]

/-- A message shows, line by line, what it shows without markup and without the places of items, and
its links are the located items of the record and of those below it. -/
theorem render_visible (record : Record)
    (inOneLine : ∀ entry ∈ record.flatten 0, entry.2.InOneLine)
    (hasTexts : ∀ entry ∈ record.flatten 0, entry.2.HasItemTexts) :
    visible (markup.render record) = Markup.unplaced.render record ∧
    (markup.render record).toList.splitOn '\n' =
      (Markup.unplaced.shown record).map markup.outlineLine ∧
    (Markup.unplaced.render record).toList.splitOn '\n' =
      (Markup.unplaced.shown record).map Markup.unplaced.outlineLine ∧
    linkElements (markup.render record) =
      ((record.flatten 0).flatMap (·.2.locatedItems)).map itemLink ∧
    links (markup.render record) =
      ((record.flatten 0).flatMap (·.2.locatedItems)).map (locationLink ·.1) := by
  have oneLine : ∀ entry ∈ record.flatten 0, Text.OneLine (markup.ownText entry.2) :=
    fun entry member => Markup.oneLine_ownText fun item isItem =>
      oneLine_renderItem (inOneLine entry member item isItem).1 (inOneLine entry member item isItem).2
  have plainOneLine : ∀ entry ∈ record.flatten 0,
      Text.OneLine (Markup.unplaced.ownText entry.2) :=
    fun entry member => Markup.oneLine_ownText fun item isItem => by
      rw [Markup.renderItem_unplaced]
      exact (inOneLine entry member item isItem).1
  have sameShown : markup.shown record = Markup.unplaced.shown record :=
    Markup.shown_congr fun entry member => ownText_eq_nil_iff_unplaced (hasTexts entry member)
  -- Each line is read on its own: texts in one line leave the indented lines as they are.
  have feed : Conveys "\n" ['\n'] [] := conveys_clean (by decide) (by decide)
  have conveys := feed.intercalate fun entry (_ : entry ∈ markup.shown record) =>
    conveys_lineText entry
  rw [← Markup.render_eq_lines oneLine, ← List.map_flatMap, flatMap_shown] at conveys
  have plainLines := Markup.splitOn_render plainOneLine
  refine ⟨?_, sameShown ▸ Markup.splitOn_render oneLine, plainLines, conveys.linkElements_eq, ?_⟩
  · rw [conveys.visible_eq, sameShown, ← plainLines, List.intercalate_splitOn, String.ofList_toList]
  · rw [conveys.links_eq, List.flatMap_map, ← List.flatMap_pure_eq_map]
    refine List.flatMap_congr fun located _ => ?_
    exact (linksTo_itemLink located.2 located.1).links_eq

end Lines

def entangledRecord : Record :=
  Markup.messageOf [.plain "a < b & ", .symbol "&lt;x>" (some ⟨"d/a&b.c", 3, 1⟩)]
    [Markup.messageOf [] [Markup.messageOf [.expression "p->q" none] []], Markup.messageOf [] [],
      Markup.messageOf [.statement "</a>" (some ⟨"e.c", 7, 2⟩)] []]

theorem entangledRecord_visible :
    (∀ entry ∈ entangledRecord.flatten 0, entry.2.InOneLine) ∧
    (∀ entry ∈ entangledRecord.flatten 0, entry.2.HasItemTexts) ∧
    visible (markup.render entangledRecord) = "a < b & &lt;x>\n  \n    p->q\n  </a>" ∧
    links (markup.render entangledRecord) =
      ["d|a&amp;b.c.html#line-3", "e.c.html#line-7"] := by
  have inOneLine : ∀ entry ∈ entangledRecord.flatten 0, entry.2.InOneLine := by decide
  have hasTexts : ∀ entry ∈ entangledRecord.flatten 0, entry.2.HasItemTexts := by decide
  obtain ⟨shows, _, _, _, leads⟩ := render_visible entangledRecord inOneLine hasTexts
  exact ⟨inOneLine, hasTexts, shows.trans (by decide), leads.trans (by decide)⟩

end Html

end RemarkAtlas
