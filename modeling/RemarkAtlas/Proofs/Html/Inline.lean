import Mathlib.Data.List.Forall2
import RemarkAtlas.Html.Table
import RemarkAtlas.Proofs.Html.Reading
import RemarkAtlas.Proofs.Text.Lines

/-!
What stands inside the cells of tables: escaped text, code, preformatted text and links, but no
rows, cells or anchors, whatever the texts of a corpus are.
-/

namespace RemarkAtlas.Html

def Clean (text : String) : Prop := ∀ char ∈ text.toList, char ≠ '<' ∧ char ≠ '>' ∧ char ≠ '"'

instance (text : String) : Decidable (Clean text) :=
  List.decidableBAll (fun char => char ≠ '<' ∧ char ≠ '>' ∧ char ≠ '"') text.toList

namespace Token

def inlineTags : List String := ["/a", "code", "/code", "pre", "/pre"]

inductive IsInline : Token → Prop
  | letter {char : Char} (plain : char ≠ '<' ∧ char ≠ '>') : IsInline (.letter char)
  | fixed {text : String} (known : text ∈ inlineTags) : IsInline (.tag text)
  | link {address : String} (clean : Clean address) : IsInline (.withAttribute "a" "href" address)

namespace IsInline

variable {token : Token}

theorem isWhole (inline : token.IsInline) : token.IsWhole := by
  cases inline with
  | letter plain => exact plain.1
  | fixed known =>
      have noEnd : ∀ text ∈ inlineTags, '>' ∉ text.toList := by decide
      exact noEnd _ known
  | link clean =>
      have noEnd := fun member => (clean '>' member).2.1 rfl
      simpa [IsWhole, withAttribute] using noEnd

theorem element_ne (inline : token.IsInline) :
    ∀ name ∈ ["tr", "/tr", "td", "/td"], token.element? ≠ some name := by
  cases inline with
  | letter plain => simp [element?]
  | fixed known =>
      have elements : ∀ text ∈ inlineTags,
          ∀ name ∈ ["tr", "/tr", "td", "/td"], (tag text).element? ≠ some name := by decide
      exact elements _ known
  | link clean =>
      rw [element?_withAttribute (by decide)]
      decide

theorem attribute_id (inline : token.IsInline) : token.attribute? "id" = none := by
  cases inline with
  | letter plain => rfl
  | fixed known =>
      have noAttribute : ∀ text ∈ inlineTags, (tag text).attribute? "id" = none := by decide
      exact noAttribute _ known
  | link clean => simp [withAttribute, attribute?, Text.afterStart?]

end IsInline

end Token

structure Inline (text : String) : Prop where
  whole : Whole text
  tokens : ∀ token ∈ tokens text, token.IsInline

theorem Spells.inline {read : List Token} {text : String} (spells : Spells read text)
    (inline : ∀ token ∈ read, token.IsInline) : Inline text :=
  ⟨spells.toWhole, spells.tokens_eq.symm ▸ inline⟩

namespace Clean

variable {text left right : String}

theorem append (first : Clean left) (second : Clean right) : Clean (left ++ right) := by
  rw [Clean, String.toList_append]
  exact List.forall_mem_append.mpr ⟨first, second⟩

theorem of_digits {digits : String} (allDigits : ∀ char ∈ digits.toList, char.isDigit = true) :
    Clean digits := by
  intro char member
  have isDigit := allDigits char member
  refine ⟨?_, ?_, ?_⟩ <;> rintro rfl <;> exact absurd isDigit (by decide)

theorem toString (number : Nat) : Clean (toString number) := by
  rw [Nat.toString_eq_repr]
  exact of_digits fun _ => isDigit_of_mem_repr

theorem escapeChar (original : Char) : Clean (String.ofList (escapeChar original)) := by
  fun_cases Html.escapeChar original with
  | case6 notAmpersand notLess notGreater notQuote notApostrophe =>
      intro char member
      obtain rfl : char = original := by simpa using member
      exact ⟨notLess, notGreater, notQuote⟩
  | _ => decide

theorem escape (text : String) : Clean (escape text) := by
  intro char member
  rw [Html.escape, String.toList_ofList, escapeChars, List.mem_flatMap] at member
  obtain ⟨original, _, inside⟩ := member
  exact escapeChar original char (by rwa [String.toList_ofList])

theorem spells (clean : Clean text) : Spells (text.toList.map .letter) text :=
  .plain fun member => (clean '<' member).1 rfl

theorem inline (clean : Clean text) : Inline text := by
  refine clean.spells.inline ?_
  intro token member
  obtain ⟨char, isChar, rfl⟩ := List.mem_map.mp member
  exact .letter ⟨(clean char isChar).1, (clean char isChar).2.1⟩

theorem links (clean : Clean text) : links text = [] := by
  rw [Html.links, clean.spells.tokens_eq, List.filterMap_map]
  simp [Function.comp_def, Token.href?, Token.element?]

end Clean

theorem clean_lineAnchor (line : UInt32) : Clean (lineAnchor line) :=
  Clean.append (by decide) (.toString _)

theorem clean_locationLink (location : Location) : Clean (locationLink location) :=
  ((Clean.escape _).append (by decide)).append (clean_lineAnchor location.line)

namespace Inline

variable {text left right : String}

theorem nothing : Inline "" := Spells.nothing.inline (by simp)

theorem append (first : Inline left) (second : Inline right) : Inline (left ++ right) :=
  (Spells.append first.whole second.whole).inline
    (List.forall_mem_append.mpr ⟨first.tokens, second.tokens⟩)

theorem join {texts : List String} (inline : ∀ text ∈ texts, Inline text) :
    Inline (String.join texts) := by
  refine (Spells.join fun text member => (inline text member).whole).inline ?_
  intro token member
  obtain ⟨text, isText, inside⟩ := List.mem_flatMap.mp member
  exact (inline text isText).tokens token inside

theorem tag (text : String) (known : text ∈ Token.inlineTags) : Inline ("<" ++ text ++ ">") := by
  have inline : (Token.tag text).IsInline := .fixed known
  exact (Spells.tag inline.isWhole).inline (by simpa using inline)

theorem anchors (inline : Inline text) : anchors text = [] := by
  refine List.filterMap_eq_nil_iff.mpr ?_
  intro token member
  exact (inline.tokens token member).attribute_id

end Inline

theorem spells_start {start element name value : String}
    (isStart : start = "<" ++ element ++ " " ++ name ++ "=\"")
    (noEnd : '>' ∉ element.toList ++ name.toList) (clean : Clean value) :
    Spells [.withAttribute element name value] (start ++ value ++ "\">") := by
  have whole : (Token.withAttribute element name value).IsWhole := by
    have noEndInside : '>' ∉ value.toList := fun member => (clean '>' member).2.1 rfl
    simpa [Token.IsWhole, Token.withAttribute, noEndInside] using noEnd
  have sameText : start ++ value ++ "\">" =
      "<" ++ (element ++ " " ++ name ++ "=\"" ++ value ++ "\"") ++ ">" := by
    rw [isStart, ← String.toList_inj]
    simp
  rw [sameText]
  exact Spells.tag whole

theorem spells_linkStart {address : String} (clean : Clean address) :
    Spells [.withAttribute "a" "href" address] ("<a href=\"" ++ address ++ "\">") :=
  spells_start rfl (by decide) clean

theorem inline_link {address inner : String} (clean : Clean address) (inline : Inline inner) :
    Inline (link address inner) := by
  have start := (spells_linkStart clean).inline (by simpa using Token.IsInline.link clean)
  exact (start.append inline).append (Inline.tag "/a" (by decide))

theorem href?_link {address : String} (clean : Clean address) :
    (Token.withAttribute "a" "href" address).href? = some address := by
  have noQuote := fun member => (clean '"' member).2.2 rfl
  simp [Token.href?, Token.element?_withAttribute, Token.attribute?_withAttribute _ _ noQuote]

theorem links_link {address inner : String} (clean : Clean address) (inline : Inline inner) :
    links (link address inner) = address :: links inner := by
  have start := spells_linkStart clean
  have startLinks : links ("<a href=\"" ++ address ++ "\">") = [address] := by
    simp [links, start.tokens_eq, href?_link clean]
  have finish : Whole "</a>" := (Inline.tag "/a" (by decide)).whole
  have finishLinks : links "</a>" = [] := by decide
  rw [link, links_append (start.append inline.whole).toWhole finish,
    links_append start.toWhole inline.whole, startLinks, finishLinks, List.append_nil,
    List.singleton_append]

/-! Indented messages: the tags stay, and the addresses change at line breaks only. -/

def SameUpToBreaks (left right : List String) : Prop :=
  List.Forall₂ (fun left right => Text.Reflows left.toList right.toList) left right

theorem Clean.reflows {text after : String} (clean : Clean text)
    (reflows : Text.Reflows text.toList after.toList) : Clean after := by
  intro char member
  rcases reflows.mem member with old | rfl
  · exact clean char old
  · decide

theorem reflows_token {token : Token} (inline : token.IsInline) {after : List Char}
    (reflows : Text.Reflows token.spell after) :
    ∃ read : List Token, after = read.flatMap Token.spell ∧ (∀ token ∈ read, token.IsInline) ∧
      SameUpToBreaks ([token].filterMap Token.href?) (read.filterMap Token.href?) := by
  cases inline with
  | letter plain =>
      refine ⟨after.map .letter, by simp [List.flatMap_map, Token.spell], ?_, ?_⟩
      · intro token member
        obtain ⟨char, isChar, rfl⟩ := List.mem_map.mp member
        rcases reflows.mem isChar with old | rfl
        · obtain rfl := List.mem_singleton.mp old
          exact .letter plain
        · exact .letter (by decide)
      · simp [Token.href?, Token.element?, Function.comp_def, List.filterMap_map, SameUpToBreaks]
  | @fixed text known =>
      have oneLine : ∀ text ∈ Token.inlineTags, Text.OneLine (Token.tag text).spell := by decide
      have noLink : ∀ text ∈ Token.inlineTags, (Token.tag text).href? = none := by decide
      obtain rfl := reflows.eq_of_oneLine (oneLine _ known)
      exact ⟨[.tag text], by simp, by simpa using Token.IsInline.fixed known,
        by simp [noLink _ known, SameUpToBreaks]⟩
  | @link address clean =>
      have spelled : (Token.withAttribute "a" "href" address).spell =
          "<a href=\"".toList ++ (address.toList ++ ['"', '>']) := by
        simp [Token.withAttribute, Token.spell]
      rw [spelled] at reflows
      obtain ⟨start, rest, rfl, startReflows, reflows⟩ := reflows.append_inv
      obtain ⟨shown, finish, rfl, shownReflows, finishReflows⟩ := reflows.append_inv
      obtain rfl := startReflows.eq_of_oneLine (by decide)
      obtain rfl := finishReflows.eq_of_oneLine (by decide)
      have shownClean : Clean (String.ofList shown) := clean.reflows (by simpa using shownReflows)
      refine ⟨[.withAttribute "a" "href" (String.ofList shown)], ?_, ?_, ?_⟩
      · simp [Token.withAttribute, Token.spell]
      · simpa using Token.IsInline.link shownClean
      · simp [href?_link clean, href?_link shownClean, SameUpToBreaks, shownReflows]

theorem reflows_tokens {before : List Token} (inline : ∀ token ∈ before, token.IsInline)
    {after : List Char} (reflows : Text.Reflows (before.flatMap Token.spell) after) :
    ∃ read : List Token, after = read.flatMap Token.spell ∧ (∀ token ∈ read, token.IsInline) ∧
      SameUpToBreaks (before.filterMap Token.href?) (read.filterMap Token.href?) := by
  induction before generalizing after with
  | nil => exact ⟨[], reflows.eq_of_oneLine (by decide), by simp, .nil⟩
  | cons token before ih =>
      obtain ⟨first, others⟩ := List.forall_mem_cons.mp inline
      obtain ⟨left, right, rfl, leftReflows, rightReflows⟩ := reflows.append_inv
      obtain ⟨leftRead, rfl, leftInline, leftLinks⟩ := reflows_token first leftReflows
      obtain ⟨rightRead, rfl, rightInline, rightLinks⟩ := ih others rightReflows
      refine ⟨leftRead ++ rightRead, by simp,
        List.forall_mem_append.mpr ⟨leftInline, rightInline⟩, ?_⟩
      rw [← List.singleton_append, List.filterMap_append, List.filterMap_append]
      exact List.rel_append leftLinks rightLinks

theorem Inline.reflows {text after : String} (inline : Inline text)
    (reflows : Text.Reflows text.toList after.toList) :
    Inline after ∧ SameUpToBreaks (links text) (links after) := by
  rw [inline.whole.text_eq] at reflows
  obtain ⟨read, isAfter, readInline, sameLinks⟩ := reflows_tokens inline.tokens reflows
  have spells : Spells read after := ⟨isAfter, fun token member => (readInline token member).isWhole⟩
  refine ⟨spells.inline readInline, ?_⟩
  rw [links, links, spells.tokens_eq]
  exact sameLinks

theorem Inline.indent {text : String} (inline : Inline text) :
    Inline (Markup.indent text) ∧ SameUpToBreaks (links text) (links (Markup.indent text)) := by
  have feed : Inline "\n" := Clean.inline (by decide)
  have reflowed := (feed.append inline).reflows (Markup.reflows_indent text)
  rw [links_append feed.whole inline.whole] at reflowed
  exact reflowed

theorem inline_item (item : MessageItem) : Inline (markup.item item) :=
  ((Inline.tag "code" (by decide)).append (Clean.escape _).inline).append
    (Inline.tag "/code" (by decide))

theorem inline_renderItem (item : MessageItem) : Inline (markup.renderItem item) := by
  rw [Markup.renderItem]
  split
  · exact (Clean.escape _).inline
  · split
    · exact inline_link (clean_locationLink _) (inline_item item)
    · exact inline_item item

theorem inline_renderItems (items : List MessageItem) : Inline (markup.renderItems items) := by
  refine Inline.join ?_
  intro text member
  obtain ⟨item, _, rfl⟩ := List.mem_map.mp member
  exact inline_renderItem item

mutual

theorem inline_render : ∀ record, Inline (markup.render record)
  | .remark _ details children =>
      (inline_renderItems details.message).append (inline_renderBelow children)
  | .snapshot _ _ => .nothing

theorem inline_renderBelow : ∀ records, Inline (markup.renderBelow records)
  | [] => .nothing
  | child :: rest => (inline_render child).indent.1.append (inline_renderBelow rest)

end

end RemarkAtlas.Html
