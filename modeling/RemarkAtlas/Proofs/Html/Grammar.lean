import Mathlib.Data.List.Forall2
import Mathlib.Logic.Relation
import RemarkAtlas.Proofs.Html.Inline

/-!
The grammar of pages: properly nested elements from a short list, and between them text that no
reader can take for a tag.  Texts from outside are escaped; the grammar keeps account of them.
-/

namespace RemarkAtlas.Html

def plainElements : List String :=
  ["html", "head", "title", "style", "body", "h1", "p", "table", "tr", "th", "td", "pre", "code"]

def valuedElements : List (String × String) :=
  [("a", "href"), ("tr", "class"), ("tr", "id"), ("h2", "id")]

def voidTags : List String := ["!DOCTYPE html", "meta charset=\"utf-8\""]

inductive Words : String → List String → Prop
  | own {text : String} (clean : Clean text) : Words text []
  | given (text : String) : Words (escape text) [text]
  | append {left right : String} {first second : List String} :
      Words left first → Words right second → Words (left ++ right) (first ++ second)

inductive Marked : String → List String → Prop
  | words {text : String} {given : List String} : Words text given → Marked text given
  | append {left right : String} {first second : List String} :
      Marked left first → Marked right second → Marked (left ++ right) (first ++ second)
  | element {name inner : String} {given : List String} (known : name ∈ plainElements)
      (inside : Marked inner given) :
      Marked ("<" ++ name ++ ">" ++ inner ++ ("</" ++ name ++ ">")) given
  | valued {name key value inner : String} {first second : List String}
      (known : (name, key) ∈ valuedElements) (words : Words value first)
      (inside : Marked inner second) :
      Marked ("<" ++ name ++ " " ++ key ++ "=\"" ++ value ++ "\">" ++ inner ++
        ("</" ++ name ++ ">")) (first ++ second)
  | charset : Marked "<meta charset=\"utf-8\">" []

namespace Token

inductive IsOwn : Token → Prop
  | letter {char : Char} (plain : char ≠ '<' ∧ char ≠ '>' ∧ char ≠ '"') : IsOwn (.letter char)
  | opening {name : String} (known : name ∈ plainElements) : IsOwn (.tag name)
  | valued {name key value : String} (known : (name, key) ∈ valuedElements) (clean : Clean value) :
      IsOwn (.withAttribute name key value)
  | closing {name : String} (known : name ∈ plainElements ++ valuedElements.map Prod.fst) :
      IsOwn (.tag ("/" ++ name))
  | void {text : String} (known : text ∈ voidTags) : IsOwn (.tag text)

/-- The elements that are open after a token, the innermost first; nothing if the token closes an
element that is not the innermost one. -/
def nest? (opened : List String) : Token → Option (List String)
  | letter _ => some opened
  | tag text =>
    if text ∈ voidTags then some opened
    else
      match Text.afterStart? ['/'] text.toList with
      | some name => if opened.head? = some (String.ofList name) then some opened.tail else none
      | none => some (String.ofList (text.toList.takeWhile (· != ' ')) :: opened)

structure IsElement (name : String) : Prop where
  short : '>' ∉ name.toList ∧ ' ' ∉ name.toList
  notClosing : name.toList.head? ≠ some '/'
  closed : "/" ++ name ∉ voidTags
  notVoid : name ∉ voidTags

theorem isElement_of_known {name : String}
    (known : name ∈ plainElements ++ valuedElements.map Prod.fst) : IsElement name := by
  have names : ∀ name ∈ plainElements ++ valuedElements.map Prod.fst,
      ('>' ∉ name.toList ∧ ' ' ∉ name.toList) ∧ name.toList.head? ≠ some '/' ∧
        "/" ++ name ∉ voidTags ∧ name ∉ voidTags := by
    decide
  obtain ⟨short, notClosing, closed, notVoid⟩ := names name known
  exact ⟨short, notClosing, closed, notVoid⟩

section Nesting

variable {name : String} (opened : List String)

theorem nest?_closing (element : IsElement name) :
    nest? (name :: opened) (.tag ("/" ++ name)) = some opened := by
  have start : Text.afterStart? ['/'] ("/" ++ name).toList = some name.toList := by
    rw [Text.afterStart?_eq_some_iff, String.toList_append]
    rfl
  rw [nest?, if_neg element.closed, start]
  simp

theorem nest?_start {text : String} (notVoid : text ∉ voidTags)
    (notClosing : text.toList.head? ≠ some '/') :
    nest? opened (.tag text) =
      some (String.ofList (text.toList.takeWhile (· != ' ')) :: opened) := by
  have start : Text.afterStart? ['/'] text.toList = none := by
    refine Option.eq_none_iff_forall_ne_some.mpr fun rest isRest => notClosing ?_
    rw [Text.afterStart?_eq_some_iff.mp isRest]
    rfl
  simp [nest?, notVoid, start]

theorem nest?_opening (element : IsElement name) :
    nest? opened (.tag name) = some (name :: opened) := by
  have whole : name.toList.takeWhile (· != ' ') = name.toList := by
    rw [← List.append_nil name.toList, List.takeWhile_append_of_pos, List.takeWhile_nil]
    exact fun char member => bne_iff_ne.mpr fun blank => element.short.2 (blank ▸ member)
  rw [nest?_start opened element.notVoid element.notClosing, whole, String.ofList_toList]

theorem nest?_valued {key value : String} (known : (name, key) ∈ valuedElements) :
    nest? opened (.withAttribute name key value) = some (name :: opened) := by
  have firstChars : ∀ pair ∈ valuedElements, ' ' ∉ pair.1.toList ∧
      pair.1.toList.head?.any (fun first => decide (first ∉ ['!', 'm', '/'])) = true := by decide
  obtain ⟨noBlank, hasFirst⟩ := firstChars _ known
  obtain ⟨first, isFirst, differs⟩ := (Option.any_eq_true _ _).mp hasFirst
  have unlike : first ∉ ['!', 'm', '/'] := of_decide_eq_true differs
  have starts : (name ++ " " ++ key ++ "=\"" ++ value ++ "\"").toList.head? = some first := by
    simp [isFirst]
  -- The tags that are not to be closed, and those that close, begin with other characters.
  have notVoid : name ++ " " ++ key ++ "=\"" ++ value ++ "\"" ∉ voidTags := by
    intro isVoid
    have voidChars : ∀ text ∈ voidTags,
        text.toList.head?.all (fun first => decide (first ∈ ['!', 'm', '/'])) = true := by decide
    have isVoidChar := voidChars _ isVoid
    rw [starts, Option.all_some, decide_eq_true_eq] at isVoidChar
    exact unlike isVoidChar
  have notClosing : (name ++ " " ++ key ++ "=\"" ++ value ++ "\"").toList.head? ≠ some '/' := by
    rintro slash
    rw [starts, Option.some.injEq] at slash
    exact unlike (by simp [slash])
  have elementName := element?_withAttribute noBlank key value
  rw [withAttribute, element?, Option.some.injEq] at elementName
  rw [withAttribute, nest?_start opened notVoid notClosing, elementName]

end Nesting

end Token

/-- Nothing is left over between the tokens of the text, every tag has one of the shapes that the
report uses, and whatever was open before the text is what is open after it. -/
structure WellNested (text : String) : Prop where
  whole : Whole text
  own : ∀ token ∈ tokens text, token.IsOwn
  closed : ∀ opened, (tokens text).foldlM Token.nest? opened = some opened

namespace WellNested

theorem append {left right : String} (first : WellNested left) (second : WellNested right) :
    WellNested (left ++ right) where
  whole := first.whole.append second.whole
  own := by
    rw [first.whole.tokens_append second.whole]
    exact List.forall_mem_append.mpr ⟨first.own, second.own⟩
  closed := by
    intro opened
    rw [first.whole.tokens_append second.whole, List.foldlM_append, first.closed]
    exact second.closed opened

theorem of_clean {text : String} (clean : Clean text) : WellNested text where
  whole := clean.spells.toWhole
  own := by
    rw [clean.spells.tokens_eq]
    intro token member
    obtain ⟨char, isChar, rfl⟩ := List.mem_map.mp member
    exact .letter (clean char isChar)
  closed := by
    intro opened
    rw [clean.spells.tokens_eq]
    induction text.toList with
    | nil => rfl
    | cons char text ih => exact ih

theorem element {name start inner : String} {opening : Token}
    (known : name ∈ plainElements ++ valuedElements.map Prod.fst)
    (startReads : Spells [opening] start) (own : opening.IsOwn)
    (opens : ∀ opened, Token.nest? opened opening = some (name :: opened))
    (inside : WellNested inner) : WellNested (start ++ inner ++ ("</" ++ name ++ ">")) := by
  have isElement := Token.isElement_of_known known
  have noEnd : '>' ∉ ("/" ++ name).toList := by simpa using isElement.short.1
  have finish_eq : "</" ++ name ++ ">" = "<" ++ ("/" ++ name) ++ ">" := by
    rw [← String.toList_inj]
    simp
  have finishReads : Spells [.tag ("/" ++ name)] ("</" ++ name ++ ">") :=
    finish_eq ▸ Spells.tag noEnd
  have reads := (startReads.append inside.whole).append finishReads
  refine ⟨reads.toWhole, ?_, ?_⟩
  · rw [reads.tokens_eq]
    simp only [List.forall_mem_append, List.forall_mem_singleton]
    exact ⟨⟨own, inside.own⟩, .closing known⟩
  · intro opened
    rw [reads.tokens_eq, List.foldlM_append, List.foldlM_append]
    simp [opens, inside.closed, Token.nest?_closing opened isElement]

theorem void {text : String} (known : text ∈ voidTags) : WellNested ("<" ++ text ++ ">") := by
  have noEnd : ∀ text ∈ voidTags, '>' ∉ text.toList := by decide
  have reads : Spells [.tag text] ("<" ++ text ++ ">") := Spells.tag (noEnd text known)
  refine ⟨reads.toWhole, ?_, ?_⟩
  · rw [reads.tokens_eq]
    exact List.forall_mem_singleton.mpr (.void known)
  · intro opened
    rw [reads.tokens_eq]
    simp [Token.nest?, known]

end WellNested

theorem Words.clean {text : String} {given : List String} (words : Words text given) :
    Clean text := by
  induction words with
  | own clean => exact clean
  | given text => exact Clean.escape text
  | append _ _ first second => exact first.append second

theorem Marked.wellNested {text : String} {given : List String} (marked : Marked text given) :
    WellNested text := by
  induction marked with
  | words words => exact .of_clean words.clean
  | append _ _ first second => exact first.append second
  | @element name inner given known inside ih =>
      have anyElement := List.mem_append_left (valuedElements.map Prod.fst) known
      have isElement := Token.isElement_of_known anyElement
      exact .element anyElement (Spells.tag isElement.short.1) (.opening known)
        (fun opened => Token.nest?_opening opened isElement) ih
  | @valued name key value inner first second known words inside ih =>
      have anyElement :=
        List.mem_append_right plainElements (List.mem_map_of_mem (f := Prod.fst) known)
      have noEnd : ∀ pair ∈ valuedElements, '>' ∉ pair.1.toList ++ pair.2.toList := by decide
      exact .element anyElement (spells_start rfl (noEnd _ known) words.clean)
        (.valued known words.clean) (fun opened => Token.nest?_valued opened known) ih
  | charset =>
      have known : "meta charset=\"utf-8\"" ∈ voidTags := by decide
      exact .void known

/-! Indented texts stay in the grammar: tags have no line breaks outside of their values. -/

theorem escapeChars_eq_self {text : List Char} (plain : ∀ char ∈ text, escapeChar char = [char]) :
    escapeChars text = text := by
  rw [escapeChars, List.flatMap_congr plain]
  simp

theorem reflows_escapeChar {char : Char} {after : List Char}
    (reflows : Text.Reflows (escapeChar char) after) :
    ∃ shown, after = escapeChars shown ∧ Text.Reflows [char] shown := by
  by_cases plain : escapeChar char = [char]
  · rw [plain] at reflows
    refine ⟨after, (escapeChars_eq_self fun inside member => ?_).symm, reflows⟩
    rcases reflows.mem member with same | rfl
    · rw [List.mem_singleton.mp same, plain]
    · decide
  · have oneLine : Text.OneLine (escapeChar char) := by
      fun_cases escapeChar char with
      | case6 => simp_all [escapeChar]
      | _ => decide
    exact ⟨[char], by simp [reflows.eq_of_oneLine oneLine, escapeChars], .refl _⟩

theorem reflows_escapeChars {text after : List Char}
    (reflows : Text.Reflows (escapeChars text) after) :
    ∃ shown, after = escapeChars shown ∧ Text.Reflows text shown := by
  induction text generalizing after with
  | nil => exact ⟨[], reflows.eq_of_oneLine (by decide), .done⟩
  | cons char text ih =>
      rw [escapeChars, List.flatMap_cons, ← escapeChars] at reflows
      obtain ⟨first, rest, rfl, firstReflows, restReflows⟩ := reflows.append_inv
      obtain ⟨firstShown, rfl, charReflows⟩ := reflows_escapeChar firstReflows
      obtain ⟨restShown, rfl, textReflows⟩ := ih restReflows
      refine ⟨firstShown ++ restShown, by simp [escapeChars], ?_⟩
      exact charReflows.append textReflows

theorem Words.reflows {text : String} {given : List String} (words : Words text given)
    {after : List Char} (reflows : Text.Reflows text.toList after) :
    ∃ shown, Words (String.ofList after) shown ∧ SameUpToBreaks given shown := by
  induction words generalizing after with
  | own clean =>
      exact ⟨[], .own (clean.reflows (by simpa using reflows)), .nil⟩
  | given text =>
      rw [escape, String.toList_ofList] at reflows
      obtain ⟨shown, rfl, textReflows⟩ := reflows_escapeChars reflows
      have escaped := Words.given (String.ofList shown)
      rw [escape, String.toList_ofList] at escaped
      exact ⟨_, escaped, .cons (by simpa using textReflows) .nil⟩
  | append _ _ first second =>
      rw [String.toList_append] at reflows
      obtain ⟨left, right, rfl, leftReflows, rightReflows⟩ := reflows.append_inv
      obtain ⟨leftShown, leftWords, leftSame⟩ := first leftReflows
      obtain ⟨rightShown, rightWords, rightSame⟩ := second rightReflows
      rw [String.ofList_append]
      exact ⟨_, leftWords.append rightWords, List.rel_append leftSame rightSame⟩

theorem Marked.reflows {text : String} {given : List String} (marked : Marked text given)
    {after : List Char} (reflows : Text.Reflows text.toList after) :
    ∃ shown, Marked (String.ofList after) shown ∧ SameUpToBreaks given shown := by
  have oneLineTags : ∀ name ∈ plainElements, Text.OneLine ("<" ++ name ++ ">").toList ∧
      Text.OneLine ("</" ++ name ++ ">").toList := by decide
  have oneLineStarts : ∀ pair ∈ valuedElements,
      Text.OneLine ("<" ++ pair.1 ++ " " ++ pair.2 ++ "=\"").toList ∧
        Text.OneLine ("</" ++ pair.1 ++ ">").toList := by decide
  induction marked generalizing after with
  | words words =>
      obtain ⟨shown, words, same⟩ := words.reflows reflows
      exact ⟨shown, .words words, same⟩
  | append _ _ first second =>
      rw [String.toList_append] at reflows
      obtain ⟨left, right, rfl, leftReflows, rightReflows⟩ := reflows.append_inv
      obtain ⟨leftShown, leftMarked, leftSame⟩ := first leftReflows
      obtain ⟨rightShown, rightMarked, rightSame⟩ := second rightReflows
      rw [String.ofList_append]
      exact ⟨_, leftMarked.append rightMarked, List.rel_append leftSame rightSame⟩
  | @element name inner given known inside ih =>
      rw [String.toList_append, String.toList_append] at reflows
      obtain ⟨_, finish, rfl, reflows, finishReflows⟩ := reflows.append_inv
      obtain ⟨start, shown, rfl, startReflows, innerReflows⟩ := reflows.append_inv
      obtain rfl := startReflows.eq_of_oneLine (oneLineTags name known).1
      obtain rfl := finishReflows.eq_of_oneLine (oneLineTags name known).2
      obtain ⟨innerShown, innerMarked, innerSame⟩ := ih innerReflows
      simp only [String.ofList_append, String.ofList_toList]
      exact ⟨innerShown, .element known innerMarked, innerSame⟩
  | @valued name key value inner first second known words inside ih =>
      have spelled : ("<" ++ name ++ " " ++ key ++ "=\"" ++ value ++ "\">" ++ inner ++
          ("</" ++ name ++ ">")).toList =
            ("<" ++ name ++ " " ++ key ++ "=\"").toList ++ (value.toList ++ ("\">".toList ++
              (inner.toList ++ ("</" ++ name ++ ">").toList))) := by simp
      rw [spelled] at reflows
      obtain ⟨start, _, rfl, startReflows, reflows⟩ := reflows.append_inv
      obtain ⟨shown, _, rfl, valueReflows, reflows⟩ := reflows.append_inv
      obtain ⟨quote, _, rfl, quoteReflows, reflows⟩ := reflows.append_inv
      obtain ⟨innerAfter, finish, rfl, innerReflows, finishReflows⟩ := reflows.append_inv
      obtain rfl := startReflows.eq_of_oneLine (oneLineStarts _ known).1
      obtain rfl := quoteReflows.eq_of_oneLine (by decide)
      obtain rfl := finishReflows.eq_of_oneLine (oneLineStarts _ known).2
      obtain ⟨valueShown, valueWords, valueSame⟩ := words.reflows valueReflows
      obtain ⟨innerShown, innerMarked, innerSame⟩ := ih innerReflows
      simp only [String.ofList_append, String.ofList_toList]
      refine ⟨valueShown ++ innerShown, ?_, List.rel_append valueSame innerSame⟩
      simpa only [String.append_assoc] using Marked.valued known valueWords innerMarked
  | charset =>
      obtain rfl := reflows.eq_of_oneLine (by decide)
      rw [String.ofList_toList]
      exact ⟨[], .charset, .nil⟩

def SameUpToIndents (left right : List String) : Prop :=
  List.Forall₂ (fun left right => Relation.ReflTransGen Text.Reflows left.toList right.toList)
    left right

theorem SameUpToIndents.refl (texts : List String) : SameUpToIndents texts texts :=
  List.forall₂_same.mpr fun _ _ => .refl

theorem SameUpToIndents.indented {left middle right : List String}
    (same : SameUpToIndents left middle) (breaks : SameUpToBreaks middle right) :
    SameUpToIndents left right := by
  induction same generalizing right with
  | nil =>
      cases breaks
      exact .nil
  | cons first _ ih =>
      cases breaks with
      | cons reflows rest => exact .cons (first.tail reflows) (ih rest)

/-- A text of the grammar that shows these texts from outside, all of them escaped; the lines of
messages may be indented. -/
def Displays (text : String) (texts : List String) : Prop :=
  ∃ shown, Marked text shown ∧ SameUpToIndents texts shown

namespace Displays

variable {text left right start finish name : String} {texts first second : List String}

theorem of_words (words : Words text texts) : Displays text texts :=
  ⟨texts, .words words, .refl texts⟩

theorem own (clean : Clean text) : Displays text [] := of_words (.own clean)

theorem given (text : String) : Displays (escape text) [text] := of_words (.given text)

theorem nothing : Displays "" [] := own (by decide)

theorem append (before : Displays left first) (after : Displays right second) :
    Displays (left ++ right) (first ++ second) := by
  obtain ⟨_, leftMarked, leftSame⟩ := before
  obtain ⟨_, rightMarked, rightSame⟩ := after
  exact ⟨_, leftMarked.append rightMarked, List.rel_append leftSame rightSame⟩

theorem element (known : name ∈ plainElements) (isStart : start = "<" ++ name ++ ">")
    (isFinish : finish = "</" ++ name ++ ">") (inside : Displays text texts) :
    Displays (start ++ text ++ finish) texts := by
  obtain ⟨shown, marked, same⟩ := inside
  rw [isStart, isFinish]
  exact ⟨shown, .element known marked, same⟩

theorem valued {key value : String} (known : (name, key) ∈ valuedElements)
    (isStart : start = "<" ++ name ++ " " ++ key ++ "=\"") (isFinish : finish = "</" ++ name ++ ">")
    (words : Words value first) (inside : Displays text second) :
    Displays (start ++ value ++ "\">" ++ text ++ finish) (first ++ second) := by
  obtain ⟨shown, marked, same⟩ := inside
  rw [isStart, isFinish]
  exact ⟨first ++ shown, .valued known words marked,
    List.rel_append (SameUpToIndents.refl first) same⟩

theorem join {Item : Type} {items : List Item} {write : Item → String}
    {textsOf : Item → List String} (displays : ∀ item ∈ items, Displays (write item) (textsOf item)) :
    Displays (String.join (items.map write)) (items.flatMap textsOf) := by
  induction items with
  | nil => exact nothing
  | cons item items ih =>
      obtain ⟨first, others⟩ := List.forall_mem_cons.mp displays
      rw [List.map_cons, String.join_cons, List.flatMap_cons]
      exact first.append (ih others)

theorem join_forall₂ {contents : List String} {textsOf : List (List String)}
    (displays : List.Forall₂ Displays contents textsOf) :
    Displays (String.join contents) textsOf.flatten := by
  induction displays with
  | nil => exact nothing
  | cons first _ ih =>
      rw [String.join_cons, List.flatten_cons]
      exact first.append ih

theorem indent (displays : Displays text texts) : Displays (Markup.indent text) texts := by
  obtain ⟨shown, marked, same⟩ := displays
  have feed : Marked "\n" [] := .words (.own (by decide))
  obtain ⟨indented, indentedMarked, breaks⟩ :=
    (feed.append marked).reflows (Markup.reflows_indent text)
  rw [String.ofList_toList] at indentedMarked
  exact ⟨indented, indentedMarked, same.indented breaks⟩

end Displays

end RemarkAtlas.Html
