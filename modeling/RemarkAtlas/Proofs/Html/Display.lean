import RemarkAtlas.Proofs.Html.Grammar
import RemarkAtlas.Proofs.Html.Site

/-!
The pages of a report in the grammar of pages, with the texts from outside that each of them shows:
what records, functions, passes and source files say, in the order of the page.  Whatever they say,
a page stays well nested.
-/

namespace RemarkAtlas

namespace Html

/-! Messages -/

def placeAddress (location : Location) : List String := [sourcePage location.file]

def itemTexts (item : MessageItem) : List String :=
  item.location?.toList.flatMap placeAddress ++ [item.text]

end Html

namespace Record

mutual

def messageTexts : Record → List String
  | .remark _ details children =>
    details.message.flatMap Html.itemTexts ++ messageTextsBelow children
  | .snapshot _ _ => []

def messageTextsBelow : List Record → List String
  | [] => []
  | child :: rest => messageTexts child ++ messageTextsBelow rest

end

end Record

namespace Html

theorem words_locationLink (location : Location) :
    Words (locationLink location) (placeAddress location) := by
  have page := Words.given (sourcePage location.file)
  have sign : Words "#" [] := .own (by decide)
  exact (page.append sign).append (.own (clean_lineAnchor location.line))

theorem displays_link {address inner : String} {first second : List String}
    (words : Words address first) (inside : Displays inner second) :
    Displays (link address inner) (first ++ second) :=
  .valued (show ("a", "href") ∈ valuedElements by decide) rfl rfl words inside

theorem displays_item (item : MessageItem) : Displays (markup.item item) [item.text] :=
  .element (show "code" ∈ plainElements by decide) rfl rfl (.given item.text)

theorem displays_renderItem (item : MessageItem) :
    Displays (markup.renderItem item) (itemTexts item) := by
  cases item with
  | plain text => exact .given text
  | expression text location? | statement text location? | symbol text location? =>
      cases location? with
      | none => exact displays_item _
      | some location => exact displays_link (words_locationLink location) (displays_item _)

mutual

theorem displays_render : ∀ record : Record, Displays (markup.render record) record.messageTexts
  | .remark _ details children =>
      (Displays.join fun item (_ : item ∈ details.message) => displays_renderItem item).append
        (displays_renderBelow children)
  | .snapshot _ _ => .nothing

theorem displays_renderBelow : ∀ records : List Record,
    Displays (markup.renderBelow records) (Record.messageTextsBelow records)
  | [] => .nothing
  | child :: rest => (displays_render child).indent.append (displays_renderBelow rest)

end

/-! Tables -/

theorem displays_shown {Value : Type} {view : Value → String} {textsOf : Value → List String}
    (displays : ∀ value, Displays (view value) (textsOf value)) (value? : Option Value) :
    Displays (shown view value?) (value?.toList.flatMap textsOf) := by
  cases value? with
  | none => exact .nothing
  | some value => simpa [shown] using displays value

theorem Displays.cell {content : String} {texts : List String} (displays : Displays content texts) :
    Displays (cell content) texts :=
  .element (show "td" ∈ plainElements by decide) rfl rfl displays

theorem displays_cells {contents : List String} {texts : List (List String)}
    (displays : List.Forall₂ Displays contents texts) :
    Displays (String.join (contents.map cell)) texts.flatten := by
  refine .join_forall₂ ?_
  rw [List.forall₂_map_left_iff]
  exact displays.imp fun _ _ => Displays.cell

theorem Displays.line {text : String} {texts : List String} (displays : Displays text texts) :
    Displays (text ++ "\n") texts := by
  simpa using displays.append (.own (by decide : Clean "\n"))

theorem displays_line_of_cells {cells : String} {texts : List String}
    (displays : Displays cells texts) : Displays ("<tr>" ++ cells ++ "</tr>\n") texts := by
  have inside : Displays ("<tr>" ++ cells ++ "</tr>") texts :=
    .element (show "tr" ∈ plainElements by decide) rfl rfl displays
  have ending : "</tr>\n" = "</tr>" ++ "\n" := rfl
  rw [ending, ← String.append_assoc]
  exact inside.line

theorem displays_row {contents : List String} {texts : List (List String)}
    (displays : List.Forall₂ Displays contents texts) : Displays (row contents) texts.flatten :=
  displays_line_of_cells (displays_cells displays)

theorem displays_headingRow {headings : List String} (clean : ∀ text ∈ headings, Clean text) :
    Displays (headingRow headings) [] := by
  have labels : Displays (String.join (headings.map heading)) (headings.flatMap fun _ => []) :=
    .join fun text member =>
      .element (show "th" ∈ plainElements by decide) rfl rfl (.own (clean text member))
  rw [flatMap_nothing] at labels
  exact displays_line_of_cells labels

theorem displays_table {head body : String} {texts : List String} (headDisplays : Displays head [])
    (displays : Displays body texts) : Displays (table head body) texts := by
  have content : Displays ("\n" ++ head ++ body) texts :=
    ((Displays.own (by decide)).append headDisplays).append displays
  have inside : Displays ("<table>" ++ ("\n" ++ head ++ body) ++ "</table>") texts :=
    .element (show "table" ∈ plainElements by decide) rfl rfl content
  have table_eq : table head body = "<table>" ++ ("\n" ++ head ++ body) ++ "</table>" ++ "\n" := by
    rw [table, ← String.toList_inj]
    simp
  exact table_eq ▸ inside.line

def nameTexts (name : String) : List String := [passPage name, name]

def placeTexts (location : Location) : List String := placeAddress location ++ [location.text]

def emitterTexts (sources : CompilerSources) (emitter : CompilerLocation) : List String :=
  (sources.link? emitter).toList ++ [emitter.text]

def cellTexts (sources : CompilerSources) (sighting : Sighting) : List (List String) :=
  let record := sighting.record
  [[], [record.kind.tag], sighting.passName?.toList.flatMap nameTexts, [record.function?.getD ""],
    record.location?.toList.flatMap placeTexts, record.messageTexts,
    record.inlining?.toList.flatMap fun frames => frames.map (·.function),
    record.emitter?.toList.flatMap (emitterTexts sources)]

def rowTexts (sources : CompilerSources) (sighting : Sighting) : List String :=
  sighting.record.effectiveOutcome.tag :: (cellTexts sources sighting).flatten

theorem displays_passLink (name : String) : Displays (passLink name) (nameTexts name) :=
  displays_link (.given (passPage name)) (.given name)

theorem displays_placeLink (location : Location) :
    Displays (placeLink location) (placeTexts location) :=
  displays_link (words_locationLink location) (.given location.text)

theorem displays_emitterText (sources : CompilerSources) (emitter : CompilerLocation) :
    Displays (emitterText sources emitter) (emitterTexts sources emitter) := by
  rw [emitterText, emitterTexts]
  cases sources.link? emitter with
  | none => exact .given emitter.text
  | some address => exact displays_link (.given address) (.given emitter.text)

theorem displays_inliningText (frames : List InliningFrame) :
    Displays (inliningText frames) (frames.map (·.function)) := by
  induction frames with
  | nil => exact .nothing
  | cons frame frames ih =>
      cases frames with
      | nil => exact .given frame.function
      | cons next frames =>
          rw [inliningText, List.map_cons, List.map_cons, String.intercalate_cons_cons]
          exact ((Displays.given frame.function).append (.own (by decide))).append ih

section Records

variable (policy : PrecisionPolicy) (sources : CompilerSources)

theorem displays_recordCells (sighting : Sighting) :
    List.Forall₂ Displays (recordCells policy sources sighting) (cellTexts sources sighting) := by
  have count : Displays (shown countText (policy.hotness sighting.record)) [] := by
    cases policy.hotness sighting.record with
    | none => exact .nothing
    | some value => exact .own (Clean.toString value.toNat)
  have message : Displays ("<pre>" ++ markup.render sighting.record ++ "</pre>")
      sighting.record.messageTexts :=
    .element (show "pre" ∈ plainElements by decide) rfl rfl (displays_render sighting.record)
  exact .cons count <| .cons (.given _) <| .cons (displays_shown displays_passLink _) <|
    .cons (.given _) <| .cons (displays_shown displays_placeLink _) <| .cons message <|
    .cons (displays_shown displays_inliningText _) <|
    .cons (displays_shown (displays_emitterText sources) _) .nil

theorem displays_recordRow (sighting : Sighting) :
    Displays (recordRow policy sources sighting) (rowTexts sources sighting) := by
  rw [recordRow_eq, rowText]
  have start : Words (escape sighting.record.effectiveOutcome.tag)
      [sighting.record.effectiveOutcome.tag] := .given _
  have cells := displays_cells (displays_recordCells policy sources sighting)
  exact (Displays.valued (show ("tr", "class") ∈ valuedElements by decide) rfl rfl start cells).line

theorem displays_recordsTable (records : List Sighting) :
    Displays (recordsTable policy sources records) (records.flatMap (rowTexts sources)) :=
  displays_table (displays_headingRow (by decide))
    (.join fun sighting _ => displays_recordRow policy sources sighting)

end Records

def fileTexts (file : String) : List String := [sourcePage file, file]

theorem displays_fileLink (file : String) : Displays (fileLink file) (fileTexts file) :=
  displays_link (.given (sourcePage file)) (.given file)

theorem displays_number (number : Nat) : Displays (toString number) [] :=
  .own (Clean.toString number)

theorem displays_count (value? : Option UInt64) : Displays (shown countText value?) [] := by
  cases value? with
  | none => exact .nothing
  | some value => exact displays_number value.toNat

def functionTexts (summary : FunctionSummary) : List (List String) :=
  [[summary.name], [], summary.activity.sourceFile.toList.flatMap fileTexts,
    summary.activity.peak.toList.flatMap placeTexts]

theorem displays_functionsTable (summaries : List FunctionSummary) :
    Displays (functionsTable summaries)
      (summaries.flatMap fun summary => (functionTexts summary).flatten) :=
  displays_table (displays_headingRow (by decide)) <| .join fun summary _ =>
    displays_row <| .cons (.given summary.name) <| .cons (displays_count _) <|
      .cons (displays_shown displays_fileLink _) <|
      .cons (displays_shown displays_placeLink _) .nil

def passTexts (summary : PassSummary) : List String :=
  match summary.name with
  | some name => nameTexts name
  | none => [summary.displayName]

theorem displays_passesTable (summaries : List PassSummary) :
    Displays (passesTable summaries) (summaries.flatMap passTexts) := by
  have cells : ∀ summary, List.Forall₂ Displays (passCells summary) [passTexts summary, [], []] := by
    intro summary
    have counts := List.Forall₂.cons (displays_number summary.topLevel)
      (.cons (displays_number summary.total) .nil)
    rw [passCells, passTexts]
    cases summary.name with
    | some name => exact .cons (displays_passLink name) counts
    | none => exact .cons (.given summary.displayName) counts
  refine displays_table (displays_headingRow (by decide)) (.join fun summary _ => ?_)
  have shown : Displays (passRow summary) ([passTexts summary, [], []]).flatten :=
    displays_row (cells summary)
  simpa using shown

/-! Pages of source files -/

section Sources

variable (policy : PrecisionPolicy) (sources : CompilerSources)

theorem displays_lineRow (line : UInt32) (text : String) : Displays (lineRow line text) [text] := by
  have start : Words (lineAnchor line) [] := .own (clean_lineAnchor line)
  have shown : Displays ("<pre>" ++ escape text ++ "</pre>") [text] :=
    .element (show "pre" ∈ plainElements by decide) rfl rfl (.given text)
  have cells := (displays_number line.toNat).cell.append shown.cell
  have ending : "</tr>\n" = "</tr>" ++ "\n" := rfl
  have whole : Displays ("<tr id=\"" ++ lineAnchor line ++ "\">" ++ (cell (toString line.toNat) ++
      cell ("<pre>" ++ escape text ++ "</pre>")) ++ "</tr>") [text] :=
    .valued (show ("tr", "id") ∈ valuedElements by decide) rfl rfl start cells
  rw [lineRow, ending]
  simpa only [String.append_assoc] using whole.line

def tableTexts (records : List Sighting) : List String :=
  (Ranking.rank policy records).flatMap (rowTexts sources)

theorem displays_lineTable (records : List Sighting) :
    Displays (lineTable policy sources records) (tableTexts policy sources records) :=
  displays_recordsTable policy sources _

theorem displays_lineRecords (byLine : List (UInt32 × List Sighting)) (line : UInt32) :
    Displays (lineRecords policy sources byLine line)
      (tableTexts policy sources ((byLine.lookup line).getD [])) := by
  rw [lineRecords]
  cases byLine.lookup line with
  | none => simpa [tableTexts, Ranking.rank, Ranking.rankBy] using Displays.nothing
  | some records =>
      have table := displays_lineTable policy sources records
      simpa using displays_row (.cons .nothing (.cons table .nil))

theorem displays_lineSection (group : UInt32 × List Sighting) :
    Displays (lineSection policy sources group) (tableTexts policy sources group.2) := by
  have start : Words (lineAnchor group.1) [] := .own (clean_lineAnchor group.1)
  have label : Displays "Line " [] := .own (by decide)
  have heading : Displays ("<h2 id=\"" ++ lineAnchor group.1 ++ "\">" ++
      ("Line " ++ toString group.1.toNat) ++ "</h2>") [] :=
    .valued (show ("h2", "id") ∈ valuedElements by decide) rfl rfl start
      (label.append (displays_number group.1.toNat))
  have table := displays_lineTable policy sources group.2
  have starting : "\">Line " = "\">" ++ "Line " := rfl
  have ending : "</h2>\n" = "</h2>" ++ "\n" := rfl
  rw [lineSection, starting, ending]
  simpa only [String.append_assoc, List.nil_append] using heading.line.append table

def sourceTexts (records : List Sighting) (source : Option String) : List String :=
  let byLine := Corpus.byLine records
  match source with
  | some text =>
    let lines := Text.lines text
    (lines.zipIdx.flatMap fun (text, index) =>
      text :: tableTexts policy sources ((byLine.lookup (lineAt index)).getD [])) ++
      (byLine.filter fun group => isOutside lines.length group.1).flatMap fun group =>
        tableTexts policy sources group.2
  | none => byLine.flatMap fun group => tableTexts policy sources group.2

theorem displays_sections (groups : List (UInt32 × List Sighting)) :
    Displays (String.join (groups.map (lineSection policy sources)))
      (groups.flatMap fun group => tableTexts policy sources group.2) :=
  .join fun group _ => displays_lineSection policy sources group

theorem displays_sourceBody (records : List Sighting) (source : Option String) :
    Displays (sourceBody policy sources records source)
      (sourceTexts policy sources records source) := by
  cases source with
  | none => exact displays_sections policy sources _
  | some text =>
      have lines : Displays
          (listing policy sources (Corpus.byLine records) (Text.lines text)) _ :=
        .join fun entry _ => (displays_lineRow (lineAt entry.2) entry.1).append
          (displays_lineRecords policy sources (Corpus.byLine records) (lineAt entry.2))
      exact (displays_table .nothing lines).append (displays_sections policy sources _)

end Sources

/-! Documents -/

theorem displays_overviewLinks : Displays ("<p>" ++ overviewLinks) [] := by
  have overview : ∀ address label, Clean address → Clean label →
      Displays (link address label) [] := fun _ _ address_clean label_clean =>
    displays_link (.own address_clean) (.own label_clean)
  have records := overview "index.html" "Records" (by decide) (by decide)
  have functions := overview "functions.html" "Functions" (by decide) (by decide)
  have passes := overview "passes.html" "Passes" (by decide) (by decide)
  have bar : Displays " | " [] := .own (by decide)
  have links := (((records.append bar).append functions).append bar).append passes
  have paragraph : Displays ("<p>" ++ (link "index.html" "Records" ++ " | " ++
      link "functions.html" "Functions" ++ " | " ++ link "passes.html" "Passes") ++ "</p>") [] :=
    .element (show "p" ∈ plainElements by decide) rfl rfl links
  have ending : "</p>\n" = "</p>" ++ "\n" := rfl
  rw [overviewLinks, ending]
  simpa only [String.append_assoc] using paragraph.line

def headText (title : String) : String :=
  "\n<meta charset=\"utf-8\">\n" ++ ("<title>" ++ escape title ++ "</title>") ++ "\n" ++
    ("<style>" ++ ("\n" ++ style) ++ "</style>") ++ "\n"

def bodyText (title body : String) : String :=
  "\n" ++ ("<h1>" ++ escape title ++ "</h1>") ++ "\n" ++ ("<p>" ++ overviewLinks) ++ body

def htmlText (title body : String) : String :=
  "\n" ++ ("<head>" ++ headText title ++ "</head>") ++ "\n" ++
    ("<body>" ++ bodyText title body ++ "</body>") ++ "\n"

theorem document_parts (title body : String) :
    document title body =
      "<!DOCTYPE html>\n" ++ ("<html>" ++ htmlText title body ++ "</html>" ++ "\n") := by
  have start : "<!DOCTYPE html>\n<html>\n<head>\n<meta charset=\"utf-8\">\n<title>" =
      "<!DOCTYPE html>\n" ++ ("<html>" ++ ("\n" ++ ("<head>" ++
        ("\n<meta charset=\"utf-8\">\n" ++ "<title>")))) := by decide
  have rules : "</title>\n<style>\n" = "</title>" ++ ("\n" ++ ("<style>" ++ "\n")) := by
    decide
  have middle : "</style>\n</head>\n<body>\n<h1>" =
      "</style>" ++ ("\n" ++ ("</head>" ++ ("\n" ++ ("<body>" ++ ("\n" ++ "<h1>"))))) := by
    decide
  have heading : "</h1>\n<p>" = "</h1>" ++ ("\n" ++ "<p>") := by decide
  have finish : "</body>\n</html>\n" = "</body>" ++ ("\n" ++ ("</html>" ++ "\n")) := by
    decide
  unfold document htmlText headText bodyText overviewLinks
  simp only [start, rules, middle, heading, finish, String.append_assoc]

theorem displays_head (title : String) : Displays (headText title) [title] := by
  have titleElement : Displays ("<title>" ++ escape title ++ "</title>") [title] :=
    .element (show "title" ∈ plainElements by decide) rfl rfl (.given title)
  have styleElement : Displays ("<style>" ++ ("\n" ++ style) ++ "</style>") [] :=
    .element (show "style" ∈ plainElements by decide) rfl rfl
      (.append (.own (by decide)) (.own clean_style))
  have charset : Displays "<meta charset=\"utf-8\">" [] := ⟨[], .charset, .refl []⟩
  have start : Displays "\n<meta charset=\"utf-8\">\n" [] :=
    (Displays.append (.own (by decide : Clean "\n")) charset).line
  exact ((start.append titleElement).line.append styleElement).line

theorem displays_bodyText (title : String) {body : String} {texts : List String}
    (displays : Displays body texts) : Displays (bodyText title body) (title :: texts) := by
  have heading : Displays ("<h1>" ++ escape title ++ "</h1>") [title] :=
    .element (show "h1" ∈ plainElements by decide) rfl rfl (.given title)
  have feed : Displays "\n" [] := .own (by decide)
  exact ((feed.append heading).line.append displays_overviewLinks).append displays

/-- The title of a page is shown twice, as the name of the document and as its heading. -/
theorem displays_document (title : String) {body : String} {texts : List String}
    (displays : Displays body texts) :
    ∃ element, document title body = "<!DOCTYPE html>\n" ++ element ∧
      Displays element (title :: title :: texts) := by
  have head : Displays ("<head>" ++ headText title ++ "</head>") [title] :=
    .element (show "head" ∈ plainElements by decide) rfl rfl (displays_head title)
  have shown : Displays ("<body>" ++ bodyText title body ++ "</body>") (title :: texts) :=
    .element (show "body" ∈ plainElements by decide) rfl rfl (displays_bodyText title displays)
  have feed : Displays "\n" [] := .own (by decide)
  have inside : Displays (htmlText title body) (title :: title :: texts) :=
    ((feed.append head).line.append shown).line
  have whole : Displays ("<html>" ++ htmlText title body ++ "</html>") (title :: title :: texts) :=
    .element (show "html" ∈ plainElements by decide) rfl rfl inside
  exact ⟨_, document_parts title body, whole.line⟩

section Pages

variable (policy : PrecisionPolicy) (sources : CompilerSources) (units : List CompilationUnit)
  (read : String → Option String)

inductive PageTexts : Page → List String → Prop
  | records : PageTexts (recordsPage policy sources units)
      ((Ranking.rank policy (Corpus.allRecords units)).flatMap (rowTexts sources))
  | functions : PageTexts (functionsPage policy units)
      ((FunctionSummary.ofUnits policy units).flatMap fun summary => (functionTexts summary).flatten)
  | passes : PageTexts (passesPage units) ((PassSummary.ofUnits units).flatMap passTexts)
  | pass (name : String) : PageTexts (pageOfPass policy sources units name)
      ((Ranking.forPass policy units name).flatMap (rowTexts sources))
  | source (file : String) : PageTexts (pageOfSource policy sources (file, inFile units file))
      (sourceTexts policy sources (inFile units file) (read file))

variable {policy sources units}

theorem PageTexts.displays {page : Page} {texts : List String}
    (pageTexts : PageTexts policy sources units read page texts) :
    Displays (page.body read) texts := by
  cases pageTexts with
  | records => exact displays_recordsTable policy sources _
  | functions => exact displays_functionsTable _
  | passes => exact displays_passesTable _
  | pass name => exact displays_recordsTable policy sources _
  | source file => exact displays_sourceBody policy sources _ _

theorem IsPage.exists_pageTexts {page : Page} (isPage : IsPage policy sources units page) :
    ∃ texts, PageTexts policy sources units read page texts := by
  cases isPage with
  | records => exact ⟨_, .records⟩
  | functions => exact ⟨_, .functions⟩
  | passes => exact ⟨_, .passes⟩
  | @pass _ name _ _ => exact ⟨_, .pass name⟩
  | @source _ file _ _ => exact ⟨_, .source file⟩

/-- A page is a document around its title, shown twice, and the texts of its body. -/
theorem PageTexts.displays_render {page : Page} {texts : List String}
    (pageTexts : PageTexts policy sources units read page texts) :
    ∃ element, page.render read = "<!DOCTYPE html>\n" ++ element ∧
      Displays element (page.title :: page.title :: texts) :=
  displays_document page.title (pageTexts.displays read)

end Pages

theorem Displays.wellNested {text : String} {texts : List String} (displays : Displays text texts) :
    WellNested text := by
  obtain ⟨_, marked, _⟩ := displays
  exact marked.wellNested

theorem wellNested_doctype : WellNested "<!DOCTYPE html>\n" :=
  (WellNested.void (show "!DOCTYPE html" ∈ voidTags by decide)).append
    (.of_clean (by decide : Clean "\n"))

end Html

end RemarkAtlas
