import RemarkAtlas.Proofs.Html.Inline

/-!
What a reader finds in the tables: their record rows with the cells of these, and the links of the
summaries.
-/

namespace RemarkAtlas.Html

instance (token : Token) : Decidable token.IsWhole :=
  match token with
  | .letter char => inferInstanceAs (Decidable (char ≠ '<'))
  | .tag text => inferInstanceAs (Decidable ('>' ∉ text.toList))

structure Shows (text : String) (rows anchorsFound : List String) : Prop where
  hasRows : HasParts opensRecordRow (· == .tag "/tr") text rows
  anchors_eq : anchors text = anchorsFound

theorem flatMap_nothing {Item : Type} (items : List Item) :
    items.flatMap (fun _ => ([] : List String)) = [] :=
  List.flatMap_eq_nil_iff.mpr fun _ _ => rfl

namespace Shows

variable {text left right : String} {rows anchorsFound : List String}

theorem whole (shows : Shows text rows anchorsFound) : Whole text := shows.hasRows.whole

theorem of_tokens {read : List Token} (spells : Spells read text)
    (noRow : ∀ token ∈ read, opensRecordRow token = false) :
    Shows text [] (read.filterMap (·.attribute? "id")) where
  hasRows := .none spells.toWhole (spells.tokens_eq.symm ▸ noRow)
  anchors_eq := by rw [anchors, spells.tokens_eq]

theorem nothing : Shows "" [] [] := of_tokens Spells.nothing (by simp)

/-- Fixed texts are read by evaluation. -/
theorem fixed {text : String} (sameText : text.toList = (tokens text).flatMap Token.spell)
    (plain : ∀ token ∈ tokens text,
      token.IsWhole ∧ opensRecordRow token = false ∧ token.attribute? "id" = none) :
    Shows text [] [] where
  hasRows := .none ⟨sameText, fun token member => (plain token member).1⟩
    fun token member => (plain token member).2.1
  anchors_eq := List.filterMap_eq_nil_iff.mpr fun token member => (plain token member).2.2

theorem append {moreRows moreAnchors : List String} (first : Shows left rows anchorsFound)
    (second : Shows right moreRows moreAnchors) :
    Shows (left ++ right) (rows ++ moreRows) (anchorsFound ++ moreAnchors) where
  hasRows := first.hasRows.append second.hasRows
  anchors_eq := by
    rw [anchors_append first.whole second.whole, first.anchors_eq, second.anchors_eq]

theorem join {Item : Type} {items : List Item} {write : Item → String}
    {rowsOf anchorsOf : Item → List String}
    (shows : ∀ item ∈ items, Shows (write item) (rowsOf item) (anchorsOf item)) :
    Shows (String.join (items.map write)) (items.flatMap rowsOf) (items.flatMap anchorsOf) := by
  induction items with
  | nil => exact nothing
  | cons item items ih =>
      obtain ⟨first, others⟩ := List.forall_mem_cons.mp shows
      rw [List.map_cons, String.join_cons, List.flatMap_cons, List.flatMap_cons]
      exact first.append (ih others)

theorem join_unanchored {Item : Type} {items : List Item} {write : Item → String}
    {rowsOf : Item → List String} (shows : ∀ item ∈ items, Shows (write item) (rowsOf item) []) :
    Shows (String.join (items.map write)) (items.flatMap rowsOf) [] := by
  have joined := join shows
  rwa [flatMap_nothing] at joined

theorem join_plain {Item : Type} {items : List Item} {write : Item → String}
    (shows : ∀ item ∈ items, Shows (write item) [] []) :
    Shows (String.join (items.map write)) [] [] := by
  have joined := join_unanchored shows
  rwa [flatMap_nothing] at joined

theorem between {before after : String} (shows : Shows text rows anchorsFound)
    (first : Shows before [] []) (last : Shows after [] []) :
    Shows (before ++ text ++ after) rows anchorsFound := by
  simpa using (first.append shows).append last

theorem cell (shows : Shows text rows anchorsFound) : Shows (cell text) rows anchorsFound :=
  shows.between (fixed (by decide) (by decide)) (fixed (by decide) (by decide))

theorem table {head : String} (shows : Shows text rows anchorsFound) (headShows : Shows head [] []) :
    Shows (table head text) rows anchorsFound := by
  have start : Shows ("<table>\n" ++ head) [] [] :=
    (fixed (by decide) (by decide)).append headShows
  exact shows.between start (fixed (by decide) (by decide))

end Shows

theorem Inline.shows {text : String} (inline : Inline text) : Shows text [] [] where
  hasRows := .none inline.whole fun token member => by
    simp [opensRecordRow, (inline.tokens token member).element_ne "tr" (by decide)]
  anchors_eq := inline.anchors

theorem Clean.shows {text : String} (clean : Clean text) : Shows text [] [] := clean.inline.shows

theorem shows_heading {text : String} (clean : Clean text) : Shows (heading text) [] [] :=
  clean.shows.between (.fixed (by decide) (by decide)) (.fixed (by decide) (by decide))

theorem shows_headingRow {texts : List String} (clean : ∀ text ∈ texts, Clean text) :
    Shows (headingRow texts) [] [] :=
  (Shows.join_plain fun text member => shows_heading (clean text member)).between
    (.fixed (by decide) (by decide)) (.fixed (by decide) (by decide))

section Rows

variable (policy : PrecisionPolicy) (sources : CompilerSources) (sighting : Sighting)

def recordCells : List String :=
  let record := sighting.record
  [shown countText (policy.hotness record),
    escape record.kind.tag,
    shown passLink sighting.passName?,
    escape (record.function?.getD ""),
    shown placeLink record.location?,
    "<pre>" ++ markup.render record ++ "</pre>",
    shown inliningText record.inlining?,
    shown (emitterText sources) record.emitter?]

def rowText : String :=
  "<tr class=\"" ++ escape sighting.record.effectiveOutcome.tag ++ "\">" ++
    String.join ((recordCells policy sources sighting).map cell) ++ "</tr>"

theorem recordRow_eq :
    recordRow policy sources sighting = rowText policy sources sighting ++ "\n" := by
  have ending : "</tr>\n" = "</tr>" ++ "\n" := rfl
  unfold recordRow rowText recordCells
  simp only [ending, List.map_cons, List.map_nil, String.join_cons, String.join_nil,
    String.append_assoc, String.empty_append]

def cellBelow (heading row : String) : Option String :=
  (recordHeadings.zip (cells row)).lookup heading

end Rows

theorem inline_shown {Value : Type} {view : Value → String} (inline : ∀ value, Inline (view value))
    (value? : Option Value) : Inline (shown view value?) := by
  cases value? with
  | none => exact .nothing
  | some value => exact inline value

theorem inline_passLink (name : String) : Inline (passLink name) :=
  inline_link (Clean.escape _) (Clean.escape _).inline

theorem inline_placeLink (location : Location) : Inline (placeLink location) :=
  inline_link (clean_locationLink _) (Clean.escape _).inline

theorem inline_fileLink (file : String) : Inline (fileLink file) :=
  inline_link (Clean.escape _) (Clean.escape _).inline

theorem inline_emitterText (sources : CompilerSources) (emitter : CompilerLocation) :
    Inline (emitterText sources emitter) := by
  rw [emitterText]
  split
  · exact inline_link (Clean.escape _) (Clean.escape _).inline
  · exact (Clean.escape _).inline

theorem clean_inliningText (frames : List InliningFrame) : Clean (inliningText frames) := by
  induction frames with
  | nil => decide
  | cons frame frames ih =>
      cases frames with
      | nil => exact Clean.escape _
      | cons next frames =>
          rw [inliningText, List.map_cons, List.map_cons, String.intercalate_cons_cons]
          exact ((Clean.escape _).append (by decide)).append ih

theorem inline_recordCells (policy : PrecisionPolicy) (sources : CompilerSources)
    (sighting : Sighting) : ∀ content ∈ recordCells policy sources sighting, Inline content := by
  have message : Inline ("<pre>" ++ markup.render sighting.record ++ "</pre>") :=
    ((Inline.tag "pre" (by decide)).append (inline_render _)).append (Inline.tag "/pre" (by decide))
  simp only [recordCells, List.forall_mem_cons, List.not_mem_nil, false_implies, implies_true,
    and_true]
  exact ⟨inline_shown (fun value => (Clean.toString _).inline) _, (Clean.escape _).inline,
    inline_shown inline_passLink _, (Clean.escape _).inline, inline_shown inline_placeLink _,
    message, inline_shown (fun frames => (clean_inliningText frames).inline) _,
    inline_shown (inline_emitterText sources) _⟩

theorem spells_cellStart : Spells [.tag "td"] "<td>" := Spells.tag (by decide)

theorem spells_cellEnd : Spells [.tag "/td"] "</td>" := Spells.tag (by decide)

theorem spells_rowEnd : Spells [.tag "/tr"] "</tr>" := Spells.tag (by decide)

theorem tokens_cell {content : String} (whole : Whole content) :
    tokens (cell content) = .tag "td" :: tokens content ++ [.tag "/td"] := by
  exact ((spells_cellStart.append whole).append spells_cellEnd).tokens_eq

theorem hasCells_cell {content : String} (inline : Inline content) :
    HasParts (· == .tag "td") (· == .tag "/td") (cell content) [cell content] := by
  refine HasParts.one spells_cellStart (by decide) inline.whole ?_ spells_cellEnd (by decide)
  intro token member
  refine beq_false_of_ne ?_
  rintro rfl
  exact (inline.tokens _ member).element_ne "/td" (by decide) (by decide)

section Records

variable (policy : PrecisionPolicy) (sources : CompilerSources) (sighting : Sighting)

theorem spells_rowStart :
    Spells [.withAttribute "tr" "class" (escape sighting.record.effectiveOutcome.tag)]
      ("<tr class=\"" ++ escape sighting.record.effectiveOutcome.tag ++ "\">") :=
  spells_start rfl (by decide) (Clean.escape _)

theorem hasCells_rowText :
    HasParts (· == .tag "td") (· == .tag "/td") (rowText policy sources sighting)
      ((recordCells policy sources sighting).map cell) := by
  have start : HasParts (· == .tag "td") (· == .tag "/td")
      ("<tr class=\"" ++ escape sighting.record.effectiveOutcome.tag ++ "\">") [] := by
    refine .none (spells_rowStart sighting).toWhole ?_
    rw [(spells_rowStart sighting).tokens_eq]
    refine List.forall_mem_singleton.mpr (beq_false_of_ne ?_)
    intro same
    have element : (Token.withAttribute "tr" "class"
        (escape sighting.record.effectiveOutcome.tag)).element? = some "tr" :=
      Token.element?_withAttribute (by decide) _ _
    rw [same] at element
    exact absurd element (by decide)
  have inner : HasParts (· == .tag "td") (· == .tag "/td")
      (String.join ((recordCells policy sources sighting).map cell))
      ((recordCells policy sources sighting).flatMap fun content => [cell content]) := by
    refine HasParts.join ?_
    intro content member
    exact hasCells_cell (inline_recordCells policy sources sighting content member)
  have finish : HasParts (· == .tag "td") (· == .tag "/td") "</tr>" [] :=
    .none spells_rowEnd.toWhole (by decide)
  rw [← List.map_eq_flatMap] at inner
  simpa [rowText] using (start.append inner).append finish

theorem cells_rowText :
    cells (rowText policy sources sighting) = (recordCells policy sources sighting).map cell :=
  (hasCells_rowText policy sources sighting).parts_eq

theorem shows_cells :
    Shows (String.join ((recordCells policy sources sighting).map cell)) [] [] :=
  .join_plain fun content member =>
    (inline_recordCells policy sources sighting content member).shows.cell

theorem noRowEnd_cells :
    ∀ token ∈ tokens (String.join ((recordCells policy sources sighting).map cell)),
      (token == .tag "/tr") = false := by
  have inline := inline_recordCells policy sources sighting
  have wholeCells : ∀ text ∈ (recordCells policy sources sighting).map cell, Whole text := by
    intro text member
    obtain ⟨content, isContent, rfl⟩ := List.mem_map.mp member
    exact (hasCells_cell (inline content isContent)).whole
  intro token member
  rw [Whole.tokens_join wholeCells, List.flatMap_map] at member
  obtain ⟨content, isContent, inside⟩ := List.mem_flatMap.mp member
  rw [tokens_cell (inline content isContent).whole, List.cons_append] at inside
  refine beq_false_of_ne ?_
  rintro rfl
  rcases List.mem_cons.mp inside with start | inside
  · exact absurd start (by decide)
  · rcases List.mem_append.mp inside with content | finish
    · exact ((inline _ isContent).tokens _ content).element_ne "/tr" (by decide) (by decide)
    · exact absurd finish (by decide)

theorem shows_rowText :
    Shows (rowText policy sources sighting) [rowText policy sources sighting] [] where
  hasRows := by
    have noQuote : '"' ∉ (escape sighting.record.effectiveOutcome.tag).toList :=
      fun member => (Clean.escape _ '"' member).2.2 rfl
    refine HasParts.one (spells_rowStart sighting) ?_ (shows_cells policy sources sighting).whole
      (noRowEnd_cells policy sources sighting) spells_rowEnd (by decide)
    rw [opensRecordRow, Token.element?_withAttribute (by decide),
      Token.attribute?_withAttribute (by decide) "class" noQuote]
    rfl
  anchors_eq := by
    have inner := shows_cells policy sources sighting
    have start := (spells_rowStart sighting).toWhole
    rw [rowText, anchors_append (start.append inner.whole) spells_rowEnd.toWhole,
      anchors_append start inner.whole, inner.anchors_eq, anchors,
      (spells_rowStart sighting).tokens_eq, show anchors "</tr>" = [] by decide]
    simp [Token.withAttribute, Token.attribute?, Text.afterStart?]

theorem shows_recordRow :
    Shows (recordRow policy sources sighting) [rowText policy sources sighting] [] := by
  rw [recordRow_eq]
  exact (shows_rowText policy sources sighting).append (Shows.fixed (by decide) (by decide))

theorem shows_recordsTable (records : List Sighting) :
    Shows (recordsTable policy sources records) (records.map (rowText policy sources)) [] := by
  have rows := Shows.join_unanchored fun record (_ : record ∈ records) =>
    shows_recordRow policy sources record
  rw [← List.map_eq_flatMap] at rows
  exact rows.table (shows_headingRow (by decide))

theorem passCell_rowText :
    cellBelow "Pass" (rowText policy sources sighting) =
      some (cell (shown passLink sighting.passName?)) := by
  rw [cellBelow, cells_rowText]
  rfl

theorem locationCell_rowText :
    cellBelow "Location" (rowText policy sources sighting) =
      some (cell (shown placeLink sighting.location?)) := by
  rw [cellBelow, cells_rowText]
  rfl

theorem messageCell_rowText :
    cellBelow "Message" (rowText policy sources sighting) =
      some (cell ("<pre>" ++ markup.render sighting.record ++ "</pre>")) := by
  rw [cellBelow, cells_rowText]
  rfl

end Records

structure LinksTo (text : String) (addresses : List String) : Prop where
  whole : Whole text
  links_eq : links text = addresses

namespace LinksTo

variable {text left right : String} {addresses : List String}

theorem fixed (sameText : text.toList = (tokens text).flatMap Token.spell)
    (plain : ∀ token ∈ tokens text, token.IsWhole ∧ token.href? = none) : LinksTo text [] where
  whole := ⟨sameText, fun token member => (plain token member).1⟩
  links_eq := List.filterMap_eq_nil_iff.mpr fun token member => (plain token member).2

theorem append {more : List String} (first : LinksTo left addresses) (second : LinksTo right more) :
    LinksTo (left ++ right) (addresses ++ more) where
  whole := first.whole.append second.whole
  links_eq := by rw [links_append first.whole second.whole, first.links_eq, second.links_eq]

theorem join {Item : Type} {items : List Item} {write : Item → String}
    {addressesOf : Item → List String}
    (linksTo : ∀ item ∈ items, LinksTo (write item) (addressesOf item)) :
    LinksTo (String.join (items.map write)) (items.flatMap addressesOf) := by
  induction items with
  | nil => exact ⟨Whole.nothing, rfl⟩
  | cons item items ih =>
      obtain ⟨first, others⟩ := List.forall_mem_cons.mp linksTo
      rw [List.map_cons, String.join_cons, List.flatMap_cons]
      exact first.append (ih others)

theorem between {before after : String} (linksTo : LinksTo text addresses)
    (first : LinksTo before []) (last : LinksTo after []) :
    LinksTo (before ++ text ++ after) addresses := by
  simpa using (first.append linksTo).append last

theorem cell (linksTo : LinksTo text addresses) : LinksTo (cell text) addresses :=
  linksTo.between (fixed (by decide) (by decide)) (fixed (by decide) (by decide))

theorem table {head : String} (linksTo : LinksTo text addresses) (headLinks : LinksTo head []) :
    LinksTo (table head text) addresses := by
  have start : LinksTo ("<table>\n" ++ head) [] :=
    (fixed (by decide) (by decide)).append headLinks
  exact linksTo.between start (fixed (by decide) (by decide))

end LinksTo

theorem Inline.linksTo {text : String} (inline : Inline text) : LinksTo text (links text) :=
  ⟨inline.whole, rfl⟩

theorem Clean.linksTo {text : String} (clean : Clean text) : LinksTo text [] :=
  ⟨clean.inline.whole, clean.links⟩

theorem linksTo_link {address label : String} (address_clean : Clean address)
    (label_clean : Clean label) : LinksTo (link address label) [address] where
  whole := (inline_link address_clean label_clean.inline).whole
  links_eq := by rw [links_link address_clean label_clean.inline, label_clean.links]

theorem linksTo_passLink (name : String) : LinksTo (passLink name) [escape (passPage name)] :=
  linksTo_link (Clean.escape _) (Clean.escape _)

theorem linksTo_placeLink (location : Location) :
    LinksTo (placeLink location) [locationLink location] :=
  linksTo_link (clean_locationLink _) (Clean.escape _)

theorem linksTo_fileLink (file : String) : LinksTo (fileLink file) [escape (sourcePage file)] :=
  linksTo_link (Clean.escape _) (Clean.escape _)

theorem linksTo_shown {Value : Type} {view : Value → String} {addresses : Value → List String}
    (linksTo : ∀ value, LinksTo (view value) (addresses value)) (value? : Option Value) :
    LinksTo (shown view value?) (value?.toList.flatMap addresses) := by
  cases value? with
  | none => exact ⟨Whole.nothing, rfl⟩
  | some value => simpa [shown] using linksTo value

section Summaries

variable {Item : Type} (headings : List String) (contents : Item → List String) (items : List Item)

theorem shows_row {texts : List String} (inline : ∀ text ∈ texts, Inline text) :
    Shows (row texts) [] [] :=
  (Shows.join_plain fun text member => (inline text member).shows.cell).between
    (.fixed (by decide) (by decide)) (.fixed (by decide) (by decide))

theorem linksTo_row {texts : List String} (inline : ∀ text ∈ texts, Inline text) :
    LinksTo (row texts) (texts.flatMap links) :=
  (LinksTo.join fun text member => (inline text member).linksTo.cell).between
    (.fixed (by decide) (by decide)) (.fixed (by decide) (by decide))

theorem linksTo_headingRow {texts : List String} (clean : ∀ text ∈ texts, Clean text) :
    LinksTo (headingRow texts) [] := by
  have labels : LinksTo (String.join (texts.map heading)) (texts.flatMap fun _ => []) := by
    refine .join fun text member => ?_
    exact (clean text member).linksTo.between (.fixed (by decide) (by decide))
      (.fixed (by decide) (by decide))
  rw [flatMap_nothing] at labels
  exact labels.between (.fixed (by decide) (by decide)) (.fixed (by decide) (by decide))

theorem shows_summaries (clean : ∀ text ∈ headings, Clean text)
    (inline : ∀ item ∈ items, ∀ text ∈ contents item, Inline text) :
    Shows (table (headingRow headings) (String.join (items.map fun item => row (contents item))))
      [] [] :=
  (Shows.join_plain fun item member => shows_row (inline item member)).table
    (shows_headingRow clean)

theorem linksTo_summaries (clean : ∀ text ∈ headings, Clean text)
    (inline : ∀ item ∈ items, ∀ text ∈ contents item, Inline text) :
    LinksTo (table (headingRow headings) (String.join (items.map fun item => row (contents item))))
      (items.flatMap fun item => (contents item).flatMap links) :=
  (LinksTo.join fun item member => linksTo_row (inline item member)).table
    (linksTo_headingRow clean)

def passCells (summary : PassSummary) : List String :=
  let name := match summary.name with
    | some name => passLink name
    | none => escape summary.displayName
  [name, toString summary.topLevel, toString summary.total]

theorem inline_passCells (summary : PassSummary) : ∀ text ∈ passCells summary, Inline text := by
  have counts : Inline (toString summary.topLevel) ∧ Inline (toString summary.total) :=
    ⟨(Clean.toString _).inline, (Clean.toString _).inline⟩
  rw [passCells]
  cases summary.name with
  | some name => simpa [inline_passLink] using counts
  | none => simpa [(Clean.escape _).inline] using counts

theorem links_passCells (summary : PassSummary) :
    (passCells summary).flatMap links =
      summary.name.toList.map fun name => escape (passPage name) := by
  have counts : ∀ number : Nat, links number.repr = [] := fun number => (Clean.toString number).links
  cases named : summary.name with
  | some name => simp [passCells, named, (linksTo_passLink name).links_eq, counts]
  | none => simp [passCells, named, (Clean.escape _).links, counts]

theorem shows_passesTable (summaries : List PassSummary) : Shows (passesTable summaries) [] [] :=
  shows_summaries _ passCells summaries (by decide) fun summary _ => inline_passCells summary

theorem linksTo_passesTable (summaries : List PassSummary) :
    LinksTo (passesTable summaries)
      (summaries.flatMap fun summary =>
        summary.name.toList.map fun name => escape (passPage name)) := by
  have linksTo := linksTo_summaries ["Pass", "Top-level", "Total"] passCells summaries (by decide)
    fun summary _ => inline_passCells summary
  simp only [links_passCells] at linksTo
  exact linksTo

def functionCells (summary : FunctionSummary) : List String :=
  [escape summary.name, shown countText summary.activity.hotness,
    shown fileLink summary.activity.sourceFile, shown placeLink summary.activity.peak]

theorem inline_functionCells (summary : FunctionSummary) :
    ∀ text ∈ functionCells summary, Inline text := by
  simp only [functionCells, List.forall_mem_cons, List.not_mem_nil, false_implies, implies_true,
    and_true]
  exact ⟨(Clean.escape _).inline, inline_shown (fun value => (Clean.toString _).inline) _,
    inline_shown inline_fileLink _, inline_shown inline_placeLink _⟩

theorem links_functionCells (summary : FunctionSummary) :
    (functionCells summary).flatMap links =
      summary.activity.sourceFile.toList.map (fun file => escape (sourcePage file)) ++
        summary.activity.peak.toList.map locationLink := by
  have count : links (shown countText summary.activity.hotness) = [] := by
    cases summary.activity.hotness with
    | none => rfl
    | some value => exact (Clean.toString value.toNat).links
  have file := (linksTo_shown linksTo_fileLink summary.activity.sourceFile).links_eq
  have peak := (linksTo_shown linksTo_placeLink summary.activity.peak).links_eq
  rw [← List.map_eq_flatMap] at file peak
  simp [functionCells, (Clean.escape summary.name).links, count, file, peak]

theorem shows_functionsTable (summaries : List FunctionSummary) :
    Shows (functionsTable summaries) [] [] :=
  shows_summaries _ functionCells summaries (by decide) fun summary _ =>
    inline_functionCells summary

theorem linksTo_functionsTable (summaries : List FunctionSummary) :
    LinksTo (functionsTable summaries)
      (summaries.flatMap fun summary =>
        summary.activity.sourceFile.toList.map (fun file => escape (sourcePage file)) ++
          summary.activity.peak.toList.map locationLink) := by
  have linksTo := linksTo_summaries ["Function", "Hotness", "Source file", "Peak"] functionCells
    summaries (by decide) fun summary _ => inline_functionCells summary
  simp only [links_functionCells] at linksTo
  exact linksTo

end Summaries

end RemarkAtlas.Html
