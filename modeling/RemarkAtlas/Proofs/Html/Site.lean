import RemarkAtlas.Html.Site
import RemarkAtlas.Proofs.Html.SourcePage

/-!
What a reader finds on the pages of a report: what their tables show, and the links to the three
overviews at the top.
-/

namespace RemarkAtlas.Html

def overviews : List String := ["index.html", "functions.html", "passes.html"]

theorem clean_style : Clean style := by
  have rules : ∀ rule ∈ styleRules, Clean (rule ++ "\n") := by decide +kernel
  intro char member
  rw [style, String.toList_join, List.mem_flatMap] at member
  obtain ⟨line, isLine, inside⟩ := member
  obtain ⟨rule, isRule, rfl⟩ := List.mem_map.mp isLine
  exact rules rule isRule char inside

def documentHead (title : String) : String :=
  "<!DOCTYPE html>\n<html>\n<head>\n<meta charset=\"utf-8\">\n<title>" ++ escape title ++
    "</title>\n<style>\n" ++ style ++ "</style>\n</head>\n<body>\n<h1>" ++ escape title ++
    "</h1>\n<p>"

def overviewLinks : String :=
  link "index.html" "Records" ++ " | " ++ link "functions.html" "Functions" ++ " | " ++
    link "passes.html" "Passes" ++ "</p>\n"

theorem document_eq (title body : String) :
    document title body =
      documentHead title ++ overviewLinks ++ body ++ "</body>\n</html>\n" := by
  unfold document documentHead overviewLinks
  simp only [String.append_assoc]

theorem shows_documentHead (title : String) : Shows (documentHead title) [] [] := by
  have titleShows : Shows (escape title) [] [] := (Clean.escape title).shows
  unfold documentHead
  refine titleShows.between (clean_style.shows.between (titleShows.between ?_ ?_) ?_) ?_
  all_goals exact .fixed (by decide +kernel) (by decide +kernel)

theorem linksTo_documentHead (title : String) : LinksTo (documentHead title) [] := by
  have titleLinks : LinksTo (escape title) [] := (Clean.escape title).linksTo
  unfold documentHead
  refine titleLinks.between (clean_style.linksTo.between (titleLinks.between ?_ ?_) ?_) ?_
  all_goals exact .fixed (by decide +kernel) (by decide +kernel)

theorem shows_overviewLinks : Shows overviewLinks [] [] := by
  have overview : ∀ address label, Clean address → Clean label →
      Shows (link address label) [] [] := fun _ _ address_clean label_clean =>
    (inline_link address_clean label_clean.inline).shows
  have records := overview "index.html" "Records" (by decide) (by decide)
  have functions := overview "functions.html" "Functions" (by decide) (by decide)
  have passes := overview "passes.html" "Passes" (by decide) (by decide)
  have bar : Shows " | " [] [] := .fixed (by decide) (by decide)
  have finish : Shows "</p>\n" [] [] := .fixed (by decide) (by decide)
  exact ((((records.append bar).append functions).append bar).append passes).append finish

theorem linksTo_overviewLinks : LinksTo overviewLinks overviews := by
  have records : LinksTo (link "index.html" "Records") ["index.html"] :=
    linksTo_link (by decide) (by decide)
  have functions : LinksTo (link "functions.html" "Functions") ["functions.html"] :=
    linksTo_link (by decide) (by decide)
  have passes : LinksTo (link "passes.html" "Passes") ["passes.html"] :=
    linksTo_link (by decide) (by decide)
  have bar : LinksTo " | " [] := .fixed (by decide) (by decide)
  have finish : LinksTo "</p>\n" [] := .fixed (by decide) (by decide)
  exact ((((records.append bar).append functions).append bar).append passes).append finish

theorem shows_document (title : String) {body : String} {rows anchorsFound : List String}
    (shows : Shows body rows anchorsFound) : Shows (document title body) rows anchorsFound := by
  rw [document_eq]
  exact shows.between ((shows_documentHead title).append shows_overviewLinks)
    (.fixed (by decide) (by decide))

theorem linksTo_document (title : String) {body : String} {addresses : List String}
    (linksTo : LinksTo body addresses) :
    LinksTo (document title body) (overviews ++ addresses) := by
  have finish : LinksTo "</body>\n</html>\n" [] := .fixed (by decide) (by decide)
  have start := (linksTo_documentHead title).append linksTo_overviewLinks
  rw [document_eq]
  simpa using (start.append linksTo).append finish

section Pages

variable (policy : PrecisionPolicy) (sources : CompilerSources) (units : List CompilationUnit)
  (read : String → Option String)

theorem shows_recordsPage :
    Shows ((recordsPage policy sources units).render read)
      ((Ranking.rank policy (Corpus.allRecords units)).map (rowText policy sources)) [] :=
  shows_document _ (shows_recordsTable policy sources _)

theorem shows_functionsPage : Shows ((functionsPage policy units).render read) [] [] :=
  shows_document _ (shows_functionsTable _)

theorem linksTo_functionsPage :
    LinksTo ((functionsPage policy units).render read)
      (overviews ++ (FunctionSummary.ofUnits policy units).flatMap fun summary =>
        summary.activity.sourceFile.toList.map (fun file => escape (sourcePage file)) ++
          summary.activity.peak.toList.map locationLink) :=
  linksTo_document _ (linksTo_functionsTable _)

theorem shows_passesPage : Shows ((passesPage units).render read) [] [] :=
  shows_document _ (shows_passesTable _)

theorem linksTo_passesPage :
    LinksTo ((passesPage units).render read)
      (overviews ++ (PassSummary.ofUnits units).flatMap fun summary =>
        summary.name.toList.map fun name => escape (passPage name)) :=
  linksTo_document _ (linksTo_passesTable _)

theorem shows_pageOfPass (name : String) :
    Shows ((pageOfPass policy sources units name).render read)
      ((Ranking.forPass policy units name).map (rowText policy sources)) [] :=
  shows_document _ (shows_recordsTable policy sources _)

theorem shows_pageOfSource (file : String) (records : List Sighting) :
    Shows ((pageOfSource policy sources (file, records)).render read)
      ((shownRecords policy records (read file)).map (rowText policy sources))
      ((shownLines records (read file)).map lineAnchor) := by
  have rows : (shownRecords policy records (read file)).map (rowText policy sources) =
      (shownLines records (read file)).flatMap (lineRows policy sources records) :=
    List.map_flatMap
  rw [rows]
  exact shows_document _ (shows_sourceBody policy sources records (read file))

end Pages

section Members

variable {policy : PrecisionPolicy} {sources : CompilerSources} {units : List CompilationUnit}

def inFile (units : List CompilationUnit) (file : String) : List Sighting :=
  Groups.having Sighting.file? file (Corpus.allRecords units)

theorem mem_inFile {file : String} {record : Sighting} :
    record ∈ inFile units file ↔
      record ∈ Corpus.allRecords units ∧ record.file? = some file := by
  rw [inFile, Groups.having, List.mem_filter, beq_iff_eq]

theorem mem_passNames {name : String} :
    name ∈ (PassSummary.ofUnits units).filterMap (·.name) ↔
      ∃ record ∈ Corpus.allRecords units, record.passName? = some name := by
  have keys : (PassSummary.ofUnits units).map (·.name) =
      (Groups.byKey (fun sighting => some sighting.passName?) (Corpus.allRecords units)).map
        Prod.fst := by
    rw [PassSummary.ofUnits, List.map_map]
    rfl
  have isName : name ∈ (PassSummary.ofUnits units).filterMap (·.name) ↔
      some name ∈ (PassSummary.ofUnits units).map (·.name) := by
    simp only [List.mem_filterMap, List.mem_map]
  rw [isName, keys, Groups.mem_keys]
  simp only [Option.some.injEq]

theorem mem_bySourceFile {file : String} {records : List Sighting} :
    (file, records) ∈ Corpus.bySourceFile units ↔
      records = inFile units file ∧
        ∃ record ∈ Corpus.allRecords units, record.file? = some file := by
  have nonempty : inFile units file ≠ [] ↔
      ∃ record ∈ Corpus.allRecords units, record.file? = some file := by
    simp [inFile, Groups.having]
  have isGroup : (file, records) ∈ Corpus.bySourceFile units ↔
      records ≠ [] ∧ records = inFile units file := Groups.mem_byKey
  rw [isGroup, ← nonempty]
  constructor
  · rintro ⟨found, rfl⟩
    exact ⟨rfl, found⟩
  · rintro ⟨rfl, found⟩
    exact ⟨found, rfl⟩

variable (policy sources units) in
inductive IsPage : Page → Prop
  | records : IsPage (recordsPage policy sources units)
  | functions : IsPage (functionsPage policy units)
  | passes : IsPage (passesPage units)
  | pass {record : Sighting} {name : String} (member : record ∈ Corpus.allRecords units)
      (named : record.passName? = some name) : IsPage (pageOfPass policy sources units name)
  | source {record : Sighting} {file : String} (member : record ∈ Corpus.allRecords units)
      (located : record.file? = some file) :
      IsPage (pageOfSource policy sources (file, inFile units file))

theorem mem_pages {page : Page} :
    page ∈ pages policy sources units ↔ IsPage policy sources units page := by
  rw [pages, List.mem_append, List.mem_append]
  constructor
  · rintro ((overview | pass) | source)
    · simp only [List.mem_cons, List.not_mem_nil, or_false] at overview
      rcases overview with rfl | rfl | rfl
      · exact .records
      · exact .functions
      · exact .passes
    · obtain ⟨name, isName, rfl⟩ := List.mem_map.mp pass
      obtain ⟨record, member, named⟩ := mem_passNames.mp isName
      exact .pass member named
    · obtain ⟨⟨file, records⟩, isGroup, rfl⟩ := List.mem_map.mp source
      obtain ⟨rfl, record, member, located⟩ := mem_bySourceFile.mp isGroup
      exact .source member located
  · intro isPage
    cases isPage with
    | records => simp
    | functions => simp
    | passes => simp
    | pass member named =>
        have isName := mem_passNames.mpr ⟨_, member, named⟩
        exact Or.inl (Or.inr (List.mem_map_of_mem isName))
    | source member located =>
        have isGroup := mem_bySourceFile.mpr ⟨rfl, _, member, located⟩
        exact Or.inr (List.mem_map_of_mem isGroup)

namespace IsPage

variable {page : Page}

/-- Whatever page it is, its record rows are those of records of the corpus. -/
theorem exists_rows (isPage : IsPage policy sources units page) (read : String → Option String) :
    ∃ (shown : List Sighting) (anchorsFound : List String),
      (∀ record ∈ shown, record ∈ Corpus.allRecords units) ∧
      Shows (page.render read) (shown.map (rowText policy sources)) anchorsFound := by
  cases isPage with
  | records =>
      exact ⟨_, _, fun record shown => (Ranking.rank_perm policy _).mem_iff.mp shown,
        shows_recordsPage policy sources units read⟩
  | functions => exact ⟨[], _, by simp, shows_functionsPage policy units read⟩
  | passes => exact ⟨[], _, by simp, shows_passesPage units read⟩
  | @pass _ name _ _ =>
      refine ⟨_, _, fun record shown => ?_, shows_pageOfPass policy sources units read name⟩
      exact (List.mem_filter.mp ((Ranking.rank_perm policy _).mem_iff.mp shown)).1
  | @source _ file _ _ =>
      refine ⟨_, _, fun record shown => ?_, shows_pageOfSource policy sources read file _⟩
      exact (mem_inFile.mp (mem_of_mem_shownRecords shown)).1

/-- Only the pages of source files have anchors. -/
theorem anchors_eq_nil_or (isPage : IsPage policy sources units page) :
    (∀ read, anchors (page.render read) = []) ∨
      ∃ record ∈ Corpus.allRecords units, ∃ file, record.file? = some file ∧
        page = pageOfSource policy sources (file, inFile units file) := by
  cases isPage with
  | records => exact Or.inl fun read => (shows_recordsPage policy sources units read).anchors_eq
  | functions => exact Or.inl fun read => (shows_functionsPage policy units read).anchors_eq
  | passes => exact Or.inl fun read => (shows_passesPage units read).anchors_eq
  | @pass _ name _ _ =>
      exact Or.inl fun read => (shows_pageOfPass policy sources units read name).anchors_eq
  | source member located => exact Or.inr ⟨_, member, _, located, rfl⟩

end IsPage

end Members

end RemarkAtlas.Html
