import RemarkAtlas.Html.Source

/-!
The report as a list of pages: all records, the functions, the passes, one page for each pass and
one for each source file.
-/

namespace RemarkAtlas.Html

structure Page where
  name : String
  title : String
  body : (String → Option String) → String

def styleRules : List String :=
  ["body \x7b font-family: sans-serif; \x7d",
    "table \x7b border-collapse: collapse; \x7d",
    "td, th \x7b border: 1px solid #ccc; padding: 2px 6px; vertical-align: top; \x7d",
    "pre \x7b margin: 0; \x7d",
    ".success \x7b background: #dfd; \x7d",
    ".failure \x7b background: #fdd; \x7d",
    ".note \x7b background: #eef; \x7d",
    ".scope \x7b background: #eee; \x7d"]

def style : String := String.join (styleRules.map (· ++ "\n"))

def document (title body : String) : String :=
  let title := escape title
  "<!DOCTYPE html>\n<html>\n<head>\n<meta charset=\"utf-8\">\n<title>" ++ title ++
    "</title>\n<style>\n" ++ style ++ "</style>\n</head>\n<body>\n<h1>" ++ title ++
    "</h1>\n<p>" ++ link "index.html" "Records" ++ " | " ++ link "functions.html" "Functions" ++
    " | " ++ link "passes.html" "Passes" ++ "</p>\n" ++ body ++ "</body>\n</html>\n"

def Page.render (page : Page) (source : String → Option String) : String :=
  document page.title (page.body source)

def recordsPage (policy : PrecisionPolicy) (sources : CompilerSources)
    (units : List CompilationUnit) : Page where
  name := "index.html"
  title := "Optimization records"
  body _ := recordsTable policy sources (Ranking.rank policy (Corpus.allRecords units))

def functionsPage (policy : PrecisionPolicy) (units : List CompilationUnit) : Page where
  name := "functions.html"
  title := "Functions"
  body _ := functionsTable (FunctionSummary.ofUnits policy units)

def passesPage (units : List CompilationUnit) : Page where
  name := "passes.html"
  title := "Passes"
  body _ := passesTable (PassSummary.ofUnits units)

def pageOfPass (policy : PrecisionPolicy) (sources : CompilerSources)
    (units : List CompilationUnit) (name : String) : Page where
  name := passPage name
  title := "Pass: " ++ name
  body _ := recordsTable policy sources (Ranking.forPass policy units name)

def pageOfSource (policy : PrecisionPolicy) (sources : CompilerSources)
    (group : String × List Sighting) : Page where
  name := sourcePage group.1
  title := "Source: " ++ group.1
  body source := sourceBody policy sources group.2 (source group.1)

def pages (policy : PrecisionPolicy) (sources : CompilerSources) (units : List CompilationUnit) :
    List Page :=
  [recordsPage policy sources units, functionsPage policy units, passesPage units] ++
    ((PassSummary.ofUnits units).filterMap (·.name)).map (pageOfPass policy sources units) ++
    (Corpus.bySourceFile units).map (pageOfSource policy sources)

end RemarkAtlas.Html
