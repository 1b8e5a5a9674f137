import RemarkAtlas.Disk.BufferedFile
import RemarkAtlas.Disk.FileSystem
import RemarkAtlas.Html.Site
import RemarkAtlas.Report.SummaryReader

/-!
Writing reports to disk.  What was written before a failure stays.
-/

namespace RemarkAtlas

inductive InvalidPath where
  | empty
  | isDirectory (path : Path)
  | notDirectory (path : Path)
  | cannotCreate (directory : Path)
  deriving DecidableEq, Repr

def InvalidPath.text : InvalidPath → String
  | empty => "Path is empty"
  | isDirectory path => "Path is a directory: " ++ path.text
  | notDirectory path => "Not a directory: " ++ path.text
  | cannotCreate directory => "Cannot create directory " ++ directory.text

inductive OutputFault where
  | writeFailed
  | malformedSummary
  | invalidPath (cause : InvalidPath)
  deriving DecidableEq, Repr

def OutputFault.message : OutputFault → String
  | writeFailed => "Failed to write file"
  | malformedSummary => "Failed to serialize JSON"
  | invalidPath cause => "Invalid output path: " ++ cause.text

/-- Steps that change a disk and may fail; a failure keeps the changes made before it. -/
abbrev Writing := EStateM OutputFault FileSystem

namespace Output

def fail {Value : Type} (fault : OutputFault) : Writing Value := EStateM.throw fault

def checkPath (disk : FileSystem) (path : Path) : Except InvalidPath Unit :=
  if path.isEmpty then .error .empty
  else if disk.isDirectory path then .error (.isDirectory path)
  else .ok ()

def createFile (path : Path) (fill : Room → Bytes × Option OutputFault) : Writing Unit := do
  let disk ← get
  let (content, fault) := fill (disk.room path)
  match disk.write? path content with
  | none => fail .writeFailed
  | some written =>
    set written
    match fault with
    | none => return ()
    | some fault => fail fault

def writeFile (path : Path) (text : String) : Writing Unit :=
  createFile path fun room =>
    (room.keep text, if room.fits text then none else some .writeFailed)

/-- Writes through a buffer; a fault that shows only when the file is closed is not told. -/
def writeBuffered (path : Path) (pieces : List Bytes) : Writing Unit :=
  createFile path fun room =>
    let (succeeds, file) := (BufferedFile.create room).writeAll pieces
    (file.close, if succeeds then none else some .malformedSummary)

def makeDirectory (path : Path) (fault : OutputFault) : Writing Unit := do
  let (made, disk) := (← get).createDirectory path
  set disk
  if made then return () else fail fault

def makeParent (path : Path) : Writing Unit := do
  match path.parent? with
  | none => return ()
  | some parent =>
    if parent.isEmpty || (← get).exists? parent then return ()
    else makeDirectory parent (.invalidPath (.cannotCreate parent))

def writeSummary (summary : Summary) (path : Path) : Writing Unit := do
  match checkPath (← get) path with
  | .error cause => fail (.invalidPath cause)
  | .ok () =>
    makeParent path
    writeBuffered path summary.pieces

/-- Reads a summary back; a file that cannot be opened and one that holds no summary are told
apart, and a directory can be opened. -/
def readSummary (disk : FileSystem) (path : Path) : Except OutputFault Summary :=
  match disk.open? path with
  | some (.file content) =>
    match SummaryReader.ofBytes? content with
    | some summary => .ok summary
    | none => .error .malformedSummary
  | some _ => .error .malformedSummary
  | none => .error .writeFailed

def writePage (directory : Path) (page : Html.Page) : Writing Unit := do
  let disk ← get
  writeFile (directory.join page.name) (page.render fun file => disk.readText? ⟨file⟩)

def writePages (directory : Path) : List Html.Page → Writing Unit
  | [] => return ()
  | page :: rest => do
    writePage directory page
    writePages directory rest

structure SiteSize where
  pageCount : Nat
  recordCount : Nat
  deriving DecidableEq, Repr

def writeSite (policy : PrecisionPolicy) (sources : CompilerSources)
    (units : List CompilationUnit) (directory : Path) : Writing SiteSize := do
  let disk ← get
  if disk.exists? directory && !disk.isDirectory directory then
    fail (.invalidPath (.notDirectory directory))
  else
    let pages := Html.pages policy sources units
    makeDirectory directory .writeFailed
    writePages directory pages
    return { pageCount := pages.length, recordCount := (Corpus.allRecords units).length }

end Output

end RemarkAtlas
