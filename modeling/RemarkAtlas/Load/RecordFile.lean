import RemarkAtlas.Disk.Scan
import RemarkAtlas.Document.Reader
import RemarkAtlas.Gzip.Member
import RemarkAtlas.Json.Reader

/-!
Loading compilation units from record files.  A file is decompressed if its content begins like a
compressed one, whatever its name is.
-/

namespace RemarkAtlas

inductive LoadFault where
  | unreadable (path : Path)
  | notJson (path : Path)
  | badDocument (path : Path) (fault : DocumentFault)
  | unscannable (directory : Path)
  deriving Repr

def LoadFault.message : LoadFault → String
  | unreadable path => "Failed to read " ++ path.text
  | notJson path => "Invalid JSON in " ++ path.text
  | badDocument path fault => "Failed to parse " ++ path.text ++ ": " ++ fault.message
  | unscannable directory => "Failed to scan directory: " ++ directory.text

namespace RecordFile

def unpack? (content : Bytes) : Option Bytes :=
  if Gzip.isCompressed content then Gzip.decompress? content else some content

def readDocument (disk : FileSystem) (path : Path) : Except LoadFault Json :=
  match (disk.read? path).bind unpack? with
  | none => .error (.unreadable path)
  | some content =>
    match Json.ofBytes? content with
    | none => .error (.notJson path)
    | some document => .ok document

def loadUnit (disk : FileSystem) (options : Document.Options) (path : Path) :
    Except LoadFault CompilationUnit := do
  let document ← readDocument disk path
  match Document.readUnit options document with
  | .error fault => .error (.badDocument path fault)
  | .ok unit => return unit.withFilename path

def loadUnits (disk : FileSystem) (options : Document.Options) (skipInvalid : Bool) :
    List Path → Except LoadFault (List CompilationUnit)
  | [] => .ok []
  | path :: rest =>
    match loadUnit disk options path with
    | .ok unit => do
      let units ← loadUnits disk options skipInvalid rest
      return unit :: units
    | .error fault =>
      if skipInvalid then loadUnits disk options skipInvalid rest else .error fault

def findFiles (disk : FileSystem) (directory : Path) : Except LoadFault (List Path) :=
  match disk.findRecordFiles? directory with
  | some paths => .ok paths
  | none => .error (.unscannable directory)

def findUnits (disk : FileSystem) (options : Document.Options) (directory : Path) :
    Except LoadFault (List CompilationUnit) := do
  loadUnits disk options false (← findFiles disk directory)

end RecordFile

end RemarkAtlas
