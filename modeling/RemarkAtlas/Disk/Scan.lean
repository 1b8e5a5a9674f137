import RemarkAtlas.Disk.FileSystem
import RemarkAtlas.Text.Affix

/-!
Finding record files below a directory.  The directory itself may be a link; links below it are
neither followed nor listed.
-/

namespace RemarkAtlas

def recordFileEndings : List String := [".opt-record.json.gz", ".opt-record.json"]

/-- The name of a record file is that of a text. -/
def isRecordName (name : Bytes) : Bool :=
  match Utf8.decode name with
  | none => false
  | some text => recordFileEndings.any fun ending => Text.endsWith ending.toList text.toList

def Path.isRecordFile (path : Path) : Bool := path.fileName?.any isRecordName

def Path.below (directory : Path) (place : Place) : Path := place.foldl Path.join directory

def recordFilesAmong (directory : Path) (places : List Place) : List Path :=
  let ordered := places.mergeSort fun left right => (compare left right).isLE
  (ordered.map directory.below).filter (·.isRecordFile)

namespace FileSystem

def scanRoot? (disk : FileSystem) (directory : Path) : Option (Place × Entry) :=
  match disk.lookup directory false with
  | .found place (.link target) =>
    match disk.lookup directory true with
    | .found base (.directory children) => some (base, .directory children)
    | .found _ _ => some (place, .link target)
    | _ => none
  | .found place entry => some (place, entry)
  | _ => none

/-- A directory is listed by its whole path, which must not be too long. -/
def canList (disk : FileSystem) (place : Place) (path : Path) : Bool :=
  disk.limits.isReadable place && isUsablePath path

/-- The record files at and below a path, in the order of their paths; nothing if there is nothing
to scan, or if one of the directories cannot be listed. -/
def findRecordFiles? (disk : FileSystem) (directory : Path) : Option (List Path) :=
  match disk.scanRoot? directory with
  | none => none
  | some (base, root) =>
    if root.directories.all fun inner => disk.canList (base ++ inner) (directory.below inner) then
      some (recordFilesAmong directory (root.files.map (·.1)))
    else none

end FileSystem

end RemarkAtlas
