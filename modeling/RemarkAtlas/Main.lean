import RemarkAtlas.CommandLine.Invocation
import RemarkAtlas.Disk.Changes
import Std.Time.Format

/-!
The program.  What a run can look at is copied from the real disk into a value, the run is computed
on it, and the changes to the value are made on the real disk.
-/

namespace RemarkAtlas.Program

def address (place : Place) : String := "/" ++ "/".intercalate (place.map Utf8.display)

def placeOf (path : Path) : Place := path.segments.filter (· != [])

def fill (disk : FileSystem) (place : Place) (entry : Entry) : FileSystem :=
  if (disk.root.find? place).isSome then disk else disk.put place entry

def inspect? (place : Place) : IO (Option (Path × IO.FS.FileType)) := do
  try
    let real ← IO.FS.realPath (address place)
    return some (⟨real.toString⟩, (← real.metadata).type)
  catch _ => return none

def lock (disk : FileSystem) (place : Place) : FileSystem :=
  { disk with limits.unreadable := place :: disk.limits.unreadable }

def putFile (place : Place) (disk : FileSystem) : IO FileSystem := do
  try
    let content ← IO.FS.readBinFile (address place)
    return disk.put place (.file content.data.toList)
  catch _ => return lock (disk.put place (.file [])) place

/-- Copies a file or a directory tree; links stay links, and of other files than record files only
the names are copied.  Names that are not those of texts cannot be read here. -/
partial def copyTree (place : Place) (disk : FileSystem) : IO FileSystem := do
  match ← inspect? place with
  | none => return disk
  | some (real, type) =>
    if real.text != address place then return fill disk place (.link real)
    match type with
    | .dir =>
      let disk := fill disk place (.directory [])
      try
        let children ← (← IO.FS.realPath (address place)).readDir
        let places := children.toList.map fun child => place ++ [Utf8.encode child.fileName]
        places.foldlM (fun disk inner => copyTree inner disk) disk
      catch _ => return lock disk place
    | _ =>
      let isRecord := place.getLast?.any isRecordName
      if isRecord then putFile place disk else return disk.put place (.file [])

partial def copySteps (wholeTree : Bool) (place : Place) (disk : FileSystem) :
    List Bytes → IO FileSystem
  | [] => if wholeTree then copyTree place disk else return disk
  | step :: rest => do
    if step = Path.dot then copySteps wholeTree place disk rest
    else if step = Path.dotDot then copySteps wholeTree place.dropLast disk rest
    else
      let inner := place ++ [step]
      match ← inspect? inner with
      | none => return disk
      | some (real, type) =>
        if real.text != address inner then
          copySteps wholeTree [] (fill disk inner (.link real)) (placeOf real ++ rest)
        else
          match type with
          | .dir => copySteps wholeTree inner (fill disk inner (.directory [])) rest
          | _ => putFile inner disk

def copyPath (wholeTree : Bool) (disk : FileSystem) (path : Path) : IO FileSystem :=
  if FileSystem.isUsablePath path then
    copySteps wholeTree (if path.isAbsolute then [] else disk.workingDirectory) disk (placeOf path)
  else return disk

def snapshot (arguments : List String) (environmentFilter : Option String) : IO FileSystem := do
  let here ← IO.FS.realPath (← IO.currentDir)
  let empty : FileSystem := { root := .directory [], workingDirectory := placeOf ⟨here.toString⟩ }
  let disk ← copyPath false empty ⟨here.toString⟩
  match CommandLine.parse {} environmentFilter arguments with
  | .error _ => return disk
  | .ok invocation =>
    let disk ← invocation.paths.foldlM (copyPath true) disk
    (invocation.sourceFiles disk).foldlM (copyPath false) disk

def perform : Change → IO Unit
  | .makeDirectory place => IO.FS.createDir (address place)
  | .writeFile place content => IO.FS.writeBinFile (address place) ⟨content.toArray⟩

def now : IO String := do
  let time ← Std.Time.Timestamp.now
  return (Std.Time.DateTime.ofTimestamp time .UTC).toISO8601String

def usage : String := "Usage: opt-viewer [OPTIONS] <report|validate|version|help>"

end RemarkAtlas.Program

open RemarkAtlas in
def main (arguments : List String) : IO UInt32 := do
  let environmentFilter ← IO.getEnv "OPT_VIEWER_FILTER"
  let before ← Program.snapshot arguments environmentFilter
  let exit := CommandLine.run arguments environmentFilter (← Program.now) before
  (exit.disk.changesSince before).forM Program.perform
  IO.print exit.printed
  match exit.fault with
  | some fault => IO.eprintln ("Error: " ++ fault.message)
  | none => if exit.code = 2 then IO.eprintln Program.usage
  return UInt32.ofNat exit.code
