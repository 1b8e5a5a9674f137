import RemarkAtlas.Disk.Entry
import RemarkAtlas.Disk.Limits

/-!
Reading and writing by path.  A path leads from the root or from the working directory to a place;
on the way symbolic links are followed, at most forty of them, and names must not be too long.
-/

namespace RemarkAtlas

structure FileSystem where
  root : Entry
  workingDirectory : Place
  limits : Limits := {}
  deriving Repr, Inhabited

inductive Lookup where
  | found (place : Place) (entry : Entry)
  /-- Only the last name is missing from a directory. -/
  | absent (place : Place)
  /-- A directory on the way is missing. -/
  | missing
  /-- Something on the way is no directory, or the path cannot be used. -/
  | blocked

namespace FileSystem

def greatestNameLength : Nat := 255

def greatestPathLength : Nat := 4095

def greatestLinkCount : Nat := 40

def isUsablePath (path : Path) : Bool :=
  path.bytes.length ≤ greatestPathLength && !path.bytes.contains 0

/-- The steps of a path; a slash at its end asks for a directory, like a single dot. -/
def steps (path : Path) : List Bytes :=
  let names := path.segments.filter (· != [])
  if path.bytes.getLast? = some Path.slash then names ++ [Path.dot] else names

inductive Walk where
  | arrived (lookup : Lookup)
  | detour (place : Place) (target : Path) (rest : List Bytes)

def walk (root : Entry) (followLast : Bool) (place : Place) : List Bytes → Walk
  | [] => .arrived <|
    match root.find? place with
    | some entry => .found place entry
    | none => .missing
  | step :: rest =>
    if step = Path.dot then walk root followLast place rest
    else if step = Path.dotDot then walk root followLast place.dropLast rest
    else if greatestNameLength < step.length then .arrived .blocked
    else
      let inner := place ++ [step]
      match root.find? inner with
      | none => .arrived (if rest.isEmpty then .absent inner else .missing)
      | some (.directory _) => walk root followLast inner rest
      | some (.file content) =>
        .arrived (if rest.isEmpty then .found inner (.file content) else .blocked)
      | some (.link target) =>
        if rest.isEmpty && !followLast then .arrived (.found inner (.link target))
        else .detour place target rest

def follow (root : Entry) (followLast : Bool) : Nat → Place → List Bytes → Lookup
  | links, place, path =>
    match walk root followLast place path, links with
    | .arrived lookup, _ => lookup
    | .detour _ _ _, 0 => .blocked
    | .detour place target rest, links + 1 =>
      follow root followLast links (if target.isAbsolute then [] else place)
        (steps target ++ rest)

def lookup (disk : FileSystem) (path : Path) (followLast : Bool) : Lookup :=
  if !isUsablePath path then .blocked
  else if path.isEmpty then .missing
  else
    let start := if path.isAbsolute then [] else disk.workingDirectory
    follow disk.root followLast greatestLinkCount start (steps path)

def entry? (disk : FileSystem) (path : Path) : Option Entry :=
  match disk.lookup path true with
  | .found _ entry => some entry
  | _ => none

def exists? (disk : FileSystem) (path : Path) : Bool := (disk.entry? path).isSome

def isDirectory (disk : FileSystem) (path : Path) : Bool :=
  match disk.entry? path with
  | some (.directory _) => true
  | _ => false

/-- What the file at a path holds, whether or not it may be read. -/
def content? (disk : FileSystem) (path : Path) : Option Bytes :=
  match disk.entry? path with
  | some (.file content) => some content
  | _ => none

def contentText? (disk : FileSystem) (path : Path) : Option String :=
  (disk.content? path).bind Utf8.decode

def open? (disk : FileSystem) (path : Path) : Option Entry :=
  match disk.lookup path true with
  | .found place entry => if disk.limits.isReadable place then some entry else none
  | _ => none

def read? (disk : FileSystem) (path : Path) : Option Bytes :=
  match disk.open? path with
  | some (.file content) => some content
  | _ => none

def readText? (disk : FileSystem) (path : Path) : Option String :=
  (disk.read? path).bind Utf8.decode

def put (disk : FileSystem) (place : Place) (entry : Entry) : FileSystem :=
  { disk with root := Entry.put entry place disk.root }

def write? (disk : FileSystem) (path : Path) (content : Bytes) : Option FileSystem :=
  match disk.lookup path true with
  | .found place (.file _) => some (disk.put place (.file content))
  | .absent place => some (disk.put place (.file content))
  | _ => none

def room (disk : FileSystem) (path : Path) : Room :=
  match disk.lookup path true with
  | .found place _ => disk.limits.room place
  | .absent place => disk.limits.room place
  | _ => none

def withoutFinalSlashes (path : Path) : Path :=
  let bytes := (path.bytes.reverse.dropWhile (· == Path.slash)).reverse
  if bytes.isEmpty then path else ⟨bytes⟩

def makeDirectory (disk : FileSystem) (path : Path) : Lookup × FileSystem :=
  let target := disk.lookup (withoutFinalSlashes path) false
  match target with
  | .absent place => (target, disk.put place (.directory []))
  | _ => (target, disk)

/-- Makes the first of some directories after the others, as far as they are missing; each one is
the parent of the one before it.  The result tells whether the first directory is there. -/
def makeDirectories : List Path → FileSystem → Bool × FileSystem
  | [], disk => (false, disk)
  | path :: outer, disk =>
    if path.isEmpty then (true, disk)
    else
      match disk.makeDirectory path with
      | (.absent _, disk) => (true, disk)
      | (.missing, disk) =>
        match makeDirectories outer disk with
        | (false, disk) => (false, disk)
        | (true, disk) =>
          match disk.makeDirectory path with
          | (.absent _, disk) => (true, disk)
          | (_, disk) => (disk.isDirectory path, disk)
      | (_, disk) => (disk.isDirectory path, disk)

def createDirectory (disk : FileSystem) (path : Path) : Bool × FileSystem :=
  makeDirectories path.ancestors disk

end FileSystem

end RemarkAtlas
