import RemarkAtlas.Text.Utf8

/-!
Paths as bytes, whose parts are separated by slashes.  Repeated slashes and single dots separate
like one slash, except for a single dot at the front.
-/

namespace RemarkAtlas

structure Path where
  bytes : Bytes
  deriving DecidableEq, Repr, Inhabited

inductive PathPart where
  | root
  | here
  | above
  | name (bytes : Bytes)
  deriving DecidableEq, Repr

namespace Path

def slash : UInt8 := 0x2f

def dot : Bytes := [0x2e]

def dotDot : Bytes := [0x2e, 0x2e]

def text (path : Path) : String := Utf8.display path.bytes

def isEmpty (path : Path) : Bool := path.bytes.isEmpty

def isAbsolute (path : Path) : Bool := path.bytes.head? == some slash

def segmentsOf : Bytes → Bytes → List Bytes
  | reversed, [] => [reversed.reverse]
  | reversed, byte :: rest =>
    if byte = slash then reversed.reverse :: segmentsOf [] rest
    else segmentsOf (byte :: reversed) rest

def segments (path : Path) : List Bytes := segmentsOf [] path.bytes

def partsOf : List Bytes → List PathPart
  | [] => []
  | segment :: rest =>
    if segment = [] ∨ segment = dot then partsOf rest
    else if segment = dotDot then .above :: partsOf rest
    else .name segment :: partsOf rest

def parts (path : Path) : List PathPart :=
  match path.isAbsolute, path.segments with
  | true, segments => .root :: partsOf segments
  | false, segments =>
    if segments.head? = some dot then .here :: partsOf segments.tail else partsOf segments

def fileName? (path : Path) : Option Bytes :=
  match path.parts.getLast? with
  | some (.name bytes) => some bytes
  | _ => none

def dropRedundantEnd (segments : List Bytes) : List Bytes :=
  (segments.reverse.dropWhile fun segment => segment == [] || segment == dot).reverse

def parent? (path : Path) : Option Path :=
  match path.segments with
  | [] => none
  | first :: rest =>
    let inner := dropRedundantEnd rest
    let outer := dropRedundantEnd inner.dropLast
    if path.isAbsolute then
      if inner.isEmpty then none else some ⟨slash :: [slash].intercalate outer⟩
    else if inner.isEmpty then if first = [] then none else some ⟨[]⟩
    else some ⟨[slash].intercalate (first :: outer)⟩

def ancestorsUpTo : Nat → Path → List Path
  | 0, path => [path]
  | count + 1, path =>
    match path.parent? with
    | some outer => path :: ancestorsUpTo count outer
    | none => [path]

def ancestors (path : Path) : List Path := ancestorsUpTo path.segments.length path

def join (directory : Path) (inner : Bytes) : Path :=
  if inner.head? = some slash then ⟨inner⟩
  else if directory.isEmpty || directory.bytes.getLast? == some slash then
    ⟨directory.bytes ++ inner⟩
  else ⟨directory.bytes ++ slash :: inner⟩

end Path

end RemarkAtlas
