import RemarkAtlas.Disk.Path

/-!
A disk as a tree of directories, files and symbolic links.  Places in the tree are lists of names,
the outermost first.  A name is any bytes; most names are those of a text.
-/

namespace RemarkAtlas

inductive Entry where
  | file (content : Bytes)
  | link (target : Path)
  | directory (children : List (Bytes × Entry))
  deriving Repr, Inhabited

abbrev Place := List Bytes

namespace Entry

def child? (name : Bytes) : Entry → Option Entry
  | directory children => children.lookup name
  | _ => none

def find? : Place → Entry → Option Entry
  | [], entry => some entry
  | name :: place, entry =>
    match entry.child? name with
    | some inner => find? place inner
    | none => none

def changeChild (name : Bytes) (change : Option Entry → Entry) :
    List (Bytes × Entry) → List (Bytes × Entry)
  | [] => [(name, change none)]
  | (other, entry) :: rest =>
    if name = other then (other, change (some entry)) :: rest
    else (other, entry) :: changeChild name change rest

def put (new : Entry) : Place → Entry → Entry
  | [], _ => new
  | name :: place, directory children =>
    directory (changeChild name (fun old => put new place (old.getD (directory []))) children)
  | _ :: _, other => other

mutual

def files : Entry → List (Place × Bytes)
  | file content => [([], content)]
  | link _ => []
  | directory children => filesBelow children

def filesBelow : List (Bytes × Entry) → List (Place × Bytes)
  | [] => []
  | (name, entry) :: rest =>
    (files entry).map (fun (place, content) => (name :: place, content)) ++ filesBelow rest

end

mutual

def directories : Entry → List Place
  | directory children => [] :: directoriesBelow children
  | _ => []

def directoriesBelow : List (Bytes × Entry) → List Place
  | [] => []
  | (name, entry) :: rest => (directories entry).map (name :: ·) ++ directoriesBelow rest

end

end Entry

end RemarkAtlas
