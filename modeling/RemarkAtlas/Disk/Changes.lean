import RemarkAtlas.Disk.FileSystem

/-!
What has to be done to one disk to make it another: directories that are made and files that get a
new content.  Nothing is ever removed.
-/

namespace RemarkAtlas

inductive Change where
  | makeDirectory (place : Place)
  | writeFile (place : Place) (content : Bytes)
  deriving DecidableEq, Repr

namespace Entry

def fileChange (place : Place) (content : Bytes) : Option Entry → List Change
  | some (file old) => if old = content then [] else [.writeFile place content]
  | _ => [.writeFile place content]

def directoryChange (place : Place) : Option Entry → List Change
  | some (directory _) => []
  | _ => [.makeDirectory place]

mutual

def changes (place : Place) (old : Option Entry) : Entry → List Change
  | file content => fileChange place content old
  | link _ => []
  | directory children => directoryChange place old ++ changesBelow place old children

def changesBelow (place : Place) (old : Option Entry) : List (Bytes × Entry) → List Change
  | [] => []
  | (name, entry) :: rest =>
    changes (place ++ [name]) (old.bind (child? name)) entry ++ changesBelow place old rest

end

end Entry

def FileSystem.changesSince (disk old : FileSystem) : List Change :=
  disk.root.changes [] (some old.root)

end RemarkAtlas
