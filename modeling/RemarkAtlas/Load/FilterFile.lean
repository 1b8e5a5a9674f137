import RemarkAtlas.Corpus.NoiseFilter
import RemarkAtlas.Disk.FileSystem
import RemarkAtlas.Toml.Reader

/-!
Noise filters from files.  A member that is missing keeps its default, and other members are ignored
as long as the file is well-formed.
-/

namespace RemarkAtlas

inductive FilterFault where
  | unreadable
  | malformed
  deriving DecidableEq, Repr

namespace FilterFile

def string? : Toml → Option String
  | .string text => some text
  | _ => none

def strings? : Toml → Option (List String)
  | .array items => items.mapM string?
  | _ => none

def memberOr {Value : Type} (default : Value) (read : Toml → Option Value) (key : String)
    (members : TomlMembers) : Option Value :=
  match members.lookup key with
  | none => some default
  | some value => read value

def boolean? : Toml → Option Bool
  | .boolean value => some value
  | _ => none

def ofMembers? (members : TomlMembers) : Option NoiseFilter := do
  let default : NoiseFilter := {}
  let enabled ← memberOr default.enabled boolean? "enabled" members
  let noisyFiles ← memberOr default.noisyFiles strings? "noisy_file_substrings" members
  let excludedPasses ← memberOr default.excludedPasses
    (fun value => (strings? value).map NameSet.ofList) "excluded_passes" members
  return { enabled, noisyFiles, excludedPasses }

def load (disk : FileSystem) (path : Path) : Except FilterFault NoiseFilter :=
  match disk.readText? path with
  | none => .error .unreadable
  | some text =>
    match (TomlReader.ofText? text).bind ofMembers? with
    | none => .error .malformed
    | some filter => .ok filter

end FilterFile

end RemarkAtlas
