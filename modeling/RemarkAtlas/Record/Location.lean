import RemarkAtlas.Text.Affix

/-!
Places that records point at: positions in the compiled sources, and positions in the compiler's own
sources with the links under which these can be browsed.
-/

namespace RemarkAtlas

structure Location where
  file : String
  line : UInt32
  column : UInt32
  deriving DecidableEq, Repr

def Location.text (location : Location) : String :=
  location.file ++ ":" ++ toString location.line.toNat ++ ":" ++ toString location.column.toNat

structure CompilerLocation where
  file : String
  line : UInt32
  function : String
  deriving DecidableEq, Repr

def CompilerLocation.text (location : CompilerLocation) : String :=
  location.file ++ ":" ++ toString location.line.toNat ++ ": '" ++ location.function ++ "'"

structure CompilerSources where
  root : String := "../../src/"
  address : String := "https://github.com/gcc-mirror/gcc/blob/master/"
  deriving DecidableEq, Repr

def CompilerSources.link? (sources : CompilerSources) (location : CompilerLocation) :
    Option String :=
  (Text.afterStart? sources.root.toList location.file.toList).map fun rest =>
    sources.address ++ String.ofList rest ++ "#L" ++ toString location.line.toNat

end RemarkAtlas
