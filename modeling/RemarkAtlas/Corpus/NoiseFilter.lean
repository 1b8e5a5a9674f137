import RemarkAtlas.Record.Unit
import RemarkAtlas.Text.Affix

/-!
Leaving out records that nobody reads: those from generated sources and from bookkeeping passes.
Only top-level records are looked at; what is kept is kept with everything below it.
-/

namespace RemarkAtlas

structure NoiseFilter where
  enabled : Bool := true
  noisyFiles : List String :=
    ["pgen.c", "gimple-match.c", "generic-match.c", "insn-recog.c", "insn-emit.c"]
  excludedPasses : NameSet :=
    .ofList ["*free_lang_data", "*warn_function_noreturn", "*free_inline_summary"]
  deriving DecidableEq, Repr

namespace NoiseFilter

def disabled : NoiseFilter := { enabled := false, noisyFiles := [], excludedPasses := .empty }

def withNoisyFile (filter : NoiseFilter) (part : String) : NoiseFilter :=
  { filter with noisyFiles := filter.noisyFiles ++ [part] }

def withExcludedPass (filter : NoiseFilter) (name : String) : NoiseFilter :=
  { filter with excludedPasses := filter.excludedPasses.insert name }

def isNoisyFile (filter : NoiseFilter) (file : String) : Bool :=
  filter.noisyFiles.any fun part => Text.occursIn part.toList file.toList

def isNoise (filter : NoiseFilter) (unit : CompilationUnit) (record : Record) : Bool :=
  filter.enabled && !record.isSnapshot &&
    (record.location?.any (fun location => filter.isNoisyFile location.file) ||
      (unit.passOf? record).any fun pass => filter.excludedPasses.contains pass.name)

def apply (filter : NoiseFilter) (unit : CompilationUnit) : CompilationUnit :=
  unit.retain fun record => !filter.isNoise unit record

end NoiseFilter

end RemarkAtlas
