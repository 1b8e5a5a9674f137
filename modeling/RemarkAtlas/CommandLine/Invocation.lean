import RemarkAtlas.CommandLine.Arguments
import RemarkAtlas.Report.Validation

/-!
The command line of the program: what its arguments ask for, and what is done about it.
-/

namespace RemarkAtlas.CommandLine

structure ReportArguments where
  buildDirectory : Path
  siteDirectory : Option Path
  summaryFile : Option Path
  limit : Nat
  quiet : Bool
  noFilter : Bool
  filterFile : Option Path
  skipInvalid : Bool
  compilerSources : CompilerSources
  deriving Repr

inductive Command where
  | report (arguments : ReportArguments)
  | validate (file : Path)
  | version
  deriving Repr

structure Invocation where
  command : Command
  options : Document.Options
  deriving Repr

def sharedOptions : List OptionName := [.help, .verbose, .acceptNameAsSymtab]

def reportGrammar : Grammar where
  options := sharedOptions ++ [.outputDir, .json, .top, .quiet, .noFilter, .filterConfig,
    .skipInvalid, .implPrefix, .implBaseUrl]
  operandLimit := 1

def validateGrammar : Grammar := ⟨sharedOptions, 1⟩

def versionGrammar : Grammar := ⟨sharedOptions, 0⟩

def programGrammar : Grammar := ⟨.version :: sharedOptions, 0⟩

def environmentPath? (value : Option String) : Except Stop (Option Path) :=
  match value with
  | none => .ok none
  | some text => if text.isEmpty then .error .misuse else .ok (some ⟨text⟩)

def reportArguments (given : Given) (environmentFilter : Option String) :
    Except Stop ReportArguments := do
  let path? (name : OptionName) : Option Path := (given.value? name).map fun text => ⟨text⟩
  let filterFile ← match path? .filterConfig with
    | some path => pure (some path)
    | none => environmentPath? environmentFilter
  match given.operands with
  | [directory] =>
    let sources : CompilerSources := {}
    return {
      buildDirectory := ⟨directory⟩
      siteDirectory := path? .outputDir
      summaryFile := path? .json
      limit := ((given.value? .top).bind number?).getD 20
      quiet := given.flags.contains .quiet
      noFilter := given.flags.contains .noFilter
      filterFile
      skipInvalid := given.flags.contains .skipInvalid
      compilerSources := {
        root := (given.value? .implPrefix).getD sources.root
        address := (given.value? .implBaseUrl).getD sources.address } }
  | _ => .error .misuse

def command (name : String) (arguments : List String) (environmentFilter : Option String) :
    Except Stop (Command × Given) := do
  if name = "report" then
    let given ← reportGrammar.read {} none arguments
    return (.report (← reportArguments given environmentFilter), given)
  else if name = "validate" then
    let given ← validateGrammar.read {} none arguments
    match given.operands with
    | [file] => return (.validate ⟨file⟩, given)
    | _ => .error .misuse
  else if name = "version" then
    let given ← versionGrammar.read {} none arguments
    return (.version, given)
  else .error .misuse

def commandNames : List String := ["report", "validate", "version", "help"]

def helpRequest : List String → Stop
  | [] => .help
  | [name] => if commandNames.contains name then .help else .misuse
  | _ => .misuse

def parse (before : Given) (environmentFilter : Option String) :
    List String → Except Stop Invocation
  | [] => .error .misuse
  | text :: rest =>
    if text = "help" then .error (helpRequest rest)
    else if commandNames.contains text then do
      let (command, given) ← command text rest environmentFilter
      let flags := before.flags ++ given.flags
      return { command, options := { nameAsSymbol := flags.contains .acceptNameAsSymtab } }
    else
      match programGrammar.argument before text with
      | .ok (before, _) => parse before environmentFilter rest
      | .error stop => .error stop

structure Exit where
  code : Nat
  printed : String
  fault : Option CommandFault
  disk : FileSystem

def Exit.ofOutcome (outcome : Outcome) : Exit :=
  match outcome.result with
  | .ok () => { code := 0, printed := outcome.printed, fault := none, disk := outcome.disk }
  | .error fault =>
    { code := 1, printed := outcome.printed, fault := some fault, disk := outcome.disk }

def loadFilter (arguments : ReportArguments) (disk : FileSystem) :
    Except CommandFault NoiseFilter :=
  if arguments.noFilter then .ok .disabled
  else
    match arguments.filterFile with
    | none => .ok {}
    | some path => (FilterFile.load disk path).mapError (.filterFile path)

def reportRequest (arguments : ReportArguments) (options : Document.Options) (disk : FileSystem) :
    Except CommandFault ReportRequest := do
  let filter ← loadFilter arguments disk
  return {
    buildDirectory := arguments.buildDirectory
    siteDirectory := arguments.siteDirectory
    summaryFile := arguments.summaryFile
    limit := arguments.limit
    printTable := !arguments.quiet
    filter
    options
    compilerSources := arguments.compilerSources
    skipInvalid := arguments.skipInvalid }

def runReport (arguments : ReportArguments) (options : Document.Options) (generatedAt : String)
    (disk : FileSystem) : Outcome :=
  match reportRequest arguments options disk with
  | .error fault => { result := .error fault, printed := "", disk }
  | .ok request =>
    match request.check disk with
    | .error fault => { result := .error (.request fault), printed := "", disk }
    | .ok () => request.run generatedAt disk

namespace Invocation

def run (invocation : Invocation) (generatedAt : String) (disk : FileSystem) : Outcome :=
  match invocation.command with
  | .report arguments => runReport arguments invocation.options generatedAt disk
  | .validate file => Validation.run file invocation.options disk
  | .version => { result := .ok (), printed := versionText, disk }

def paths (invocation : Invocation) : List Path :=
  match invocation.command with
  | .report arguments =>
    arguments.buildDirectory ::
      [arguments.siteDirectory, arguments.summaryFile, arguments.filterFile].filterMap id
  | .validate file => [file]
  | .version => []

def sourceFiles (invocation : Invocation) (disk : FileSystem) : List Path :=
  match invocation.command with
  | .report arguments =>
    let units := do (← reportRequest arguments invocation.options disk).units disk
    match arguments.siteDirectory, units with
    | some _, .ok units => (Corpus.bySourceFile units).map fun group => ⟨group.1⟩
    | _, _ => []
  | _ => []

end Invocation

def programVersion : String := "opt-viewer 0.1.0\n"

def run (arguments : List String) (environmentFilter : Option String) (generatedAt : String)
    (disk : FileSystem) : Exit :=
  match parse {} environmentFilter arguments with
  | .ok invocation => .ofOutcome (invocation.run generatedAt disk)
  | .error .help => { code := 0, printed := "", fault := none, disk }
  | .error .version => { code := 0, printed := programVersion, fault := none, disk }
  | .error .misuse => { code := 2, printed := "", fault := none, disk }

end RemarkAtlas.CommandLine
