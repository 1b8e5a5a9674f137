import RemarkAtlas.Disk.Path
import RemarkAtlas.Text.Affix

/-!
The arguments of a command: options by long names, options by single letters that may be written
together, and operands.  Each command knows some options; one may be given only once.
-/

namespace RemarkAtlas.CommandLine

inductive OptionName where
  | help
  | version
  | verbose
  | acceptNameAsSymtab
  | outputDir
  | json
  | top
  | quiet
  | noFilter
  | filterConfig
  | skipInvalid
  | implPrefix
  | implBaseUrl
  deriving DecidableEq, Repr

namespace OptionName

def long : OptionName → String
  | help => "help"
  | version => "version"
  | verbose => "verbose"
  | acceptNameAsSymtab => "accept-name-as-symtab"
  | outputDir => "output-dir"
  | json => "json"
  | top => "top"
  | quiet => "quiet"
  | noFilter => "no-filter"
  | filterConfig => "filter-config"
  | skipInvalid => "skip-invalid"
  | implPrefix => "impl-prefix"
  | implBaseUrl => "impl-base-url"

def letter? : OptionName → Option Char
  | help => some 'h'
  | version => some 'V'
  | verbose => some 'v'
  | outputDir => some 'o'
  | json => some 'j'
  | _ => none

inductive Argument where
  | none
  | path
  | number
  | text
  deriving DecidableEq, Repr

def argument : OptionName → Argument
  | outputDir => .path
  | json => .path
  | filterConfig => .path
  | top => .number
  | implPrefix => .text
  | implBaseUrl => .text
  | _ => .none

end OptionName

def number? (text : String) : Option Nat :=
  let digits := match text.toList with
    | '+' :: rest => rest
    | chars => chars
  if digits.isEmpty || !digits.all Char.isDigit then none
  else
    let value := digits.foldl (fun value digit => value * 10 + (digit.toNat - '0'.toNat)) 0
    if value < UInt64.size then some value else none

def OptionName.Argument.accepts (argument : OptionName.Argument) (value : String) : Bool :=
  match argument with
  | .none => false
  | .path => !value.isEmpty
  | .number => (number? value).isSome
  | .text => true

inductive Stop where
  | help
  | version
  | misuse
  deriving DecidableEq, Repr

structure Grammar where
  options : List OptionName
  operandLimit : Nat

structure Given where
  flags : List OptionName := []
  values : List (OptionName × String) := []
  operands : List String := []
  deriving Repr

namespace Given

def value? (given : Given) (name : OptionName) : Option String := given.values.lookup name

def addFlag (given : Given) (name : OptionName) : Except Stop Given :=
  match name with
  | .help => .error .help
  | .version => .error .version
  | _ =>
    if given.flags.contains name then .error .misuse
    else .ok { given with flags := given.flags ++ [name] }

def addValue (given : Given) (name : OptionName) (value : String) : Except Stop Given :=
  if (given.value? name).isSome || !name.argument.accepts value then .error .misuse
  else .ok { given with values := given.values ++ [(name, value)] }

def addOperand (limit : Nat) (given : Given) (operand : String) : Except Stop Given :=
  if limit ≤ given.operands.length || operand.isEmpty then .error .misuse
  else .ok { given with operands := given.operands ++ [operand] }

def addOperands (limit : Nat) (given : Given) : List String → Except Stop Given
  | [] => .ok given
  | operand :: rest => do
    let given ← addOperand limit given operand
    addOperands limit given rest

end Given

namespace Grammar

def byLong? (grammar : Grammar) (name : List Char) : Option OptionName :=
  grammar.options.find? fun option => option.long.toList == name

def byLetter? (grammar : Grammar) (letter : Char) : Option OptionName :=
  grammar.options.find? fun option => option.letter? == some letter

abbrev Step := Except Stop (Given × Option OptionName)

def longOption (grammar : Grammar) (given : Given) (text : List Char) : Step :=
  let (name, attached) := text.span (· != '=')
  match grammar.byLong? name, attached with
  | none, _ => .error .misuse
  | some option, [] =>
    if option.argument = .none then (given.addFlag option).map fun given => (given, none)
    else .ok (given, some option)
  | some option, _ :: value =>
    (given.addValue option (String.ofList value)).map fun given => (given, none)

/-- Options by their letters; the rest of the text after one that expects a value is its value, and
an equals sign may stand between. -/
def letterOptions (grammar : Grammar) (given : Given) : List Char → Step
  | [] => .ok (given, none)
  | letter :: rest =>
    match grammar.byLetter? letter with
    | none => .error .misuse
    | some option =>
      if option.argument = .none then
        match given.addFlag option with
        | .ok given => letterOptions grammar given rest
        | .error stop => .error stop
      else
        match rest with
        | [] => .ok (given, some option)
        | '=' :: value =>
          (given.addValue option (String.ofList value)).map fun given => (given, none)
        | value => (given.addValue option (String.ofList value)).map fun given => (given, none)

def argument (grammar : Grammar) (given : Given) (text : String) : Step :=
  match text.toList with
  | '-' :: '-' :: name => grammar.longOption given name
  | '-' :: letter :: letters => grammar.letterOptions given (letter :: letters)
  | _ => (given.addOperand grammar.operandLimit text).map fun given => (given, none)

def looksLikeOption (text : String) : Bool :=
  match text.toList with
  | '-' :: _ :: _ => true
  | _ => false

/-- Reads arguments while `waiting` may be an option whose value comes next.  After two hyphens all
arguments are operands. -/
def read (grammar : Grammar) (given : Given) (waiting : Option OptionName) :
    List String → Except Stop Given
  | [] => if waiting.isSome then .error .misuse else .ok given
  | text :: rest =>
    match waiting with
    | some option =>
      if looksLikeOption text then .error .misuse
      else
        match given.addValue option text with
        | .ok given => read grammar given none rest
        | .error stop => .error stop
    | none =>
      if text = "--" then given.addOperands grammar.operandLimit rest
      else
        match grammar.argument given text with
        | .ok (given, waiting) => read grammar given waiting rest
        | .error stop => .error stop

end Grammar

end RemarkAtlas.CommandLine
