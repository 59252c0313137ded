import Restyle.Text.Letter
import Restyle.Text.Search

/-!
# Arguments of the command line

Arguments are options and operands.  Long options may be shortened as long as they stay unique, and may
carry their value after an equals sign.  After two hyphens everything is an operand.
-/

namespace Restyle.Cli

/-- The name of the program. -/
def programName : String := "stylex-switcheroo"

/-- The version of the program. -/
def programVersion : String := "0.0.1"

/-- What an option does. -/
inductive OptionKind where
  /-- It takes a value, one of the given ones if there are any. -/
  | value (choices : List String)
  | flag
  /-- It asks for the help text. -/
  | help
  /-- It asks for the version. -/
  | version
  deriving DecidableEq, Repr

/-- The options of a command. -/
abbrev OptionTable := List (String × OptionKind)

/-- What arguments ask for. -/
structure Parsed where
  values : List (String × String) := []
  flags : List String := []
  operands : List String := []
  unknown : List String := []

/-- Why arguments are not taken as they are. -/
inductive Stop where
  | invalid
  | help
  | version
  deriving DecidableEq, Repr

/-- How an argument is read. -/
inductive Shape where
  | operand
  | known (name : String) (kind : OptionKind) (value : Option String)
  | unknown
  /-- Several options fit, or a value is attached that cannot be. -/
  | faulty
  deriving DecidableEq, Repr

/-- Whether an argument is a negative number. -/
def isNegativeNumber (arg : String) : Bool :=
  match arg.toList with
  | '-' :: cs =>
    let whole := cs.takeWhile Text.isDecimal
    match cs.drop whole.length with
    | [] => !whole.isEmpty
    | '.' :: ds => !ds.isEmpty && ds.all Text.isDecimal
    | _ => false
  | _ => false

/-- An argument at its first equals sign. -/
def splitValue (arg : String) : String × Option String :=
  match Text.cut? ['='] arg.toList with
  | some (name, value) => (String.ofList name, some (String.ofList value))
  | none => (arg, none)

/-- Reads an argument that starts with a hyphen and is no option by itself. -/
def shapeOfOther (arg : String) : Shape :=
  if isNegativeNumber arg || Text.mentions " " arg then .operand else .unknown

/-- Reads an argument. -/
def shapeOf (options : OptionTable) (arg : String) : Shape :=
  if !Text.hasLead "-" arg || arg == "-" then .operand
  else
    match options.find? fun (name, _) => name == arg with
    | some (name, kind) => .known name kind none
    | none =>
      if Text.hasLead "--" arg then
        let (name, value) := splitValue arg
        match options.find? fun (known, _) => known == name with
        | some (known, kind) => .known known kind value
        | none =>
          match options.filter fun (known, _) => Text.hasLead name known with
          | [(known, kind)] => .known known kind value
          | [] => shapeOfOther arg
          | _ => .faulty
      else if options.any fun (known, _) => known == String.ofList (arg.toList.take 2) then .faulty
      else shapeOfOther arg

/-- Takes a value into account. -/
def Parsed.addValue (p : Parsed) (name value : String) : Parsed :=
  { p with values := p.values.filter (fun (n, _) => n != name) ++ [(name, value)] }

/-- Whether a value is one that an option takes. -/
def isChoice (choices : List String) (value : String) : Bool :=
  choices.isEmpty || choices.contains value

/-- Reads arguments one by one. -/
def readArguments (options : OptionTable) : List String → Parsed → Except Stop Parsed
  | [], p => .ok p
  | arg :: rest, p =>
    if arg == "--" then .ok { p with operands := p.operands ++ rest }
    else
      match shapeOf options arg with
      | .operand => readArguments options rest { p with operands := p.operands ++ [arg] }
      | .unknown => readArguments options rest { p with unknown := p.unknown ++ [arg] }
      | .faulty => .error .invalid
      | .known _ .help value => .error (if value.isSome then .invalid else .help)
      | .known _ .version value => .error (if value.isSome then .invalid else .version)
      | .known name .flag value =>
        if value.isSome then .error .invalid
        else readArguments options rest { p with flags := p.flags ++ [name] }
      | .known name (.value choices) (some value) =>
        if isChoice choices value then readArguments options rest (p.addValue name value)
        else .error .invalid
      | .known name (.value choices) none =>
        match rest with
        | value :: rest =>
          if value != "--" && shapeOf options value == .operand && isChoice choices value then
            readArguments options rest (p.addValue name value)
          else .error .invalid
        | [] => .error .invalid

/-! ## Commands -/

/-- How modules are to be converted. -/
structure ConvertOptions where
  path : String
  out : Option String := none
  adapter : Option String := none
  prepass : Option String := none
  fallback : Option String := none
  strict : Bool := false
  dryRun : Bool := false
  jsonTrace : Option String := none
  deriving DecidableEq, Repr

/-- A command. -/
inductive Command where
  | convert (o : ConvertOptions)
  | scan (path : String) (adapter : Option String)
  deriving DecidableEq, Repr

/-- What a call of the program asks for. -/
inductive Request where
  | run (c : Command)
  /-- To show a text. -/
  | display (text : String)
  | invalid
  deriving DecidableEq, Repr

/-- The options of `convert`. -/
def convertOptions : OptionTable :=
  [("-h", .help), ("--help", .help), ("--out", .value []), ("--adapter", .value []),
    ("--prepass", .value []), ("--fallback", .value ["bail", "drop"]), ("--strict", .flag),
    ("--dry-run", .flag), ("--json-trace", .value [])]

/-- The options of `scan`. -/
def scanOptions : OptionTable :=
  [("-h", .help), ("--help", .help), ("--adapter", .value [])]

/-- The options of the program itself. -/
def programOptions : OptionTable :=
  [("-h", .help), ("--help", .help), ("--version", .version)]

/-- The help text of the program. -/
def programHelp : String :=
  "\n".intercalate [
    "usage: stylex-switcheroo [-h] [--version] \x7bconvert,scan\x7d ...",
    "",
    "stylex-switcheroo: styled-components to StyleX migration",
    "",
    "positional arguments:",
    "  \x7bconvert,scan\x7d",
    "    convert       Migrate a TSX/JSX file or directory",
    "    scan          Report diagnostics without writing anything",
    "",
    "options:",
    "  -h, --help      show this help message and exit",
    "  --version       show program's version number and exit",
    ""]

/-- The help text of `convert`. -/
def convertHelp : String :=
  "\n".intercalate [
    "usage: stylex-switcheroo convert [-h] [--out OUT] [--adapter ADAPTER]",
    "                                 [--prepass PREPASS] [--fallback \x7bbail,drop\x7d]",
    "                                 [--strict] [--dry-run]",
    "                                 [--json-trace JSON_TRACE]",
    "                                 path",
    "",
    "positional arguments:",
    "  path                  Input source file or directory",
    "",
    "options:",
    "  -h, --help            show this help message and exit",
    "  --out OUT             Output destination (file or dir). Defaults to in-",
    "                        place.",
    "  --adapter ADAPTER     Python file exposing an \x60adapter\x60 object",
    "  --prepass PREPASS     JSON usage summary from a cross-file prepass",
    "  --fallback \x7bbail,drop\x7d",
    "                        Behavior for interpolations no handler claims",
    "                        (Overrides config)",
    "  --strict              Leave files with unsupported features untouched",
    "                        (Overrides config)",
    "  --dry-run             Print results without writing to disk",
    "  --json-trace JSON_TRACE",
    "                        Dump full execution trace (phases, decisions) to a",
    "                        JSON file.",
    ""]

/-- The help text of `scan`. -/
def scanHelp : String :=
  "\n".intercalate [
    "usage: stylex-switcheroo scan [-h] [--adapter ADAPTER] path",
    "",
    "positional arguments:",
    "  path               Input source file or directory",
    "",
    "options:",
    "  -h, --help         show this help message and exit",
    "  --adapter ADAPTER  Python file exposing an \x60adapter\x60 object",
    ""]

/-- What a stop means, for a given help text. -/
def Stop.request (help : String) : Stop → Request
  | .invalid => .invalid
  | .help => .display help
  | .version => .display (programName ++ " " ++ programVersion ++ "\n")

/-- The command of arguments that have been read; there has to be exactly one operand. -/
def commandOf (make : String → Parsed → Command) (isClean : Bool) (help : String) :
    Except Stop Parsed → Request
  | .error stop => stop.request help
  | .ok p =>
    match p.operands with
    | [path] => if isClean && p.unknown.isEmpty then .run (make path p) else .invalid
    | _ => .invalid

/-- The value of an option. -/
def Parsed.value? (p : Parsed) (name : String) : Option String :=
  (p.values.find? fun (n, _) => n == name).map (·.2)

/-- What the arguments of a command ask for; `isClean` says that nothing unknown came before it. -/
def readCommand (isClean : Bool) (name : String) (args : List String) : Request :=
  match name with
  | "convert" =>
    commandOf
      (fun path p =>
        .convert
          { path
            out := p.value? "--out"
            adapter := p.value? "--adapter"
            prepass := p.value? "--prepass"
            fallback := p.value? "--fallback"
            strict := p.flags.contains "--strict"
            dryRun := p.flags.contains "--dry-run"
            jsonTrace := p.value? "--json-trace" })
      isClean convertHelp (readArguments convertOptions args {})
  | "scan" =>
    commandOf (fun path p => .scan path (p.value? "--adapter")) isClean scanHelp
      (readArguments scanOptions args {})
  | _ => .invalid

/-- What arguments ask for: options of the program may come before the command. -/
def readRequest (isClean : Bool) : List String → Request
  | [] => .invalid
  | arg :: rest =>
    if arg == "--" then .invalid
    else
      match shapeOf programOptions arg with
      | .operand => readCommand isClean arg rest
      | .unknown => readRequest false rest
      | .known _ .help none => .display programHelp
      | .known _ .version none => Stop.version.request programHelp
      | _ => .invalid

end Restyle.Cli
