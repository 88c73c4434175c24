import BindingDocs.Config

/-!
# The command line

Arguments are read in order.  An option has a long name and sometimes a short one; flags stand alone
and can be put together, settings take a value.  Everything else names an input, and so does
everything after two hyphens.

## Main definitions

* `Flag`, `Setting` — the options.
* `Options` — what the command line asks for.
* `UsageError` — why a command line is refused.
* `Options.parse` — reads a command line.
* `Options.apply` — the settings of a run with those of the command line on top.
-/

namespace BindingDocs

/-- Options that stand alone. -/
inductive Flag where
  | skipRender
  | skipPostprocess
  | postprocessOnly
  | verbose
  | quiet
  | help
deriving DecidableEq, Repr

/-- Options that take a value. -/
inductive Setting where
  | config
  | output
  | htmlDir
  | doxygen
  | doxyfile
  | timeout
deriving DecidableEq, Repr

/-- The long name of a flag. -/
def Flag.name : Flag → String
  | skipRender => "skip-render"
  | skipPostprocess => "skip-postprocess"
  | postprocessOnly => "postprocess-only"
  | verbose => "verbose"
  | quiet => "quiet"
  | help => "help"

/-- The long name of a setting. -/
def Setting.name : Setting → String
  | config => "config"
  | output => "output"
  | htmlDir => "html-dir"
  | doxygen => "doxygen"
  | doxyfile => "doxyfile"
  | timeout => "timeout"

/-- What an option is. -/
abbrev Kind := Sum Flag Setting

/-- The option with a long name. -/
def Kind.ofLong? : String → Option Kind
  | "skip-render" => some (.inl .skipRender)
  | "skip-postprocess" => some (.inl .skipPostprocess)
  | "postprocess-only" => some (.inl .postprocessOnly)
  | "verbose" => some (.inl .verbose)
  | "quiet" => some (.inl .quiet)
  | "help" => some (.inl .help)
  | "config" => some (.inr .config)
  | "output" => some (.inr .output)
  | "html-dir" => some (.inr .htmlDir)
  | "doxygen" => some (.inr .doxygen)
  | "doxyfile" => some (.inr .doxyfile)
  | "timeout" => some (.inr .timeout)
  | _ => none

/-- The option with a short name. -/
def Kind.ofShort? : Char → Option Kind
  | 'v' => some (.inl .verbose)
  | 'q' => some (.inl .quiet)
  | 'h' => some (.inl .help)
  | 'c' => some (.inr .config)
  | 'o' => some (.inr .output)
  | _ => none

/-- What the command line asks for. -/
structure Options where
  files : List (List Char) := []
  flags : List Flag := []
  config : Option (List Char) := none
  output : Option (List Char) := none
  htmlDir : Option (List Char) := none
  doxygen : Option String := none
  doxyfile : Option (List Char) := none
  timeout : Option Nat := none
deriving DecidableEq, Repr

/-- Why a command line is refused. -/
inductive UsageError where
  | unknown (argument : List Char)
  | missingValue (setting : Setting)
  | badValue (setting : Setting) (value : List Char)
  | unexpectedValue (flag : Flag)
  | repeated (name : String)
  | conflict (first second : String)
deriving DecidableEq, Repr

/-- The text of the error. -/
def UsageError.message : UsageError → String
  | .unknown argument => "unexpected argument '" ++ String.ofList argument ++ "'"
  | .missingValue setting => "a value is required for '--" ++ setting.name ++ "'"
  | .badValue setting value =>
    "invalid value '" ++ String.ofList value ++ "' for '--" ++ setting.name ++ "'"
  | .unexpectedValue flag => "'--" ++ flag.name ++ "' takes no value"
  | .repeated name => "'" ++ name ++ "' cannot be used multiple times"
  | .conflict first second => "'" ++ first ++ "' cannot be used with '" ++ second ++ "'"

namespace Options

/-- Whether a flag is given. -/
def has (o : Options) (f : Flag) : Bool := o.flags.contains f

/-- Whether a setting is given. -/
def isSet (o : Options) : Setting → Bool
  | .config => o.config.isSome
  | .output => o.output.isSome
  | .htmlDir => o.htmlDir.isSome
  | .doxygen => o.doxygen.isSome
  | .doxyfile => o.doxyfile.isSome
  | .timeout => o.timeout.isSome

/-- The options with a flag, which can be given once. -/
def addFlag (f : Flag) (o : Options) : Except UsageError Options :=
  if o.has f then .error (.repeated ("--" ++ f.name)) else .ok { o with flags := o.flags ++ [f] }

/-- The number of seconds that a text stands for: digits after an optional plus sign, below
2 ^ 64. -/
def seconds? (s : List Char) : Option Nat :=
  let digits := match s with
    | '+' :: s => s
    | s => s
  if digits ≠ [] ∧ digits.all Char.isDigit then
    let n := Toml.ofDigits 10 digits
    if n < UInt64.size then some n else none
  else none

/-- The options with the value of a setting. -/
def put (s : Setting) (v : List Char) (o : Options) : Option Options :=
  let path? := if v = [] then none else some v
  match s with
  | .config => path?.map fun v => { o with config := some v }
  | .output => path?.map fun v => { o with output := some v }
  | .htmlDir => path?.map fun v => { o with htmlDir := some v }
  | .doxyfile => path?.map fun v => { o with doxyfile := some v }
  | .doxygen => some { o with doxygen := some (String.ofList v) }
  | .timeout => (seconds? v).map fun n => { o with timeout := some n }

/-- The options with the value of a setting, which can be given once. -/
def addValue (s : Setting) (v : List Char) (o : Options) : Except UsageError Options :=
  if o.isSet s then .error (.repeated ("--" ++ s.name))
  else
    match o.put s v with
    | some o => .ok o
    | none => .error (.badValue s v)

/-! ### Reading arguments -/

/-- Where the reading of an argument has led. -/
inductive Progress where
  | done (o : Options)
  /-- The setting takes the next argument as its value. -/
  | wants (s : Setting) (o : Options)
  | help

/-- Reads the short options of one argument. -/
def cluster : List Char → Options → Except UsageError Progress
  | [], o => .ok (.done o)
  | c :: rest, o =>
    match Kind.ofShort? c with
    | none => .error (.unknown ['-', c])
    | some (.inl .help) => .ok .help
    | some (.inl f) => (o.addFlag f).bind (cluster rest)
    | some (.inr s) =>
      match rest with
      | [] => .ok (.wants s o)
      | '=' :: v => (o.addValue s v).map .done
      | v => (o.addValue s v).map .done

/-- Reads a long option, with its value if that is written after an equals sign. -/
def long (body : List Char) (o : Options) : Except UsageError Progress :=
  let (name, value?) := match Text.splitFirst? ['='] body with
    | some (name, v) => (name, some v)
    | none => (body, none)
  match Kind.ofLong? (String.ofList name), value? with
  | none, _ => .error (.unknown ('-' :: '-' :: name))
  | some (.inl f), some _ => .error (.unexpectedValue f)
  | some (.inl .help), none => .ok .help
  | some (.inl f), none => (o.addFlag f).map .done
  | some (.inr s), some v => (o.addValue s v).map .done
  | some (.inr s), none => .ok (.wants s o)

/-- Whether an argument is written as an option. -/
def isOption : List Char → Bool
  | '-' :: _ :: _ => true
  | _ => false

/-- Reads one argument that is not the end of the options. -/
def read (argument : List Char) (o : Options) : Except UsageError Progress :=
  match argument with
  | '-' :: '-' :: body => o.long body
  | '-' :: c :: body => o.cluster (c :: body)
  | file => .ok (.done { o with files := o.files ++ [file] })

/-- What the command line asks for: help, or a run. -/
inductive Request where
  | help
  | run (o : Options)

/-- Reads arguments in order. -/
def readAll : List (List Char) → Options → Except UsageError Request
  | [], o => .ok (.run o)
  | ['-', '-'] :: rest, o => .ok (.run { o with files := o.files ++ rest })
  | argument :: rest, o =>
    match o.read argument with
    | .error e => .error e
    | .ok .help => .ok .help
    | .ok (.done o) => readAll rest o
    | .ok (.wants s o) =>
      match rest with
      | [] => .error (.missingValue s)
      | v :: rest =>
        if isOption v then .error (.missingValue s)
        else
          match o.addValue s v with
          | .error e => .error e
          | .ok o => readAll rest o

/-- The first two options that cannot be used together. -/
def conflict? (o : Options) : Option UsageError :=
  let only := o.has .postprocessOnly
  let clash (f g : Flag) : Option UsageError :=
    if o.has f && o.has g then some (.conflict ("--" ++ f.name) ("--" ++ g.name)) else none
  clash .postprocessOnly .skipPostprocess <|> clash .postprocessOnly .skipRender <|>
    (if only && !o.files.isEmpty then some (.conflict "--postprocess-only" "FILES") else none) <|>
    clash .verbose .quiet

/-- Reads a command line. -/
def parse (arguments : List String) : Except UsageError Request :=
  match readAll (arguments.map String.toList) {} with
  | .ok (.run o) =>
    match o.conflict? with
    | some e => .error e
    | none => .ok (.run o)
  | r => r

/-! ### Use -/

/-- The settings of a run with those of the command line on top. -/
def apply (o : Options) (c : Config) : Config :=
  { c with
    outputDir := o.output.getD c.outputDir
    htmlDir := o.htmlDir.getD c.htmlDir
    renderer :=
      { command := o.doxygen.getD c.renderer.command
        config := o.doxyfile.getD c.renderer.config
        timeout := o.timeout.getD c.renderer.timeout } }

end Options

/-- The text that explains the command line. -/
def helpText : String :=
  "Generate doxygen input from Lua binding annotations and post-process the HTML\n\n" ++
  "Usage: luadoc [OPTIONS] [FILES]...\n\n" ++
  "Arguments:\n" ++
  "  [FILES]...  Input files (glob patterns supported). Defaults to the configured inputs\n\n" ++
  "Options:\n" ++
  "  -c, --config <CONFIG>      Configuration file [default: luadoc.toml, if present]\n" ++
  "  -o, --output <OUTPUT>      Directory for the generated headers\n" ++
  "      --html-dir <HTML_DIR>  Directory holding doxygen's HTML output\n" ++
  "      --doxygen <DOXYGEN>    Renderer command\n" ++
  "      --doxyfile <DOXYFILE>  Renderer configuration file, relative to the documentation directory\n" ++
  "      --timeout <TIMEOUT>    Renderer timeout in seconds\n" ++
  "      --skip-render          Do not run doxygen\n" ++
  "      --skip-postprocess     Leave the HTML untouched\n" ++
  "      --postprocess-only     Only rewrite existing HTML\n" ++
  "  -v, --verbose              Debug output\n" ++
  "  -q, --quiet                Errors only\n" ++
  "  -h, --help                 Print help\n"

end BindingDocs
