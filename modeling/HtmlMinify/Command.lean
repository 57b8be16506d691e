import HtmlMinify.Document.Dump
import HtmlMinify.Minify
import HtmlMinify.Settings.Format
import HtmlMinify.Url.Parse

/-! # The command

`htmlmin` minifies a file, or its standard input. What it does is described over any file system, so
that it can be run on a real one and reasoned about on a simulated one.
-/

namespace HtmlMinify.Command

/-! ## Arguments -/

/-- The options that take a value. -/
inductive ValueOption where
  | output
  | config
deriving Repr, DecidableEq, Inhabited

/-- The options that do not. -/
inductive Flag where
  | all
  | report
  | dumpTree
  | verbose
  | help
  | version
deriving Repr, DecidableEq, Inhabited

/-- What the arguments ask for. -/
structure Arguments where
  input : Option String := none
  output : Option String := none
  config : Option String := none
  flags : List Flag := []
deriving Repr, DecidableEq, Inhabited

/-- Why the command ends before it has done anything. -/
inductive Stop where
  | usage
  | help
  | version
deriving Repr, DecidableEq, Inhabited

namespace Arguments

/-- Takes the value of an option: given once, and not empty. -/
def setValue (option : ValueOption) (value : String) (args : Arguments) :
    Except Stop Arguments :=
  if value.isEmpty then .error .usage
  else
    match option with
    | .output => if args.output.isSome then .error .usage else .ok { args with output := value }
    | .config => if args.config.isSome then .error .usage else .ok { args with config := value }

/-- Takes a flag. All but `verbose` may be given once, and two of them end the command. -/
def setFlag (flag : Flag) (args : Arguments) : Except Stop Arguments :=
  match flag with
  | .help => .error .help
  | .version => .error .version
  | .verbose => .ok { args with flags := .verbose :: args.flags }
  | _ =>
    if args.flags.contains flag then .error .usage
    else .ok { args with flags := flag :: args.flags }

/-- Takes the name of the input file: given once, and not empty. -/
def setInput (value : String) (args : Arguments) : Except Stop Arguments :=
  if value.isEmpty || args.input.isSome then .error .usage else .ok { args with input := value }

end Arguments

/-- The long options. -/
def long? : String → Option (ValueOption ⊕ Flag)
  | "output" => some (.inl .output)
  | "config" => some (.inl .config)
  | "all" => some (.inr .all)
  | "report" => some (.inr .report)
  | "dump-tree" => some (.inr .dumpTree)
  | "verbose" => some (.inr .verbose)
  | "help" => some (.inr .help)
  | "version" => some (.inr .version)
  | _ => none

/-- The short options. -/
def short? : Char → Option (ValueOption ⊕ Flag)
  | 'o' => some (.inl .output)
  | 'c' => some (.inl .config)
  | 'v' => some (.inr .verbose)
  | 'h' => some (.inr .help)
  | 'V' => some (.inr .version)
  | _ => none

/-- What an argument looks like. -/
inductive Shape where
  | endOfOptions
  | long (name : String) (value : Option String)
  | short (letters : List Char)
  | plain
deriving Repr, DecidableEq, Inhabited

/-- Tells options from other arguments. A lone dash is no option. -/
def shapeOf (argument : String) : Shape :=
  match argument.toList with
  | ['-', '-'] => .endOfOptions
  | '-' :: '-' :: rest =>
    match Text.breakOnChar? '=' rest with
    | some (name, value) => .long (String.ofList name) (some (String.ofList value))
    | none => .long (String.ofList rest) none
  | ['-'] => .plain
  | '-' :: letters => .short letters
  | _ => .plain

/-- Takes joined short options: the arguments, and the option whose value is the next argument. An
option that takes a value takes the rest of the letters, an equals sign in front aside. -/
def shortOptions (args : Arguments) : List Char → Except Stop (Arguments × Option ValueOption)
  | [] => .ok (args, none)
  | c :: rest =>
    match short? c with
    | none => .error .usage
    | some (.inr flag) =>
      match args.setFlag flag with
      | .ok args => shortOptions args rest
      | .error stop => .error stop
    | some (.inl option) =>
      match rest with
      | [] => .ok (args, some option)
      | '=' :: value => (args.setValue option (String.ofList value)).map (·, none)
      | value => (args.setValue option (String.ofList value)).map (·, none)

/-- Takes a long option: the arguments, and the option whose value is the next argument. -/
def longOption (args : Arguments) (name : String) (value : Option String) :
    Except Stop (Arguments × Option ValueOption) :=
  match long? name, value with
  | some (.inl option), some value => (args.setValue option value).map (·, none)
  | some (.inl option), none => .ok (args, some option)
  | some (.inr flag), none => (args.setFlag flag).map (·, none)
  | some (.inr _), some _ | none, _ => .error .usage

/-- Takes the arguments after the end of options. -/
def readPlain (args : Arguments) : List String → Except Stop Arguments
  | [] => .ok args
  | argument :: rest => do readPlain (← args.setInput argument) rest

/-- Takes arguments in order. `pending` is an option whose value comes next. -/
def readFrom (args : Arguments) (pending : Option ValueOption) :
    List String → Except Stop Arguments
  | [] => if pending.isSome then .error .usage else .ok args
  | argument :: rest =>
    match shapeOf argument, pending with
    | .plain, some option => do readFrom (← args.setValue option argument) none rest
    | .plain, none => do readFrom (← args.setInput argument) none rest
    | _, some _ => .error .usage
    | .endOfOptions, none => readPlain args rest
    | .long name value, none => do
      let (args, pending) ← longOption args name value
      readFrom args pending rest
    | .short letters, none => do
      let (args, pending) ← shortOptions args letters
      readFrom args pending rest

/-- Reads the arguments of the command. -/
def readArguments (arguments : List String) : Except Stop Arguments :=
  readFrom {} none arguments

/-! ## Running -/

/-- Access to files and the standard input. -/
structure FileSystem (m : Type → Type) where
  /-- The content of a file; nothing if it cannot be had. -/
  contentOf : String → m (Option ByteArray)
  /-- The standard input; nothing if it cannot be had. -/
  input : m (Option ByteArray)
  /-- Makes a text the content of a file; false if that fails. -/
  save : String → String → m Bool

/-- How the command ends: its exit code, its standard output, and the report asked for. -/
structure Outcome where
  status : Nat
  output : String := ""
  report : Option Report := none
deriving Repr, DecidableEq, Inhabited

/-- The name and number of the program. -/
def versionText : String :=
  "htmlmin 0.1.0\n"

/-- How the command is used. -/
def helpText : String :=
  "CLI flags\n\n" ++
  "Usage: htmlmin [OPTIONS] [INPUT]\n\n" ++
  "Arguments:\n" ++
  "  [INPUT]  Input file (default: stdin)\n\n" ++
  "Options:\n" ++
  "  -o, --output <OUTPUT>    Output file (default: stdout)\n" ++
  "  -c, --config <SETTINGS>  JSON settings file with one flag per pass\n" ++
  "      --all                Enable every pass; applied on top of --config\n" ++
  "      --report             Print a JSON report to stderr\n" ++
  "      --dump-tree          Write the document tree of the minified page as JSON instead of" ++
  " markup\n" ++
  "  -v, --verbose...         More logging (-v debug, -vv trace)\n" ++
  "  -h, --help               Print help\n" ++
  "  -V, --version            Print version\n"

/-- What the command does once it has its settings and its page: the text to write, and the
report. -/
def process (args : Arguments) (settings : Settings) (page : String) :
    Except DocumentError (String × Report) := do
  let settings := if args.flags.contains .all then settings.withAll else settings
  let (output, report) := settings.minifyWithReport Url.parse? page
  if args.flags.contains .dumpTree then
    let doc ← Document.parse Document.defaultMaxDepth output
    return (← doc.dump, report)
  else return (output, report)

variable {m : Type → Type} [Monad m]

/-- The text of a file, if it can be read and is UTF-8. -/
def readText (read : m (Option ByteArray)) : m (Option String) := do
  return (← read).bind String.fromUTF8?

/-- The settings of a file, if it can be read and holds settings; all off without one. -/
def readSettings (files : FileSystem m) (config : Option String) : m (Option Settings) :=
  match config with
  | none => pure (some .off)
  | some path => do return (← readText (files.contentOf path)).bind Settings.parse?

/-- Writes the text to the output file, or leaves it as the standard output. -/
def deliver (files : FileSystem m) (args : Arguments) (text : String) (report : Report) :
    m Outcome := do
  let report := if args.flags.contains .report then some report else none
  match args.output with
  | none => return { status := 0, output := text, report }
  | some path =>
    if ← files.save path text then return { status := 0, report }
    else return { status := 1 }

/-- Does what the arguments ask for. -/
def runArguments (files : FileSystem m) (args : Arguments) : m Outcome := do
  match ← readSettings files args.config with
  | none => return { status := 1 }
  | some settings =>
    let source := match args.input with
      | some path => files.contentOf path
      | none => files.input
    match ← readText source with
    | none => return { status := 1 }
    | some page =>
      match process args settings page with
      | .error _ => return { status := 1 }
      | .ok (text, report) => deliver files args text report

/-- Runs the command with these arguments. -/
def run (files : FileSystem m) (arguments : List String) : m Outcome :=
  match readArguments arguments with
  | .ok args => runArguments files args
  | .error .usage => return { status := 2 }
  | .error .help => return { status := 0, output := helpText }
  | .error .version => return { status := 0, output := versionText }

end HtmlMinify.Command
