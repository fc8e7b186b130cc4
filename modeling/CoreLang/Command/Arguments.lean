import CoreLang.Command.Request

/-! The arguments of `corefront`: a file, `--out-dir` and `--tokens-only`. -/
namespace CoreLang.Command

def usageText : String := "Usage: corefront [OPTIONS] <file>"

def versionText : String := "corefront 0.1.0\n"

def helpText : String :=
  "Scan and parse a Core source file\n\n" ++ usageText ++ "\n\n" ++
  "Arguments:\n" ++
  "  <file>  Path to the .core source file\n\n" ++
  "Options:\n" ++
  "  -o, --out-dir <out-dir>  Directory for symbol_table.txt and parse_tree.txt [default: .]\n" ++
  "      --tokens-only        Stop after writing the symbol table\n" ++
  "  -h, --help               Print help\n" ++
  "  -V, --version            Print version\n"

inductive UsageError where
  /-- No file is named. The options that are given stand in the usage line. -/
  | missingFile (given : List String)
  | unexpected (argument : String)
  /-- A file or an option without its value. An empty value is none. -/
  | missingValue (argument : String)
  | repeated (option : String)
deriving DecidableEq

structure Given where
  file? : Option String := none
  outDir? : Option String := none
  tokensOnly : Bool := false
  /-- The options in the order in which they came. -/
  options : List String := []
deriving DecidableEq

namespace Given

def fileArgument : String := "<file>"

def outDirOption : String := "--out-dir <out-dir>"

def tokensOnlyOption : String := "--tokens-only"

def addFile (g : Given) (file : String) : Except UsageError Given :=
  if file = "" then .error (.missingValue fileArgument) else .ok { g with file? := some file }

def addOutDir (g : Given) (dir : String) : Except UsageError Given :=
  if g.outDir?.isSome then .error (.repeated outDirOption)
  else if dir = "" then .error (.missingValue outDirOption)
  else .ok { g with outDir? := some dir, options := g.options ++ [outDirOption] }

def addTokensOnly (g : Given) : Except UsageError Given :=
  if g.tokensOnly then .error (.repeated tokensOnlyOption)
  else .ok { g with tokensOnly := true, options := g.options ++ [tokensOnlyOption] }

/-- The request of all arguments together. The reports go to the working directory unless the
arguments name another one. -/
def request (g : Given) : Except UsageError Request :=
  match g.file? with
  | none => .error (.missingFile g.options)
  | some file => .ok (.run ⟨file, g.outDir?.getD ".", g.tokensOnly⟩)

end Given

inductive Argument where
  | file (name : String)
  /-- An output directory, in this argument or in the next one. -/
  | outDir (value? : Option String)
  | tokensOnly
  | help
  | version
  /-- The end of the options. -/
  | endOfOptions
  | unknown
deriving DecidableEq

/-- The form of an argument. A value may follow its letter directly or after an equals sign. -/
def Argument.ofString (s : String) : Argument :=
  match s.toList with
  | ['-'] => file s
  | ['-', '-'] => endOfOptions
  | '-' :: '-' :: option =>
    let name := String.ofList (option.takeWhile (· ≠ '='))
    match name, option.dropWhile (· ≠ '=') with
    | "out-dir", [] => outDir none
    | "out-dir", _ :: value => outDir (some (String.ofList value))
    | "tokens-only", [] => tokensOnly
    | "help", [] => help
    | "version", [] => version
    | _, _ => unknown
  | ['-', 'o'] => outDir none
  | '-' :: 'o' :: '=' :: value => outDir (some (String.ofList value))
  | '-' :: 'o' :: value => outDir (some (String.ofList value))
  | '-' :: 'h' :: _ => help
  | '-' :: 'V' :: _ => version
  | '-' :: _ => unknown
  | _ => file s

/-- Reads arguments of which every one is a file. There is only one place for a file. -/
def readFiles (placed : Bool) (soFar : Except UsageError Given) :
    List String → Except UsageError Request
  | [] => do (← soFar).request
  | file :: rest =>
    if placed then .error (.unexpected file)
    else do readFiles true ((← soFar).addFile file) rest

/-- Reads arguments from left to right; `placed` says whether a file has been among them. An argument
that has no place is refused where it stands. A value that stands as an argument of its own is looked
at later, when the next argument has found its place, so what is wrong with it waits in `soFar`. Help
and version are answered where they stand. -/
def readArguments (placed : Bool) (soFar : Except UsageError Given) :
    List String → Except UsageError Request
  | [] => do (← soFar).request
  | argument :: rest =>
    match Argument.ofString argument with
    | .file name =>
      if placed then .error (.unexpected name)
      else do readArguments true ((← soFar).addFile name) rest
    | .outDir (some dir) => do
      let g ← (← soFar).addOutDir dir
      readArguments placed (.ok g) rest
    | .outDir none => do
      let g ← soFar
      match rest with
      | [] => .error (.missingValue Given.outDirOption)
      | dir :: rest =>
        match Argument.ofString dir with
        | .file _ => readArguments placed (g.addOutDir dir) rest
        | .endOfOptions => readFiles placed (.error (.missingValue Given.outDirOption)) rest
        | .unknown => .error (.unexpected dir)
        | _ => .error (.missingValue Given.outDirOption)
    | .tokensOnly => do
      let g ← (← soFar).addTokensOnly
      readArguments placed (.ok g) rest
    | .help => do
      let _ ← soFar
      return .answer helpText
    | .version => do
      let _ ← soFar
      return .answer versionText
    | .endOfOptions => readFiles placed soFar rest
    | .unknown => .error (.unexpected argument)

def UsageError.message : UsageError → String
  | missingFile given =>
    s!"error: the following required arguments were not provided:\n  {Given.fileArgument}\n\n" ++
      "Usage: " ++ " ".intercalate ("corefront" :: given ++ [Given.fileArgument]) ++
      "\n\nFor more information, try '--help'.\n"
  | unexpected argument =>
    s!"error: unexpected argument '{argument}' found\n\n{usageText}\n\n" ++
      "For more information, try '--help'.\n"
  | missingValue argument =>
    s!"error: a value is required for '{argument}' but none was supplied\n\n" ++
      "For more information, try '--help'.\n"
  | repeated option =>
    s!"error: the argument '{option}' cannot be used multiple times\n\n{usageText}\n\n" ++
      "For more information, try '--help'.\n"

def CommandLine.corefront : CommandLine where
  request arguments := (readArguments false (.ok {}) arguments).mapError UsageError.message
  usage := usageText

end CoreLang.Command
