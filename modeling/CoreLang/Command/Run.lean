import CoreLang.Analysis
import CoreLang.Command.Arguments
import CoreLang.Command.Host
import CoreLang.Report.Outline
import CoreLang.Report.SymbolTable

/-! The command: it reads one source file and writes its reports. -/
namespace CoreLang.Command

inductive Exit where
  | success
  | failure
  | usage
deriving DecidableEq

def Exit.code : Exit → UInt32
  | success => 0
  | failure => 1
  | usage => 2

section
variable {m : Type → Type} [Monad m]

/-- Writes the symbol table and, for a text that parses, its tree. -/
def writeReports (host : Host m) (style : Style) (o : Options) (a : Analysis) :
    ExceptT SystemError m Exit := do
  host.makeDirectories o.outDir
  let table := inDirectory o.outDir "symbol_table.txt"
  host.write table (SymbolTable.render a.tokens)
  host.noteLines [s!"Symbol table written to {table} ({a.tokens.length} tokens)"]
  if o.tokensOnly then return .success
  match a.parse.result with
  | .ok root =>
    let file := inDirectory o.outDir "parse_tree.txt"
    host.write file (root.outline ++ "\n")
    host.noteLines
      [style.bold .green "Parsing successful!", s!"Parse tree written to {file}"]
    return .success
  | .error failure =>
    host.noteLines
      (failure.errors.map (·.line style) ++
        [style.bold .red "Parsing failed due to errors."])
    return .failure

/-- Reads the file that the options name and reports on it. -/
def runOptions (host : Host m) (style : Style) (usage : String) (o : Options) : m Exit := do
  if isSourcePath o.file then
    match ← (host.read o.file).run with
    | .error e =>
      host.noteLines [s!"Error: cannot read '{o.file}': {e}"]
      return .failure
    | .ok source =>
      host.noteLines [s!"Scanning {o.file}..."]
      let a := Analysis.ofSource source
      host.noteLines (a.lexicalErrors.map (·.line style))
      match ← (writeReports host style o a).run with
      | .ok exit => return exit
      | .error e =>
        host.noteLines ["Error: " ++ e.details]
        return .failure
  else
    host.noteLines [s!"Input file must have a .{sourceExtension} extension.", "", usage]
    return .usage

def run (host : Host m) (cli : CommandLine) (style : Style) (arguments : List String) :
    m Exit := do
  match cli.request arguments with
  | .error text =>
    host.note text
    return .usage
  | .ok (.answer text) =>
    host.print text
    return .success
  | .ok (.run o) => runOptions host style cli.usage o

end

/-- A system of its own: some files, and what has been printed so far. -/
structure World where
  files : Files := {}
  output : String := ""
  notes : String := ""

/-- The command's view of such a system. -/
def World.host : Host (StateM World) where
  read path := do return ← (← get).files.read path
  makeDirectory path := do
    let files ← (← get).files.makeDirectory path
    modify ({ · with files })
  isDirectory path := return (← get).files.isDirectory path
  write path text := do
    let files ← (← get).files.write path text
    modify ({ · with files })
  print text := modify fun w => { w with output := w.output ++ text }
  note text := modify fun w => { w with notes := w.notes ++ text }

/-- Runs the command on some files. -/
def runOn (files : Files) (arguments : List String) : Exit × World :=
  (run World.host .corefront .plain arguments).run { files }

end CoreLang.Command
