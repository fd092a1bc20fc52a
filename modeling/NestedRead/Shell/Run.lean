import NestedRead.Catalog.Document
import NestedRead.Json.Writer
import NestedRead.Read
import NestedRead.Request.Document
import NestedRead.Shell.Arguments
import NestedRead.Shell.Report
import NestedRead.Shell.VariableFile

/-!
# Running the program

The program as a function of its arguments, its variables and the files that it can read, to what
it prints and its exit code. First the compiler is set up, then the files of the command are read
in turn; the first failure ends the run.
-/

set_option autoImplicit false

namespace NestedRead.Shell

/-- What a run leaves behind. -/
structure Outcome where
  exitCode : UInt32
  stdout : String := ""
  stderr : String := ""
deriving DecidableEq, Repr

/-- The contents of a file by its path. -/
abbrev ReadFile := String → Except FileError String

/-! ## Input -/

/-- A failure with its message alone. -/
def failed {α : Type} (message : String) : Except Failure α := .error { what := message }

def configFailure (e : ConfigError) : Failure := ⟨e.message, [e.causeText]⟩

/-- The settings from the file or the variables, with those of the arguments on top. -/
def loadConfig (invocation : Invocation) (environment : Environment) (read : ReadFile) :
    Except Failure Config := do
  let base ← match invocation.config with
    | some path =>
      (Config.ofFile (read path)).mapError fun e =>
        (configFailure e).within s!"loading compiler config {path}"
    | none =>
      (Config.ofEnvironment environment).mapError fun e =>
        (configFailure e).within "reading compiler config from environment"
  (base.merge invocation.overrides).mapError configFailure

def loadCatalog (path : String) (read : ReadFile) : Except Failure Catalog :=
  (Catalog.ofFile path (read path)).outcome.mapError fun e =>
    Failure.within ⟨e.message, []⟩ s!"loading entity catalog {path}"

/-- What a document in a file holds. -/
def loadDocument {α : Type} (ofText? : String → Option α) (kind path : String) (read : ReadFile) :
    Except Failure α := do
  let text ← (read path).mapError fun e => Failure.within ⟨e.message, []⟩ s!"reading {path}"
  match ofText? text with
  | some a => return a
  | none => .error (Failure.within ⟨s!"not {kind}", []⟩ s!"parsing {path}")

/-! ## Commands -/

/-- The catalog, the tree of the request and the compiled statement. -/
def compileRequest (catalog : Catalog) (config : Config) (request : Request) :
    Except Failure (SelectionTree × CompiledRead) := do
  let tree ← (SelectionTree.ofRequest catalog request).outcome.mapError (⟨·.message, []⟩)
  let compiled ← (tree.compile catalog config).outcome.mapError (⟨·.message, []⟩)
  return (tree, compiled)

/-- What a command prints. -/
def Command.output (command : Command) (config : Config) (read : ReadFile) :
    Except Failure String := do
  match command with
  | .check path =>
    let catalog ← loadCatalog path read
    let names := Text.joined ", " catalog.names
    return s!"✓ {catalog.size} entities: {names}\n"
  | .compile catalogPath requestPath =>
    let catalog ← loadCatalog catalogPath read
    let request ← loadDocument Request.ofText? "a request" requestPath read
    let (_, compiled) ← compileRequest catalog config request
    let rendered := compiled.statement.render
    let document := Json.object [("sql", .string rendered.sql), ("bindings", .array rendered.bindings)]
    return document.pretty ++ "\n"
  | .denormalize catalogPath requestPath rowsPath =>
    let catalog ← loadCatalog catalogPath read
    let request ← loadDocument Request.ofText? "a request" requestPath read
    let .array rows ← loadDocument Json.ofText? "a JSON document" rowsPath read
      | failed "rows file must contain a JSON array"
    let (tree, compiled) ← compileRequest catalog config request
    let roots ← (tree.nest compiled.layout rows).outcome.mapError (⟨·.message, []⟩)
    return (Json.array roots).pretty ++ "\n"

/-! ## Runs -/

/-- The name and version of the program. -/
def versionLine : String := "relnest 0.3.0-dev\n"

def helpText : String :=
  "Usage: relnest [OPTIONS] <check|compile|denormalize> [OPTIONS]\n"

/-- What an invocation leaves behind. -/
def Invocation.run (invocation : Invocation) (environment : Environment) (read : ReadFile) :
    Outcome :=
  let printed := do
    let config ← loadConfig invocation environment read
    invocation.command.output config read
  match printed with
  | .ok text => { exitCode := 0, stdout := text }
  | .error failure => { exitCode := 1, stderr := failure.report }

/-- A run of the program. The file of variables, if there is one, adds to the environment. -/
def run (arguments : List String) (environment : Environment) (variableFile : Option String)
    (read : ReadFile) : Outcome :=
  let environment := variableFile.elim environment environment.load
  match Action.ofArguments arguments with
  | .ok (.run invocation) => invocation.run environment read
  | .ok .version => { exitCode := 0, stdout := versionLine }
  | .ok .help => { exitCode := 0, stdout := helpText }
  | .error e => { exitCode := 2, stderr := s!"error: {e.message}\n\n{helpText}" }

end NestedRead.Shell
