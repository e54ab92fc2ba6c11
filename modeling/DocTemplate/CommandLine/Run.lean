import DocTemplate.Backend.Registry
import DocTemplate.CommandLine.Arguments
import DocTemplate.CommandLine.Folder
import DocTemplate.Configuration.Layer
import DocTemplate.Data.Placeholder

/-!
# Running a command line

`compile` renders a template with the backend that is named, or with the one
that the extension of the output file calls for, and writes the output to that
file or prints it; `skeleton` prints an empty data source for a template.
Warnings do not keep a template from being rendered, unless they are denied:
then nothing is written.
-/

namespace DocTemplate
namespace CommandLine

/-- What a program leaves behind besides files: its exit code and its texts
on both channels. -/
structure Report where
  code : Nat := 0
  output : String := ""
  errors : String := ""
deriving DecidableEq, Repr

/-- The report of a command that fails. -/
def Report.failure (errors : String) : Report := { code := 1, errors }

/-! ## Texts -/

def programName : String := "textdoc"

def versionText : String := programName ++ " 0.1.0\n"

def usageText : String :=
  "Usage: textdoc [compile] <template> [--to <backend>] [-d <file>]\n"
    ++ "               [-o <file>] [--deny-warnings] [--config <file>]\n"
    ++ "               [--extra-<name> [<value>]]...\n"
    ++ "       textdoc skeleton <template>\n"
    ++ "       textdoc --list-backends\n"

def helpText : String :=
  "Compile XML document templates with JSON data\n\n" ++ usageText

def readingError (path : String) (problem : FileProblem) : String :=
  s!"Error reading file '{path}': " ++ problem.message ++ "\n"

def writingError (path : String) (problem : FileProblem) : String :=
  s!"Error writing file '{path}': " ++ problem.message ++ "\n"

/-- An error on a line of its own. -/
def errorLine (message : String) : String := "Error: " ++ message ++ "\n"

def warningLines (diagnostics : List Diagnostic) : String :=
  String.join <|
    diagnostics.map fun diagnostic => "warning: " ++ diagnostic.text ++ "\n"

def deniedLine (count : Nat) : String :=
  errorLine s!"{count} warning(s) reported and --deny-warnings is set"

def undetectedLines (path : String) : String :=
  errorLine s!"Could not detect backend from filename '{path}'"
    ++ "Please specify --to explicitly\n"

def noBackendLine : String :=
  errorLine "No backend given. Use --to <backend> or -o <file>"

def noCommandLine : String :=
  "Unknown subcommand. Use --help for usage information.\n"

/-! ## Configuration -/

/-- The file that is always asked for. -/
def standardConfigPath : String := programName ++ ".toml"

/-- The path that is tried if there is no file under the path of a
configuration: the same one with the extension of its format. -/
def alternativePath? (path : String) : Option String :=
  let parts :=
    Text.dropTrailing (fun part => part = "" || part = ".")
      (Folder.parts path)
  match parts.getLast? with
  | none | some ".." => none
  | some _ => some (Folder.join parts ++ ".toml")

variable {m : Type → Type} [Monad m]

/-- The contents of a file, if there is one. -/
def readFile? (files : FileAccess m) (path : String) :
    m (Option String) := do
  if ← files.isFile path then
    return (← files.read path).toOption
  else
    return none

/-- The contents of a configuration file, if it is there. -/
def readConfig (files : FileAccess m) (path : String) :
    m (Option String) := do
  match ← readFile? files path with
  | some contents => return some contents
  | none =>
      match alternativePath? path with
      | none => return none
      | some other => readFile? files other

/-- The configuration from the standard file, if it is there, and from the
one that is asked for. -/
def loadConfiguration (files : FileAccess m) (path? : Option String) :
    m (Except Configuration.ConfigurationError Configuration) := do
  let standard ← readConfig files standardConfigPath
  let layers : List Configuration.Layer := [.file standard false]
  match path? with
  | none => return Configuration.load layers
  | some path =>
      let asked ← readConfig files path
      return Configuration.load (layers ++ [.file asked true])

/-- The backends as they are configured. -/
def registryOf (configuration : Configuration) : Registry :=
  .standard configuration.page configuration.pretty

/-! ## Commands -/

/-- A name padded to the width of the list of backends. -/
def padName (name : String) : String :=
  name ++ String.ofList (List.replicate (8 - name.length) ' ')

def backendLine (backend : Backend) : String :=
  "  " ++ padName backend.name ++ " " ++ backend.description ++ " (."
    ++ ", .".intercalate backend.extensions ++ ")\n"

/-- The list of all backends. -/
def backendList (registry : Registry) : String :=
  "Available backends:\n\n"
    ++ String.join (registry.backends.entries.map fun (_, backend) =>
      backendLine backend)

/-- The name of the backend to use: the one that is given, or else the one
detected from the output file. -/
def chooseBackend (registry : Registry) (name? output? : Option String) :
    Except String String :=
  match name?, output? with
  | some name, _ => .ok name
  | none, some path =>
      match registry.detect? path with
      | some backend => .ok backend.name
      | none => .error (undetectedLines path)
  | none, none => .error noBackendLine

def readData (files : FileAccess m) :
    Option String → m (Except String DataStore)
  | none => return .ok .empty
  | some path => do
      match ← files.read path with
      | .error problem => return .error (readingError path problem)
      | .ok source =>
          return (DataStore.load source).mapError fun error =>
            errorLine s!"invalid data file '{path}': {error.message}"

/-- The options of the backend: those of the command line, and the configured
root element if they name none. -/
def backendOptions (configuration : Configuration)
    (extras : BackendOptions) : BackendOptions :=
  if extras.contains rootKey then extras
  else extras.insert rootKey configuration.rootElement

/-- What a command does with a rendered template. -/
structure Job where
  output? : Option String
  denyWarnings : Bool

/-- Delivers what has been rendered. -/
def deliver (files : FileAccess m) (job : Job) (rendered : Rendered) :
    m Report := do
  let warnings := warningLines rendered.diagnostics
  if job.denyWarnings && !rendered.diagnostics.isEmpty then
    return .failure (warnings ++ deniedLine rendered.diagnostics.length)
  else
    match job.output? with
    | none => return { output := rendered.output, errors := warnings }
    | some path =>
        match ← files.write path rendered.output with
        | .ok () => return { errors := warnings }
        | .error problem =>
            return .failure (warnings ++ writingError path problem)

def runCompile (files : FileAccess m) (configuration : Configuration)
    (template : String) (given : Given) (extras : BackendOptions) :
    m Report := do
  let registry := registryOf configuration
  let output? := given.value? .output
  match chooseBackend registry (given.value? .backend) output? with
  | .error text => return .failure text
  | .ok name =>
      match registry.get name with
      | .error error => return .failure (errorLine error.message)
      | .ok _ =>
          match ← files.read template with
          | .error problem => return .failure (readingError template problem)
          | .ok source =>
              match ← readData files (given.value? .data) with
              | .error text => return .failure text
              | .ok store =>
                  let options := backendOptions configuration extras
                  match registry.render source store name options with
                  | .error error =>
                      return .failure (errorLine error.message)
                  | .ok rendered =>
                      deliver files ⟨output?, given.has .denyWarnings⟩
                        rendered

def runSkeleton (files : FileAccess m) (template : String) : m Report := do
  match ← files.read template with
  | .error problem => return .failure (readingError template problem)
  | .ok source =>
      match placeholderIds source with
      | .error error => return .failure (errorLine error.message)
      | .ok ids =>
          return { output := (DataStore.skeleton ids).text true ++ "\n" }

def runInvocation (files : FileAccess m) (invocation : Invocation)
    (extras : BackendOptions) : m Report := do
  match ← loadConfiguration files invocation.config with
  | .error error =>
      return .failure
        ("Failed to load configuration: " ++ error.message ++ "\n")
  | .ok configuration =>
      if invocation.listBackends then
        return { output := backendList (registryOf configuration) }
      else
        match invocation.command with
        | some (.compile, template, given) =>
            runCompile files configuration template given extras
        | some (.skeleton, template, _) => runSkeleton files template
        | none => return .failure noCommandLine

/-- Runs a command line. -/
def run (files : FileAccess m) (arguments : List String) : m Report :=
  let split := splitExtras arguments
  match readArguments split.kept with
  | .ok invocation => runInvocation files invocation split.options
  | .error .help => pure { output := helpText }
  | .error .version => pure { output := versionText }
  | .error .misuse => pure { code := 2, errors := usageText }

end CommandLine
end DocTemplate
