import ApiTree.Command.Line
import ApiTree.Document.Build
import ApiTree.Operation.View.Response

/-!
# Running commands

A command is run on a disk and an environment; it ends with an exit code, the texts that it has shown
and the disk as it has left it.
-/

set_option autoImplicit false

namespace ApiTree.Command

/-- The version of the program. -/
def programVersion : String := "0.1.0"

/-- How a command has ended. -/
structure Outcome where
  exitCode : Int
  stdout : String
  stderr : String
  disk : Disk
  deriving Inhabited

/-- The settings that the command line gives, by name. -/
def givenSettings (common : Common) (action : Action) : Fields :=
  let entry (key : String) (v : Option String) : Fields :=
    (v.map fun v => (Value.str key, Value.str v)).toList
  match action with
  | .build output format _ _ =>
    entry "root" common.root ++ entry "output_dir" output ++
      entry "output_format" (format.map (·.render))
  | _ => entry "root" common.root

/-- The settings that hold for a command. -/
def settingsOf (disk : Disk) (environment : Environment) (common : Common) (action : Action) :
    Except Fault Settings :=
  Settings.resolve disk environment (common.config.map FilePath.ofText) (givenSettings common action)

/-- The latest version, if there is one but the draft. -/
def latest? : Run (Option String) := do
  let versions ← Run.versions
  return versions.dropLast.getLast?

/-- Write documents. -/
def build (console : Console) (settings : Settings) (versions : List String) (strict : Bool) :
    Run Unit := do
  console.say .info
    ("Compiling " ++ settings.root.render ++ " into " ++ settings.outputDir.render)
  let options : Document.WriteOptions :=
    { directory := settings.outputDir, format := settings.format
      legacyPrefixes := settings.legacyPrefixes, exclusions := settings.exclusions, strict }
  let written ← Document.writeAll options (if versions.isEmpty then none else some versions)
  for path in written do
    console.say .success ("Wrote " ++ path.render)

/-- Show the versions and which one is the latest. -/
def showVersions (console : Console) : Run Unit := do
  let versions ← Run.versions
  let latest ← latest?
  let rows := versions.map fun v => [v, if some v = latest then "yes" else ""]
  Console.put (console.table ["version", "latest"] rows (some "API versions"))

/-- Show what a document says of an operation, or the tests of the operation. -/
def display (settings : Settings) (operation : String) (version : Option String)
    (examples : Bool) : Run Unit := do
  let view ← Run.view operation version settings.legacyPrefixes
  if examples then
    match view.examples with
    | .ok examples => Console.put (Console.document (.seq (examples.map .map)))
    | .error f => throw (.failed f)
  else
    let document ← Run.staticDocument (versionOrDraft version)
    let rendered ← liftM (view.rendered (Fields.getD "components" document))
    Console.put (Console.document (.map rendered))

/-- The violations of the document of a version, each told after the version. -/
def validateVersion (console : Console) (settings : Settings) (version : String) :
    Run (List String) := do
  let document ← Document.build version settings.legacyPrefixes
  let found := Document.validate (.map document) settings.exclusions
  for violation in found do
    console.say .warning (version ++ ": " ++ violation)
  if found.isEmpty then console.say .success (version ++ ": valid")
  return found.map fun violation => version ++ ": " ++ violation

/-- Validate the documents of the given versions, or of all. -/
def validate (console : Console) (settings : Settings) (versions : List String) : Run Unit := do
  let versions ← if versions.isEmpty then Run.versions else pure versions
  let violations ← versions.mapM (validateVersion console settings)
  if !violations.flatten.isEmpty then throw (.violations violations.flatten)

/-- Run a command with the settings that hold for it. -/
def perform (console : Console) (environment : Environment) (common : Common) (action : Action) :
    Run Unit := do
  let settings ← liftM (settingsOf (← get).disk environment common action)
  Run.modifyCatalog fun _ => settings.catalog
  match action with
  | .build _ _ versions strict => build console settings versions strict
  | .versions => showVersions console
  | .display operation version examples => display settings operation version examples
  | .validate versions => validate console settings versions

/-- Tell why a command has failed; the exit code. A failure that has no message of its own is
unexpected. -/
def reportFault (console : Console) (fault : Fault) : Run Int := do
  match fault.report? with
  | some report =>
    console.say .error report.message
    return report.exitCode
  | none =>
    console.say .error "Unexpected error"
    return 1

/-- Run a command to its exit code. -/
def execute (console : Console) (environment : Environment) (common : Common) (action : Action) :
    Run Int :=
  tryCatch (do perform console environment common action; return 0) (reportFault console)

/-- The text of an event on the standard output. -/
def outputText : Event → String
  | .output text => text
  | _ => ""

/-- The text of an event on the standard error. Lines of the log below a warning are for verbose runs
only. -/
def diagnosticText (verbose : Bool) : Event → String
  | .diagnostic text => text
  | .log line =>
    if verbose || line.level == .warning || line.level == .error then line.render ++ "\n" else ""
  | .output _ => ""

/-- How commands are written. -/
def helpText : String :=
  "Usage: specsmith [OPTIONS] COMMAND [ARGS]...\n\n" ++
    "Compile a tree of YAML fragments into versioned OpenAPI documents.\n\n" ++
    "Options:\n" ++
    "  --version         Show version and exit.\n" ++
    "  -r, --root TEXT   Spec tree root (default: spec/api).\n" ++
    "  -c, --config PATH Project config file (default: ./specsmith.json).\n" ++
    "  --json            JSON output format.\n" ++
    "  --plain           Plain text output.\n" ++
    "  --no-color        Disable color output.\n" ++
    "  -q, --quiet       Suppress non-essential output.\n" ++
    "  -v, --verbose     Enable debug output.\n\n" ++
    "Commands:\n" ++
    "  build     Write <version>.json (or .yaml) for each version.\n" ++
    "  versions  List every version in the spec tree, oldest first.\n" ++
    "  show      Print the Operation Object an operation resolves to for a version.\n" ++
    "  validate  Validate each version's document against the OpenAPI 3.0 meta-schema.\n"

/-- Run a command line. -/
def run (args : List String) (environment : Environment) (terminal : Bool) (disk : Disk) :
    Outcome :=
  match Request.ofArguments args with
  | .misuse => ⟨2, "", helpText, disk⟩
  | .help => ⟨0, helpText, "", disk⟩
  | .programVersion => ⟨0, "specsmith " ++ programVersion ++ "\n", "", disk⟩
  | .perform common action =>
    let console := Console.make common.format common.noColour common.quiet common.verbose terminal
      environment
    let start : Session := { disk, catalog := ({} : Settings).catalog }
    let (result, s) := (execute console environment common action).run.run start
    let exitCode :=
      match result with
      | .ok code => code
      | .error _ => 1
    ⟨exitCode, String.join (s.events.map outputText),
      String.join (s.events.map (diagnosticText common.verbose)), s.disk⟩

end ApiTree.Command
