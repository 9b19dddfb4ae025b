import ApiTree.Failure
import ApiTree.Text.Blank
import ApiTree.Text.Literal
import ApiTree.Value.Text

/-!
# Faults

Everything that can end a request without a result. A fault names its cause; `Fault.report` gives
the message that the user sees, the exit code of the command and the details that a program may ask
for.
-/

set_option autoImplicit false

namespace ApiTree

/-- The families of faults that the user is told about. -/
inductive FaultKind where
  | general
  | usage
  | config
  | parse
  | referenceSyntax
  | schemaViolation
  | operationNotFound
  | versionNotFound
  | missingOperationId
  | noVersions
  deriving DecidableEq, Repr, Inhabited

namespace FaultKind

/-- The wider family that a family belongs to. -/
def parent? : FaultKind → Option FaultKind
  | .general => none
  | .referenceSyntax => some .parse
  | .versionNotFound => some .operationNotFound
  | _ => some .general

/-- A family and the wider ones around it. -/
def lineage (k : FaultKind) : List FaultKind :=
  match k.parent? with
  | none => [k]
  | some p =>
    match p.parent? with
    | none => [k, p]
    | some q => [k, p, q]

/-- The exit code of a command that ends with a fault of the family. -/
def exitCode : FaultKind → Int
  | .general | .config => 1
  | .usage => 2
  | .operationNotFound | .versionNotFound => 4
  | .parse | .referenceSyntax | .schemaViolation => 7
  | .missingOperationId => 8
  | .noVersions => 9

end FaultKind

/-- What a fault tells besides its message. -/
inductive FaultDetail where
  | none
  /-- The file and a numbered copy of its text. -/
  | source (path dump : String)
  | violations (messages : List String)
  /-- The operation and version that were asked for and the operations that exist. -/
  | lookup (operation : String) (version : Option String) (known : List String)
  deriving DecidableEq, Repr, Inhabited

/-- A fault as it is reported. -/
structure FaultReport where
  kind : FaultKind
  message : String
  exitCode : Int := kind.exitCode
  detail : FaultDetail := .none
  deriving DecidableEq, Repr, Inhabited

/-- The message about a document that has violations. -/
def violationsMessage (violations : List String) : String :=
  "Merged document has " ++ toString violations.length ++ " schema violation(s):\n" ++
    String.intercalate "\n" (violations.map ("  - " ++ ·))

/-- The reason why the value of a setting is refused. -/
inductive SettingProblem where
  | notPath
  | notText
  | notFlag
  | unknownFlag
  | notList
  | unknownFormat
  deriving DecidableEq, Repr, Inhabited

/-- The cause of a request's failure. -/
inductive Fault where
  /-- A file that cannot be read, with the reason. -/
  | unreadable (path reason : String)
  /-- A reference without the blank after its colon. -/
  | badReference (path : String)
  | badYaml (path dump : String)
  /-- A file whose value is not a mapping. -/
  | notMapping (path : String)
  | violations (messages : List String)
  | unknownOperation (slug version : String) (known : List String)
  /-- An operation that has neither the version nor a draft; `defined` are the versions it has. -/
  | unknownVersion (slug version : String) (defined known : List String)
  /-- An operation without an identifier; its name and version may be any values. -/
  | missingOperationId (operation version : Value)
  | noVersions (root : String)
  | configNotFound (path : String)
  | configMalformed (path : String)
  | configNotObject (path : String)
  /-- An environment variable that should be a truth value. -/
  | badFlag (name text : String)
  | badSettings (problems : List (String × SettingProblem))
  | failed (f : Failure)
  deriving DecidableEq, Inhabited

namespace Fault

/-- The fault as it is reported; none for a failure that has no message of its own. -/
def report? : Fault → Option FaultReport
  | .unreadable path reason =>
    some { kind := .parse, message := "Failed to read " ++ path ++ ": " ++ reason
           detail := .source path "" }
  | .badReference path =>
    some { kind := .referenceSyntax
           message := path ++ ": $ref:'...' should be $ref: '...' (note the space)"
           detail := .source path "" }
  | .badYaml path dump =>
    some { kind := .parse, message := "Invalid YAML in " ++ path, detail := .source path dump }
  | .notMapping path =>
    some { kind := .parse, message := path ++ " missing or empty", detail := .source path "" }
  | .violations messages =>
    some { kind := .schemaViolation, message := violationsMessage messages
           detail := .violations messages }
  | .unknownOperation slug version known =>
    let (directory, file) := Text.splitLast (· == '/') slug.toList
    some { kind := .operationNotFound
           message := "Could not find " ++ String.ofList file ++ ".yml in the spec directory " ++
             String.ofList directory ++ ". Have you defined it?\n\n" ++ slug ++ " " ++ version ++
             " not found: " ++ Value.literalOfTexts known
           detail := .lookup slug version known }
  | .unknownVersion slug version defined known =>
    some { kind := .versionNotFound
           message := slug ++ " has no " ++ version ++ ".yml and no draft file; defined versions: " ++
             Value.literalOfTexts defined
           detail := .lookup slug version known }
  | .missingOperationId operation version =>
    some { kind := .missingOperationId
           message := "Operation ID is missing for " ++ operation.text ++ " (" ++ version.text ++
             "); add `id:` to the operation yml file" }
  | .noVersions root =>
    some { kind := .noVersions
           message := "No API versions defined under " ++ root ++ "; only 'draft' exists" }
  | .configNotFound path => some { kind := .config, message := "Config file not found: " ++ path }
  | .configMalformed path => some { kind := .config, message := "Invalid project config at " ++ path }
  | .configNotObject path =>
    some { kind := .config, message := "Project config at " ++ path ++ " must be a JSON object" }
  | .badFlag name text =>
    some { kind := .config
           message := name ++ " must be a boolean (got " ++ Text.literal text ++ ")" }
  | .badSettings _ => some { kind := .config, message := "Invalid configuration" }
  | .failed _ => none

end Fault

/-- How urgent a line of the log is. -/
inductive LogLevel where
  | debug
  | info
  | warning
  | error
  deriving DecidableEq, Repr, Inhabited

/-- A line of the log: its level, the part of the program that writes it, and its text. -/
structure LogLine where
  level : LogLevel
  source : String
  text : String
  deriving DecidableEq, Repr, Inhabited

namespace LogLine

/-- The level as written. -/
def levelName : LogLevel → String
  | .debug => "DEBUG"
  | .info => "INFO"
  | .warning => "WARNING"
  | .error => "ERROR"

/-- The line as written. -/
def render (l : LogLine) : String :=
  levelName l.level ++ " " ++ l.source ++ ": " ++ l.text

end LogLine

/-- A computation that writes a log and may end with a fault; the log up to the fault remains. -/
abbrev Logged := ExceptT Fault (StateM (List LogLine))

namespace Logged

/-- Write a line to the log. -/
def log (level : LogLevel) (source text : String) : Logged Unit :=
  modify fun lines => lines ++ [⟨level, source, text⟩]

/-- The result of a step that may fail. -/
def lift {α : Type} (r : Except Failure α) : Logged α :=
  match r with
  | .ok a => pure a
  | .error f => throw (.failed f)

/-- Result and log of a computation. -/
def collect {α : Type} (m : Logged α) : Except Fault α × List LogLine := m.run.run []

end Logged
end ApiTree
