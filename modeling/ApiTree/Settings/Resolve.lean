import ApiTree.Catalog.Session
import ApiTree.Disk.Basic
import ApiTree.Fault
import ApiTree.Json.Reader
import ApiTree.Settings.Basic

/-!
# Where settings come from

Settings have three sources beside their usual values: the project file, the environment over it, and
the command line over both. The project file is a JSON object; the usual one may be missing, one that
was asked for may not.
-/

set_option autoImplicit false

namespace ApiTree

/-- The variables of the environment. -/
abbrev Environment := List (String × String)

namespace Settings

/-- The name of the usual project file. -/
def projectFile : String := "specsmith.json"

/-- The usual project file, in the working directory. -/
def usualFile (disk : Disk) : FilePath := ⟨.root, disk.home ++ [projectFile]⟩

/-- The mapping that the text of a project file writes. -/
def parseProject (path text : String) : Except Fault Fields :=
  match Json.readText text.toList with
  | .ok (.map entries) => .ok entries
  | .ok _ => .error (.configNotObject path)
  | .error .malformed => .error (.configMalformed path)
  | .error .longInteger => .error (.failed .badValue)

/-- The mapping in a project file. -/
def readProject (disk : Disk) (path : FilePath) : Except Fault Fields :=
  match disk.read path with
  | .error _ => .error (.configMalformed path.render)
  | .ok bytes =>
    match String.fromUTF8? bytes with
    | some text => parseProject path.render text
    | none => .error (.failed .notText)

/-- The mapping in the project file that was asked for, or in the usual one if it is there. -/
def loadProject (disk : Disk) (path? : Option FilePath) : Except Fault (Option Fields) :=
  let path := path?.getD (usualFile disk)
  if disk.isFile path then (readProject disk path).map some
  else if path?.isSome then .error (.configNotFound path.render)
  else .ok none

/-- The variables of the environment that give settings, with the names of the settings. -/
def variableNames : List (String × String) :=
  [("SPECSMITH_ROOT", "root"), ("SPECSMITH_PREFIX", "prefix"),
   ("SPECSMITH_DRAFT_ONLY", "draft_only"), ("SPECSMITH_OUTPUT_DIR", "output_dir"),
   ("SPECSMITH_FORMAT", "output_format")]

/-- The truth value that a variable gives. -/
def parseFlag (name text : String) : Except Fault Bool :=
  let word := Text.lower (Text.trim text)
  if ["1", "true", "yes", "on"].contains word then .ok true
  else if ["0", "false", "no", "off"].contains word then .ok false
  else .error (.badFlag name text)

/-- The value that a variable gives to a setting. -/
def variableValue (name setting text : String) : Except Fault Value :=
  if setting = "draft_only" then (parseFlag name text).map .bool else .ok (.str text)

/-- The settings with those of the environment over them. A variable that is empty gives nothing. -/
def overlay (environment : Environment) (fields : Fields) : Except Fault Fields :=
  variableNames.foldlM
    (fun fields (name, setting) =>
      match environment.lookup name with
      | some text =>
        if text = "" then .ok fields
        else (variableValue name setting text).map fun v => Fields.put setting v fields
      | none => .ok fields) fields

/-- The settings of a run, where `given` are those that the command line gives. -/
def resolve (disk : Disk) (environment : Environment) (path? : Option FilePath) (given : Fields) :
    Except Fault Settings := do
  let project := (← loadProject disk path?).getD []
  let fields := Entries.putAll given (← overlay environment project)
  (ofFields fields).mapError Fault.badSettings

/-- The catalog that the settings describe. -/
def catalog (s : Settings) : Catalog :=
  Catalog.make s.root s.base s.draftOnly (some s.exclusions)

end Settings
end ApiTree
