import ApiTree.Catalog.Session
import ApiTree.Document.Format
import ApiTree.Operation.View.Rendered

/-!
# Building and writing documents

The document of a version is its static part with every operation that can be resolved for the version
and described; the others are told and left out. Documents are written one file for each version.
-/

set_option autoImplicit false

namespace ApiTree.Document

/-- The part of the program that tells about documents in the log. -/
def writerName : String := "specsmith.writer"

/-- What the document of a version with the given components says about an operation. -/
def operationEntry (table : OperationTable) (base : String) (components : Value) (version : String)
    (legacyPrefixes : List String) (key : OperationKey) : Except Fault Fields := do
  (← table.view base key.slug (some version) legacyPrefixes).rendered components

/-- The paths with one more operation. -/
def addOperation (paths : Fields) (key : OperationKey) (operation : Fields) : Fields :=
  let methods : Fields :=
    match Fields.get? key.path paths with
    | some (.map methods) => methods
    | _ => []
  Fields.put key.path (.map (Fields.put key.method (.map operation) methods)) paths

/-- The paths of the operations of a table. An operation that is at fault is logged and left out; a
failure that is nobody's fault ends the building. -/
def paths (table : OperationTable) (base : String) (components : Value) (version : String)
    (legacyPrefixes : List String) : Logged Fields :=
  table.operations.foldlM
    (fun paths key => do
      match operationEntry table base components version legacyPrefixes key with
      | .ok operation => return addOperation paths key operation
      | .error fault =>
        match fault.report? with
        | some report =>
          Logged.log .error writerName
            ("Skipping " ++ key.render ++ " (" ++ version ++ "): " ++ report.message)
          return paths
        | none => throw fault) []

/-- The document of a version. -/
def build (version : String) (legacyPrefixes : List String) : Run Fields := do
  let document ← Run.staticDocument version
  let table ← Run.table
  let base := (← Run.catalog).base
  let components := Fields.getD "components" document
  let paths ← Run.ofLogged (paths table base components version legacyPrefixes)
  return Value.mergeEntries document [("paths", .map paths)]

/-- The file of the document of a version. -/
def fileOf (directory : FilePath) (format : DocumentFormat) (version : String) : FilePath :=
  directory.join (FilePath.ofText (version ++ "." ++ format.render))

/-- How documents are written. -/
structure WriteOptions where
  directory : FilePath
  format : DocumentFormat := .json
  legacyPrefixes : List String := []
  exclusions : List String := defaultExclusions
  /-- Refuse to write a document that has violations. -/
  strict : Bool := false
  deriving DecidableEq, Inhabited

/-- Build, validate and write the document of a version. -/
def write (options : WriteOptions) (version : String) : Run FilePath := do
  let document ← build version options.legacyPrefixes
  let violations := validate (.map document) options.exclusions
  for violation in violations do
    Run.tell (.log ⟨.warning, writerName,
      version ++ "." ++ options.format.render ++ ": " ++ violation⟩)
  if options.strict && !violations.isEmpty then throw (.violations violations)
  let path := fileOf options.directory options.format version
  match options.format.write (.map document) with
  | .error f => throw (.failed f)
  | .ok text =>
    Run.writeFile path text
    Run.tell (.log ⟨.info, writerName, "Wrote " ++ path.render⟩)
    return path

/-- Write the documents of the given versions, or of all, in order. -/
def writeAll (options : WriteOptions) (versions : Option (List String)) : Run (List FilePath) := do
  let versions ←
    match versions with
    | some versions => pure versions
    | none => Run.versions
  versions.mapM (write options)

end ApiTree.Document
