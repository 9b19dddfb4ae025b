import ApiTree.Document.Validation
import ApiTree.Fragment.Transform

/-!
# Compiling fragments into a document

A document is what its fragments contribute, merged in the given order; entries at the top whose keys
start with an underscore are notes of the authors and are left out. The result is validated as if it
had the parts that only a version gives it. Violations are told and do not prevent the result.
-/

set_option autoImplicit false

namespace ApiTree.Document

/-- The part of the program that tells about compilation in the log. -/
def compilerName : String := "specsmith.compiler.document"

/-- A document and what is wrong with it. -/
structure Compilation where
  document : Fields
  violations : List String
  deriving DecidableEq, Inhabited

/-- The document, refused if something is wrong with it. -/
def Compilation.valid (c : Compilation) : Except Fault Fields :=
  if c.violations.isEmpty then .ok c.document else .error (.violations c.violations)

/-- What a file contributes to the document. -/
def contribution (disk : Disk) (root : FilePath) (base path : String) : Logged Fields := do
  Logged.log .debug compilerName ("Merging " ++ path)
  Logged.lift (← Fragment.load disk root base path).transform

/-- What the files contribute, merged in their order. -/
def mergeFiles (disk : Disk) (root : FilePath) (base : String) (paths : List String) :
    Logged Fields :=
  paths.foldlM
    (fun document path => do
      return Value.mergeEntries document (← contribution disk root base path)) []

/-- The entries without the notes of the authors. -/
def withoutNotes (document : Fields) : Fields :=
  document.filter fun e => !Text.startsWith e.1.text "_"

/-- The document with the parts that a version gives it. -/
def completed (document : Fields) : Fields :=
  Value.mergeEntries [("paths", .map [])]
    (Value.mergeEntries document [("info", .single "version" (.str "1"))])

/-- The document of the files and what is wrong with it. -/
def compile (disk : Disk) (root : FilePath) (base : String) (exclusions : List String)
    (paths : List String) : Logged Compilation := do
  let document := withoutNotes (← mergeFiles disk root base paths)
  let violations := validate (.map (completed document)) exclusions
  for violation in violations do
    Logged.log .warning compilerName ("OpenAPI violation: " ++ violation)
  return ⟨document, violations⟩

end ApiTree.Document
