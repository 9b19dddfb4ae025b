import ApiTree.Disk.FilePath
import ApiTree.Operation.Key

/-!
# Places of files

The place of a file below the root of the tree says what it is:

* below a folder `open_api` or `_openapi`, a static part of the document;
* named after a method, or in a folder named after one, an operation: the file itself is its draft,
  and in the folder each file is the version that its name gives;
* in a folder of components, components of one kind;
* elsewhere a part of the document as it is.

The first rule that fits counts, and of several methods the last.
-/

set_option autoImplicit false

namespace ApiTree

/-- What a file of the tree is. -/
inductive FileKind where
  | operation
  | versionedOperation
  | component
  | static
  | other
  deriving DecidableEq, Repr, Inhabited

/-- A kind of components. -/
inductive ComponentKind where
  | examples
  | parameters
  | requestBodies
  | responses
  | schemas
  deriving DecidableEq, Repr, Inhabited

namespace FileKind

/-- The kind as written. -/
def render : FileKind → String
  | .operation => "operation"
  | .versionedOperation => "versioned_operation"
  | .component => "component"
  | .static => "static"
  | .other => "other"

/-- All kinds. -/
def all : List FileKind := [.operation, .versionedOperation, .component, .static, .other]

/-- The kind is a draft or a version of an operation. -/
def isOperation (k : FileKind) : Bool := k == .operation || k == .versionedOperation

end FileKind

namespace ComponentKind

/-- The kind as the document writes it. -/
def render : ComponentKind → String
  | .examples => "examples"
  | .parameters => "parameters"
  | .requestBodies => "requestBodies"
  | .responses => "responses"
  | .schemas => "schemas"

/-- All kinds. -/
def all : List ComponentKind := [.examples, .parameters, .requestBodies, .responses, .schemas]

/-- The kind that the document writes so. -/
def ofText? (s : String) : Option ComponentKind := all.find? (·.render == s)

/-- The kind of the components in a folder. -/
def ofFolder? (folder : String) : Option ComponentKind :=
  if folder = "requests" then some .requestBodies else ofText? folder

end ComponentKind

/-- The token of the version that every operation can have without a date. -/
def draft : String := "draft"

/-- The methods that name operations. -/
def methods : List String := ["get", "post", "patch", "put", "delete"]

/-- The folders of static parts. -/
def staticFolders : List String := ["open_api", "_openapi"]

/-- The folders of components. -/
def componentFolders : List String := ["examples", "parameters", "requests", "responses", "schemas"]

/-- What the place of a file says. -/
structure Place where
  kind : FileKind
  component : Option ComponentKind := none
  operation : Option OperationKey := none
  version : Option String := none
  deriving DecidableEq, Repr, Inhabited

namespace Place

/-- The file name without the extension of the tree. -/
def withoutExtension (name : String) : String :=
  if Text.endsWith name ".yml" then FilePath.stemOf name else name

/-- The segments of a path below the root, the last without its extension. A path that does not lead
through the root is taken from its start. -/
def parts (root path : FilePath) : List String :=
  let segments := (root.below? path).getD path.segments
  match segments.getLast? with
  | some last => segments.dropLast ++ [withoutExtension last]
  | none => []

/-- The path of an operation whose files stand below the given segments. -/
def operationPath (base : String) (segments : List String) : String :=
  let base := trimBase base
  if segments.isEmpty then (if base = "" then "/" else base)
  else base ++ "/" ++ String.intercalate "/" segments

/-- What a file with the given segments is. -/
def ofParts (base : String) (parts : List String) : Place :=
  if parts.any staticFolders.contains then { kind := .static }
  else
    let after := (parts.reverse.takeWhile (!methods.contains ·)).reverse
    match (parts.take (parts.length - after.length)).getLast? with
    | some method =>
      let key := OperationKey.make method
        (operationPath base (parts.take (parts.length - after.length - 1)))
      if after.isEmpty then { kind := .operation, operation := some key }
      else { kind := .versionedOperation, operation := some key, version := after.getLast? }
    | none =>
      match parts.find? componentFolders.contains with
      | some folder => { kind := .component, component := ComponentKind.ofFolder? folder }
      | none => { kind := .other }

/-- What a file is. -/
def ofPath (root path : FilePath) (base : String := defaultBase) : Place :=
  ofParts base (parts root path)

/-- The file is a draft or a version of an operation. -/
def isOperationFile (root path : FilePath) : Bool := (ofPath root path).kind.isOperation

/-- The name of the file is a version: digits and points. -/
def isVersionedFile (path : FilePath) : Bool :=
  path.stem ≠ "" && path.stem.toList.all fun c => c = '.' || Text.isDigit c

/-- A segment of the path holds the word `index`; such files come first. -/
def isIndexFile (root path : FilePath) : Bool :=
  (parts root path).any fun part => Text.contains part "index"

end Place
end ApiTree
