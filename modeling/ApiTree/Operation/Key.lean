import ApiTree.Text.Blank
import ApiTree.Text.Case

/-!
# Operation keys

An operation is known by its method, in lower case, and its path, which starts with the base path of
the API. A key can be written in two notations, `GET /widgets` and `/widgets/get`.
-/

set_option autoImplicit false

namespace ApiTree

/-- The base path of an API unless another one is set. -/
def defaultBase : String := "/api"

/-- A base path without the slashes at its end. -/
def trimBase (base : String) : String :=
  String.ofList (Text.dropEndWhile (· == '/') base.toList)

/-- The name of an operation. -/
structure OperationKey where
  method : String
  path : String
  deriving DecidableEq, Repr, Inhabited

namespace OperationKey

/-- The key of a method in any case and a path. -/
def make (method path : String) : OperationKey := ⟨Text.lower method, path⟩

/-- Method and path of a descriptor. With a space in it the first field is the method and the rest
the path; otherwise the method is the last segment of the path. -/
def splitDescriptor (cs : List Char) : List Char × List Char :=
  if cs.contains ' ' then Text.splitField cs
  else
    let (path, method) := Text.splitLast (· == '/') (Text.dropEndWhile (· == '/') cs)
    (method, path)

/-- The path with one slash at its start and none at its end; nothing for the empty path. -/
def normalPath (path : List Char) : List Char :=
  let isSlash (c : Char) : Bool := c == '/'
  if (Text.trimWhile isSlash path).isEmpty then []
  else '/' :: Text.trimWhile isSlash (Text.trimWhile Text.isBlank path)

/-- The path below the base path. A path that starts with the base path in any case starts with it as
the base is spelt; any other path is put below it. -/
def mount (base : String) (path : List Char) : List Char :=
  if base = "" then path
  else
    let lowered := Text.lower (String.ofList path)
    let loweredBase := Text.lower base
    if lowered = loweredBase || Text.startsWith lowered (loweredBase ++ "/") then
      base.toList ++ path.drop base.length
    else base.toList ++ path

/-- The key that a descriptor writes. -/
def parse (descriptor : String) (base : String := defaultBase) : OperationKey :=
  let (method, path) := splitDescriptor (Text.trimWhile Text.isBlank descriptor.toList)
  let path := mount (trimBase base) (normalPath path)
  make (String.ofList method) (if path.isEmpty then "/" else String.ofList path)

/-- The key as a path, `/api/widgets/get`. -/
def slug (k : OperationKey) : String := trimBase k.path ++ "/" ++ k.method

/-- The key with the method first, `GET /api/widgets`. -/
def render (k : OperationKey) : String := Text.upper k.method ++ " " ++ k.path

end OperationKey
end ApiTree
