import ApiTree.Fault
import ApiTree.Fragment.Place
import ApiTree.Value.Convert

/-!
# Views of operations

A view shows the fragment that an operation resolves to, together with the context in which it was
resolved: the operation, its version, method and path. The attributes are known by their plain names;
an attribute of the document format's own extensions loses its mark.

What a fragment writes is shown as far as it can be read. The values of attributes are the author's
and may be of any kind, so that a step on them can fail.
-/

set_option autoImplicit false

namespace ApiTree

/-- An operation as it is resolved. -/
structure OperationView where
  attributes : Fields
  /-- Starts of the names of operations that need no identifier. -/
  legacyPrefixes : List String
  deriving DecidableEq, Inhabited

namespace OperationView

/-- The plain name of an attribute. -/
def plainName (key : Value) : String :=
  if key = .str "id" then "operationId"
  else if Text.startsWith key.text "x-" then String.ofList (key.text.toList.drop 2)
  else key.text

/-- The view of the given attributes. Of two attributes with one plain name the last one counts. -/
def ofFields (fields : Fields) (legacyPrefixes : List String := []) : OperationView :=
  ⟨Entries.ofPairs (fields.map fun (k, v) => (.str (plainName k), v)), legacyPrefixes⟩

/-- The view of the fragment of an operation. -/
def ofFragment (content : Fields) (key : OperationKey) (version : Option String)
    (legacyPrefixes : List String := []) : OperationView :=
  ofFields (Entries.putAll
    [("operation", .str key.slug), ("api_version", .ofOption (version.map .str)),
     ("http_method", .str key.method), ("path", .str key.path)] content) legacyPrefixes

variable (t : OperationView)

/-- The value of an attribute, or null. -/
def written (name : String) : Value := Fields.getD name t.attributes

/-- The value of an attribute, or the empty text when it is absent. -/
def writtenOrEmpty (name : String) : Value := (Fields.get? name t.attributes).getD (.str "")

/-- Path and method of the operation. -/
def operation : Value := t.writtenOrEmpty "operation"

/-- The version that was asked for. -/
def apiVersion : Value := (t.written "api_version").orElse (.str draft)

/-- The method of the operation. -/
def httpMethod : Value := t.writtenOrEmpty "http_method"

/-- The path of the operation. -/
def path : Value := t.writtenOrEmpty "path"

/-- The view as messages show it. -/
def render : String :=
  "OperationTemplate(" ++ t.operation.literal ++ ", api_version=" ++ t.apiVersion.literal ++ ")"

/-- The attributes that steer whether tests of the operation run. -/
def attributeMetadata : Fields := Fields.pick ["focus", "skip"] t.attributes

/-- What tests of the operation know about it. -/
def contextMetadata : Fields :=
  let operation :=
    Fields.put "verb" t.httpMethod (Fields.pick ["description", "summary"] t.attributes)
  Entries.putAll t.attributeMetadata
    [("operation", .map operation), ("path_item", .single "template" t.path),
     ("openapi_doc", .str (t.apiVersion.text ++ ".json")),
     ("operation_template", .str t.render)]

/-- The steps before the tests of the operation. -/
def before : Except Failure (List Value) := ((t.written "before").orElse (.seq [])).elements

/-- The steps after the tests of the operation. -/
def after : Except Failure (List Value) := ((t.written "after").orElse (.seq [])).elements

/-- The values that the tests of the operation name. -/
def lets : Except Failure Fields := ((t.written "let").orElse (.map [])).toFields

/-- The parameters of the requests of the tests. -/
def params : Except Failure Fields := ((t.written "params").orElse (.map [])).toFields

/-- Named values and parameters of requests in one mapping. -/
def letsAndParams : Except Failure Fields := do
  let lets ← t.lets
  return (← t.params).foldl (fun es e => Entries.putBy Value.sameKey e.1 e.2 es) lets

/-- The media type of a response. -/
def produces : String := "application/json"

/-- The media types that the operation takes. -/
def consumes : List Value :=
  match t.written "request_content_type" with
  | .null => [.str "application/json"]
  | contentType => contentType.toLeaves

/-- The tags of the operation. -/
def tagNames : Except Failure (List String) :=
  ((t.written "tags").orElse (.seq [])).toLeaves.mapM Value.toText

/-- The tags of the operation as one text. -/
def tags : Except Failure String := do return String.intercalate "," (← t.tagNames)

/-- The operation may go without an identifier. -/
def isLegacy : Except Failure Bool :=
  if t.legacyPrefixes.isEmpty then .ok false
  else
    match t.operation with
    | .str operation => .ok (t.legacyPrefixes.any (Text.startsWith operation))
    | .bytes _ => .error .wrongKind
    | _ => .error .noMember

/-- The identifier of the operation. Only legacy operations may be without one; the message about
another one names the operation and its version. -/
def operationId : Except Fault (Option String) :=
  let id := t.written "operationId"
  if id.isTruthy then (id.toText.map some).mapError .failed
  else
    match t.isLegacy with
    | .error f => .error (.failed f)
    | .ok true => .ok none
    | .ok false =>
      if t.operation.hasLiteral && t.apiVersion.hasLiteral then
        .error (.missingOperationId t.operation t.apiVersion)
      else .error (.failed .badValue)

end OperationView
end ApiTree
